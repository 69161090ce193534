import Testbench.Canfd.RefModel

/-!
Acceptance filtering.

`check_filter` accepts a frame when no filter is enabled or an enabled one matches
(`checkFilter_iff`). What it computes is thus a statement about some entry, which is
why order, disabled entries and masked identifier bits do not matter, and why a wider
set of filters accepts no less.
-/

namespace Testbench.Canfd

open Testbench.Canphy

namespace Filter

/-- The frame passes the filter: enabled, same format, same identifier under the mask. -/
def Passes (f : Filter) (tr : CanphyTrans) : Prop :=
  f.enable = true ∧ f.ide = tr.ide ∧ tr.canId &&& f.mask = f.id &&& f.mask

/-- The filters differ at most in identifier bits that are masked out, or, when both are
disabled, in anything else. -/
structure Alike (f f' : Filter) : Prop where
  enable : f'.enable = f.enable
  ide : f.enable = true → f'.ide = f.ide
  mask : f.enable = true → f'.mask = f.mask
  id : f.enable = true → f'.id &&& f.mask = f.id &&& f.mask

theorem Alike.symm {f f' : Filter} (h : Alike f f') : Alike f' f where
  enable := h.enable.symm
  ide := fun hen => (h.ide (h.enable ▸ hen)).symm
  mask := fun hen => (h.mask (h.enable ▸ hen)).symm
  id := fun hen => by
    rw [h.mask (h.enable ▸ hen)]
    exact (h.id (h.enable ▸ hen)).symm

theorem Alike.passes {f f' : Filter} {tr : CanphyTrans} (h : Alike f f') (hpass : f.Passes tr) :
    f'.Passes tr := by
  obtain ⟨hen, hide, hid⟩ := hpass
  refine ⟨h.enable.trans hen, (h.ide hen).trans hide, ?_⟩
  rw [h.mask hen, h.id hen]
  exact hid

/-- Clearing bits of the mask. -/
def clearMask (f : Filter) (bits : BitVec 29) : Filter := { f with mask := f.mask &&& ~~~bits }

theorem passes_clearMask {f : Filter} {tr : CanphyTrans} (h : f.Passes tr) (bits : BitVec 29) :
    (f.clearMask bits).Passes tr := by
  obtain ⟨hen, hide, hid⟩ := h
  refine ⟨hen, hide, ?_⟩
  show tr.canId &&& (f.mask &&& ~~~bits) = f.id &&& (f.mask &&& ~~~bits)
  rw [← BitVec.and_assoc, hid, BitVec.and_assoc]

end Filter

namespace RefModel

/-- **A frame is accepted iff no filter is enabled or it passes one of them.** -/
theorem checkFilter_iff (tr : CanphyTrans) (filters : Fin 32 → Filter) :
    checkFilter tr filters = true ↔
      (∀ i, (filters i).enable = false) ∨ ∃ i, (filters i).Passes tr := by
  unfold checkFilter Filter.Passes
  by_cases hany : ∃ i, (filters i).enable = true
  · have hany' : ((List.finRange 32).any fun i => (filters i).enable) = true := by
      simpa using hany
    obtain ⟨i, hi⟩ := hany
    have hnot : ¬ ∀ i, (filters i).enable = false := fun h => by simp [h i] at hi
    simp [hany', hnot, and_assoc]
  · have hall : ∀ i, (filters i).enable = false := by simpa using hany
    simp [hall]

/-- Accepting carries over when enabled filters stay enabled or none was, and every
filter passed has one that is passed. -/
theorem checkFilter_mono {tr : CanphyTrans} {filters filters' : Fin 32 → Filter}
    (hnone : (∀ i, (filters i).enable = false) → ∀ i, (filters' i).enable = false)
    (hpass : ∀ i, (filters i).Passes tr → ∃ j, (filters' j).Passes tr)
    (h : checkFilter tr filters = true) : checkFilter tr filters' = true := by
  rw [checkFilter_iff] at h ⊢
  rcases h with h | ⟨i, hi⟩
  · exact Or.inl (hnone h)
  · exact Or.inr (hpass i hi)

theorem checkFilter_perm (tr : CanphyTrans) (filters : Fin 32 → Filter)
    (σ : Equiv.Perm (Fin 32)) : checkFilter tr (filters ∘ σ) = checkFilter tr filters := by
  rw [Bool.eq_iff_iff]
  constructor
  · apply checkFilter_mono
    · intro hnone i
      have hi := hnone (σ.symm i)
      rwa [Function.comp_apply, Equiv.apply_symm_apply] at hi
    · intro i hi
      exact ⟨σ i, hi⟩
  · apply checkFilter_mono
    · intro hnone i
      exact hnone (σ i)
    · intro i hi
      refine ⟨σ.symm i, ?_⟩
      rwa [Function.comp_apply, Equiv.apply_symm_apply]

theorem checkFilter_alike (tr : CanphyTrans) {filters filters' : Fin 32 → Filter}
    (h : ∀ i, (filters i).Alike (filters' i)) : checkFilter tr filters' = checkFilter tr filters := by
  have hone : ∀ {f f' : Fin 32 → Filter}, (∀ i, (f i).Alike (f' i)) → checkFilter tr f = true →
      checkFilter tr f' = true := by
    intro f f' halike
    apply checkFilter_mono
    · intro hnone i
      rw [(halike i).enable]
      exact hnone i
    · intro i hi
      exact ⟨i, (halike i).passes hi⟩
  rw [Bool.eq_iff_iff]
  exact ⟨hone fun i => (h i).symm, hone h⟩

/-- Replacing one filter by one that passes what it passed rejects nothing that was
accepted, once a filter is enabled. -/
theorem checkFilter_update {tr : CanphyTrans} {filters : Fin 32 → Filter} {i : Fin 32} {f : Filter}
    (hany : ∃ j, (filters j).enable = true) (hwider : (filters i).Passes tr → f.Passes tr)
    (h : checkFilter tr filters = true) : checkFilter tr (Function.update filters i f) = true := by
  refine checkFilter_mono ?_ ?_ h
  · intro hnone
    obtain ⟨j, hj⟩ := hany
    rw [hnone j] at hj
    cases hj
  · intro j hj
    by_cases hji : j = i
    · subst hji
      exact ⟨j, by rw [Function.update_self]; exact hwider hj⟩
    · exact ⟨j, by rw [Function.update_of_ne hji]; exact hj⟩

/-- What acceptance filtering owes its user, for a frame and an array of filters. -/
structure AcceptanceFiltering (tr : CanphyTrans) (filters : Fin 32 → Filter) : Prop where
  accepts : checkFilter tr filters = true ↔
    (∀ i, (filters i).enable = false) ∨
      ∃ i, (filters i).enable = true ∧ (filters i).ide = tr.ide ∧
        tr.canId &&& (filters i).mask = (filters i).id &&& (filters i).mask
  permuted : ∀ σ : Equiv.Perm (Fin 32), checkFilter tr (filters ∘ σ) = checkFilter tr filters
  alike : ∀ filters', (∀ i, (filters i).Alike (filters' i)) →
    checkFilter tr filters' = checkFilter tr filters
  enabled : (∃ i, (filters i).enable = true) → checkFilter tr filters = true →
    ∀ i f, (filters i).enable = false → checkFilter tr (Function.update filters i f) = true
  cleared : (∃ i, (filters i).enable = true) → checkFilter tr filters = true →
    ∀ i bits, (filters i).enable = true →
      checkFilter tr (Function.update filters i ((filters i).clearMask bits)) = true

/-- **Acceptance is a matter of the set of enabled filters alone, and grows with it.** -/
theorem acceptanceFiltering (tr : CanphyTrans) (filters : Fin 32 → Filter) :
    AcceptanceFiltering tr filters where
  accepts := checkFilter_iff tr filters
  permuted := checkFilter_perm tr filters
  alike := fun _ h => checkFilter_alike tr h
  enabled := by
    intro hany haccept i f hoff
    refine checkFilter_update hany (fun hpass => ?_) haccept
    rw [hpass.1] at hoff
    cases hoff
  cleared := by
    intro hany haccept i bits _
    exact checkFilter_update hany (fun hpass => Filter.passes_clearMask hpass bits) haccept

end RefModel

end Testbench.Canfd
