import Mathlib

/-!
Selection by a running minimum.

A loop over an ordered index type keeps the least key seen so far, starting from
a sentinel, and the index it was found at. `scanMin_eq_some_iff` and
`scanMin_eq_none_iff` say what it selects: the first eligible index with the
least key, provided that key is under the sentinel.

`drain` repeats the selection and makes each selected index ineligible.
`drain_spec` describes the whole sequence: strictly increasing selections, then
nothing.
-/

namespace Testbench.Lib

variable {ι κ : Type*} [LinearOrder ι] [LinearOrder κ]

/-- One iteration of the loop; `acc` is the running minimum and its index. -/
def scanStep (eligible : ι → Bool) (key : ι → κ) (acc : κ × Option ι) (i : ι) : κ × Option ι :=
  if eligible i then
    if key i < acc.1 then (key i, some i) else acc
  else acc

/-- The index the loop over `l` ends with. -/
def scanMin (l : List ι) (key : ι → κ) (top : κ) (eligible : ι → Bool) : Option ι :=
  (l.foldl (scanStep eligible key) (top, none)).2

/-- `i` is selected ahead of `j`: a smaller key, or the same key at a smaller index. -/
def Before (key : ι → κ) (i j : ι) : Prop := key i < key j ∨ key i = key j ∧ i < j

theorem Before.ne {key : ι → κ} {i j : ι} (h : Before key i j) : i ≠ j := by
  rintro rfl
  rcases h with h | ⟨-, h⟩ <;> exact lt_irrefl _ h

theorem Before.le {key : ι → κ} {i j : ι} (h : Before key i j) : key i ≤ key j := by
  rcases h with h | ⟨h, -⟩
  · exact h.le
  · exact h.le

section Scan

variable {key : ι → κ} {top : κ} {eligible : ι → Bool}

/-- What the accumulator knows after the indices in `l`. -/
def ScanInv (eligible : ι → Bool) (key : ι → κ) (top : κ) (l : List ι) :
    κ × Option ι → Prop
  | (best, none) => best = top ∧ ∀ j ∈ l, eligible j = true → top ≤ key j
  | (best, some i) => best = key i ∧ i ∈ l ∧ eligible i = true ∧ key i < top ∧
      ∀ j ∈ l, eligible j = true → j ≠ i → Before key i j

/-- An index that is not eligible changes nothing. -/
theorem scanInv_skip {l : List ι} {acc : κ × Option ι} {x : ι}
    (hacc : ScanInv eligible key top l acc) (hel : eligible x = false) :
    ScanInv eligible key top (l ++ [x]) acc := by
  have hnot : ¬ eligible x = true := by simp [hel]
  obtain ⟨best, sel⟩ := acc
  cases sel with
  | none =>
    obtain ⟨hbest, hnone⟩ := hacc
    refine ⟨hbest, List.forall_mem_append.mpr ⟨hnone, List.forall_mem_singleton.mpr ?_⟩⟩
    intro hje
    exact absurd hje hnot
  | some i =>
    obtain ⟨hbest, hmem, hie, htop, hmin⟩ := hacc
    refine ⟨hbest, List.mem_append_left _ hmem, hie, htop,
      List.forall_mem_append.mpr ⟨hmin, List.forall_mem_singleton.mpr ?_⟩⟩
    intro hje
    exact absurd hje hnot

/-- A smaller key takes over. -/
theorem scanInv_take {l : List ι} {best : κ} {sel : Option ι} {x : ι}
    (hacc : ScanInv eligible key top l (best, sel)) (hel : eligible x = true)
    (hlt : key x < best) : ScanInv eligible key top (l ++ [x]) (key x, some x) := by
  have hlast : x ∈ l ++ [x] := List.mem_append_right _ List.mem_cons_self
  cases sel with
  | none =>
    obtain ⟨rfl, hnone⟩ := hacc
    refine ⟨rfl, hlast, hel, hlt, List.forall_mem_append.mpr ⟨?_, ?_⟩⟩
    · intro j hj hje _
      exact Or.inl (lt_of_lt_of_le hlt (hnone j hj hje))
    · exact List.forall_mem_singleton.mpr fun _ hne => absurd rfl hne
  | some i =>
    obtain ⟨rfl, hmem, hie, htop, hmin⟩ := hacc
    refine ⟨rfl, hlast, hel, lt_trans hlt htop, List.forall_mem_append.mpr ⟨?_, ?_⟩⟩
    · intro j hj hje _
      by_cases hji : j = i
      · rw [hji]
        exact Or.inl hlt
      · exact Or.inl (lt_of_lt_of_le hlt (hmin j hj hje hji).le)
    · exact List.forall_mem_singleton.mpr fun _ hne => absurd rfl hne

/-- A key that is not smaller is behind the selected one, because its index is. -/
theorem scanInv_keep {l : List ι} {best : κ} {sel : Option ι} {x : ι}
    (hacc : ScanInv eligible key top l (best, sel)) (hge : best ≤ key x)
    (hx : ∀ j ∈ l, j < x) : ScanInv eligible key top (l ++ [x]) (best, sel) := by
  cases sel with
  | none =>
    obtain ⟨rfl, hnone⟩ := hacc
    exact ⟨rfl, List.forall_mem_append.mpr ⟨hnone, List.forall_mem_singleton.mpr fun _ => hge⟩⟩
  | some i =>
    obtain ⟨rfl, hmem, hie, htop, hmin⟩ := hacc
    refine ⟨rfl, List.mem_append_left _ hmem, hie, htop,
      List.forall_mem_append.mpr ⟨hmin, List.forall_mem_singleton.mpr ?_⟩⟩
    intro _ _
    rcases lt_or_eq_of_le hge with hlt | heq
    · exact Or.inl hlt
    · exact Or.inr ⟨heq, hx i hmem⟩

/-- One iteration keeps the invariant, when the new index comes after all others. -/
theorem scanInv_step {l : List ι} {acc : κ × Option ι} {x : ι}
    (hacc : ScanInv eligible key top l acc) (hx : ∀ j ∈ l, j < x) :
    ScanInv eligible key top (l ++ [x]) (scanStep eligible key acc x) := by
  obtain ⟨best, sel⟩ := acc
  unfold scanStep
  split
  · next hel =>
    split
    · next hlt => exact scanInv_take hacc hel hlt
    · next hlt => exact scanInv_keep hacc (not_lt.mp hlt) hx
  · next hel => exact scanInv_skip hacc (by simpa using hel)

theorem scanInv_foldl {l : List ι} (sorted : l.Pairwise (· < ·)) :
    ScanInv eligible key top l (l.foldl (scanStep eligible key) (top, none)) := by
  induction l using List.reverseRecOn with
  | nil => exact ⟨rfl, by simp⟩
  | append_singleton l x ih =>
    rw [List.foldl_append]
    obtain ⟨hl, -, hlast⟩ := List.pairwise_append.mp sorted
    exact scanInv_step (ih hl) fun j hj => hlast j hj x List.mem_cons_self

variable (key top eligible) in
/-- The selection is that of a pair that meets the invariant. -/
theorem exists_scanInv {l : List ι} (sorted : l.Pairwise (· < ·)) :
    ∃ best sel, ScanInv eligible key top l (best, sel) ∧ scanMin l key top eligible = sel :=
  ⟨_, _, scanInv_foldl sorted, rfl⟩

variable {l : List ι} (sorted : l.Pairwise (· < ·)) (complete : ∀ i, i ∈ l)
include sorted complete

/-- The loop selects nothing iff no eligible key is under the sentinel. -/
theorem scanMin_eq_none_iff :
    scanMin l key top eligible = none ↔ ∀ j, eligible j = true → top ≤ key j := by
  obtain ⟨best, sel, hinv, hsel⟩ := exists_scanInv key top eligible sorted
  rw [hsel]
  cases sel with
  | none => simpa using fun j hje => hinv.2 j (complete j) hje
  | some i =>
    simp only [reduceCtorEq, false_iff]
    exact fun h => absurd (h i hinv.2.2.1) (not_le.mpr hinv.2.2.2.1)

/-- The loop selects `i` iff `i` is eligible, under the sentinel, and ahead of every
other eligible index. -/
theorem scanMin_eq_some_iff {i : ι} :
    scanMin l key top eligible = some i ↔
      eligible i = true ∧ key i < top ∧ ∀ j, eligible j = true → j ≠ i → Before key i j := by
  obtain ⟨best, sel, hinv, hsel⟩ := exists_scanInv key top eligible sorted
  rw [hsel]
  cases sel with
  | none =>
    simp only [reduceCtorEq, false_iff]
    rintro ⟨hie, htop, -⟩
    exact absurd (hinv.2 i (complete i) hie) (not_le.mpr htop)
  | some k =>
    obtain ⟨-, -, hke, htop, hmin⟩ := hinv
    simp only [Option.some.injEq]
    constructor
    · rintro rfl
      exact ⟨hke, htop, fun j => hmin j (complete j)⟩
    · rintro ⟨hie, -, hmin'⟩
      by_contra hne
      -- both would be strictly ahead of each other
      rcases hmin i (complete i) hie (Ne.symm hne), hmin' k hke hne with
        ⟨h | ⟨h, h1⟩, h' | ⟨h', h2⟩⟩
      · exact lt_asymm h h'
      · exact lt_irrefl _ (h' ▸ h)
      · exact lt_irrefl _ (h ▸ h')
      · exact lt_asymm h1 h2

end Scan

/-! ### Draining -/

/-- The selections of `k` rounds, each making the selected index ineligible. -/
def drain (l : List ι) (key : ι → κ) (top : κ) : Nat → (ι → Bool) → List (Option ι)
  | 0, _ => []
  | k + 1, eligible =>
      match scanMin l key top eligible with
      | some i => some i :: drain l key top k (Function.update eligible i false)
      | none => none :: drain l key top k eligible

section Drain

variable {key : ι → κ} {top : κ} {l : List ι}

theorem drain_of_none {eligible : ι → Bool} (h : scanMin l key top eligible = none) (k : Nat) :
    drain l key top k eligible = List.replicate k none := by
  induction k with
  | zero => rfl
  | succ k ih => simp [drain, h, ih, List.replicate_succ]

variable (key top) in
/-- **A drain is a strictly increasing sequence of eligible indices followed by
nothing.** -/
theorem drain_spec (sorted : l.Pairwise (· < ·)) (complete : ∀ i, i ∈ l) (k : Nat)
    (eligible : ι → Bool) :
    ∃ (picks : List ι) (idle : Nat),
      drain l key top k eligible = picks.map some ++ List.replicate idle none ∧
      picks.Pairwise (Before key) ∧ ∀ i ∈ picks, eligible i = true := by
  induction k generalizing eligible with
  | zero => exact ⟨[], 0, rfl, List.Pairwise.nil, by simp⟩
  | succ k ih =>
    cases hsel : scanMin l key top eligible with
    | none =>
      exact ⟨[], k + 1, by rw [drain_of_none hsel]; rfl, List.Pairwise.nil, by simp⟩
    | some i =>
      obtain ⟨hie, -, hmin⟩ := (scanMin_eq_some_iff sorted complete).mp hsel
      obtain ⟨picks, idle, hdrain, hsorted, hpicks⟩ := ih (Function.update eligible i false)
      have hrest : ∀ j ∈ picks, j ≠ i ∧ eligible j = true := by
        intro j hj
        have := hpicks j hj
        by_cases hji : j = i
        · rw [hji, Function.update_self] at this
          cases this
        · exact ⟨hji, by rwa [Function.update_of_ne hji] at this⟩
      refine ⟨i :: picks, idle, by simp [drain, hsel, hdrain], ?_, ?_⟩
      · exact List.pairwise_cons.mpr ⟨fun j hj => hmin j (hrest j hj).2 (hrest j hj).1, hsorted⟩
      · exact List.forall_mem_cons.mpr ⟨hie, fun j hj => (hrest j hj).2⟩

end Drain

end Testbench.Lib
