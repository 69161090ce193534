import Mathlib
import Testbench.Lib.Run

/-!
Runs of the same operations in another order.

Each operation has a kind, and `dep` says of which kinds the order matters. Two lists have
the same order when they agree on the operations of any two dependent kinds, and such
lists have the same run when operations of independent kinds commute
(`run_eq_of_sameOrder`).
-/

namespace Testbench.Lib

variable {σ ο κ : Type*} [DecidableEq κ] {step : σ → ο → σ} (kind : ο → κ) (dep : κ → κ → Prop)

/-- The operations of two kinds, in their order. -/
def project (k l : κ) (ops : List ο) : List ο :=
  ops.filter fun op => kind op = k ∨ kind op = l

/-- The lists agree on the order of dependent operations. -/
def SameOrder (ops ops' : List ο) : Prop :=
  ∀ k l, dep k l → project kind k l ops = project kind k l ops'

section Order

variable {kind dep} {ops ops' : List ο} {op : ο}

/-- A third kind may be left out before. -/
theorem project_filter {k l avoid : κ} (hk : k ≠ avoid) (hl : l ≠ avoid) :
    project kind k l (ops.filter fun op => kind op ≠ avoid) = project kind k l ops := by
  unfold project
  rw [List.filter_filter]
  refine List.filter_congr fun op _ => ?_
  by_cases hop : kind op = k ∨ kind op = l
  · have havoid : kind op ≠ avoid := by
      rcases hop with hop | hop <;> rw [hop] <;> assumption
    simp [hop, havoid]
  · simp [hop]

/-- An operation that commutes with all before it may come first. -/
theorem run_of_commutes {pre post : List ο}
    (hcomm : ∀ y ∈ pre, ∀ s, step (step s y) op = step (step s op) y) (s : σ) :
    run step s (pre ++ op :: post) = run step s (op :: (pre ++ post)) := by
  induction pre generalizing s with
  | nil => rfl
  | cons y pre ih =>
    rw [List.cons_append, run_cons, ih (fun z hz => hcomm z (List.mem_cons_of_mem _ hz)),
      List.cons_append, run_cons, run_cons, run_cons, hcomm y List.mem_cons_self]

/-- The first operation of a list stands in the other behind operations it does not depend on. -/
theorem SameOrder.exists_first (hrefl : ∀ k, dep k k) (h : SameOrder kind dep (op :: ops) ops') :
    ∃ pre post, ops' = pre ++ op :: post ∧ (∀ y ∈ pre, ¬ dep (kind op) (kind y)) := by
  have hown := h (kind op) (kind op) (hrefl _)
  unfold project at hown
  rw [List.filter_cons_of_pos (by simp)] at hown
  obtain ⟨pre, post, hsplit, hpre, -, -⟩ := List.filter_eq_cons_iff.mp hown.symm
  refine ⟨pre, post, hsplit, fun y hy hdep => ?_⟩
  have hpair := h (kind op) (kind y) hdep
  unfold project at hpair
  rw [hsplit, List.filter_cons_of_pos (by simp), List.filter_append] at hpair
  cases hfilter : pre.filter fun z => kind z = kind op ∨ kind z = kind y with
  | nil =>
    have hnone := List.filter_eq_nil_iff.mp hfilter y hy
    simp at hnone
  | cons z rest =>
    rw [hfilter] at hpair
    obtain rfl : op = z := (List.cons.inj hpair).1
    have hmem : op ∈ pre := List.mem_of_mem_filter (hfilter ▸ List.mem_cons_self)
    simpa using hpre op hmem

/-- Without it the lists agree still. -/
theorem SameOrder.tail (hrefl : ∀ k, dep k k) (hsymm : ∀ k l, dep k l → dep l k) {pre post : List ο}
    (hpre : ∀ y ∈ pre, ¬ dep (kind op) (kind y))
    (h : SameOrder kind dep (op :: ops) (pre ++ op :: post)) :
    SameOrder kind dep ops (pre ++ post) := by
  intro k l hdep
  have hpair := h k l hdep
  unfold project at *
  by_cases hop : kind op = k ∨ kind op = l
  · have hnone : pre.filter (fun y => kind y = k ∨ kind y = l) = [] := by
      refine List.filter_eq_nil_iff.mpr fun y hy hkind => hpre y hy ?_
      rcases hop with hop | hop <;>
        rcases (by simpa using hkind : kind y = k ∨ kind y = l) with hy | hy <;> rw [hop, hy]
      · exact hrefl k
      · exact hdep
      · exact hsymm k l hdep
      · exact hrefl l
    rw [List.filter_append, hnone, List.filter_cons_of_pos (by simpa using hop),
      List.filter_cons_of_pos (by simpa using hop)] at hpair
    rw [List.filter_append, hnone]
    exact (List.cons.inj hpair).2
  · rw [List.filter_append, List.filter_cons_of_neg (by simpa using hop),
      List.filter_cons_of_neg (by simpa using hop), ← List.filter_append] at hpair
    exact hpair

/-- **Lists that order dependent operations alike have the same run.** -/
theorem run_eq_of_sameOrder (hrefl : ∀ k, dep k k) (hsymm : ∀ k l, dep k l → dep l k)
    (hcomm : ∀ s x y, ¬ dep (kind x) (kind y) → step (step s x) y = step (step s y) x)
    (h : SameOrder kind dep ops ops') (s : σ) : run step s ops = run step s ops' := by
  induction ops generalizing ops' s with
  | nil =>
    cases ops' with
    | nil => rfl
    | cons y ops' => simpa [project] using h (kind y) (kind y) (hrefl _)
  | cons op ops ih =>
    obtain ⟨pre, post, rfl, hpre⟩ := h.exists_first hrefl
    have hswap : ∀ y ∈ pre, ∀ s, step (step s y) op = step (step s op) y :=
      fun y hy s => (hcomm s op y (hpre y hy)).symm
    rw [run_of_commutes hswap, run_cons, run_cons]
    exact ih (h.tail hrefl hsymm hpre) _

end Order

end Testbench.Lib
