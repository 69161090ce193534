import Testbench.Lib.Run

/-!
Where the entries of a queue come from.

A step appends one entry to the queue or, at most, takes entries away. What the queue
holds after a run was then appended by steps of the run, one for each entry and in
their order (`exists_recorders`). When each step stamps what it appends with the
clock it reads, every entry carries the stamp of its own step (`stamped_run`).
-/

namespace Testbench.Lib

variable {σ ο α τ : Type*} {step : σ → ο → σ} {queue : σ → List α}

/-- Step `n` of a run appends `a` to the queue. -/
def Appends (step : σ → ο → σ) (queue : σ → List α) (s : σ) (ops : List ο) (n : Nat) (a : α) :
    Prop :=
  n < ops.length ∧
    queue (run step s (ops.take (n + 1))) = queue (run step s (ops.take n)) ++ [a]

/-- Entries taken away on one side are taken away on the other. -/
theorem forall₂_of_sublist {R : Nat → α → Prop} {as as' : List α} (h : as'.Sublist as) :
    ∀ {ns : List Nat}, List.Forall₂ R ns as →
      ∃ ns' : List Nat, ns'.Sublist ns ∧ List.Forall₂ R ns' as' := by
  induction h with
  | slnil =>
    intro ns hall
    exact ⟨ns, List.Sublist.refl ns, hall⟩
  | cons a _ ih =>
    rintro _ (_ | @⟨n, _, ns, _, -, hrest⟩)
    obtain ⟨ns', hsub, hall⟩ := ih hrest
    exact ⟨ns', hsub.cons n, hall⟩
  | cons_cons a _ ih =>
    rintro _ (_ | @⟨n, _, ns, _, hn, hrest⟩)
    obtain ⟨ns', hsub, hall⟩ := ih hrest
    exact ⟨n :: ns', hsub.cons_cons n, .cons hn hall⟩

/-- What a step of a run appends does not depend on what follows. -/
theorem Appends.append_singleton {s : σ} {ops : List ο} {n : Nat} {a : α}
    (h : Appends step queue s ops n a) (op : ο) : Appends step queue s (ops ++ [op]) n a := by
  obtain ⟨hlt, heq⟩ := h
  refine ⟨by rw [List.length_append]; omega, ?_⟩
  rw [List.take_append_of_le_length hlt, List.take_append_of_le_length hlt.le]
  exact heq

theorem appends_last {s : σ} {ops : List ο} {op : ο} {a : α}
    (h : queue (step (run step s ops) op) = queue (run step s ops) ++ [a]) :
    Appends step queue s (ops ++ [op]) ops.length a := by
  have hlen : (ops ++ [op]).length = ops.length + 1 := List.length_append
  refine ⟨by omega, ?_⟩
  rw [← hlen, List.take_length, List.take_left, run_append_singleton]
  exact h

/-- Each step appends one entry or takes entries away. -/
def AppendsOrTakes (step : σ → ο → σ) (queue : σ → List α) : Prop :=
  ∀ s op, (∃ a, queue (step s op) = queue s ++ [a]) ∨ (queue (step s op)).Sublist (queue s)

/-- **What a queue holds after a run, steps of the run appended**, one for each entry, in
order. -/
theorem exists_recorders (hstep : AppendsOrTakes step queue) {s : σ} (hs : queue s = [])
    (ops : List ο) :
    ∃ ns : List Nat, ns.Pairwise (· < ·) ∧
      List.Forall₂ (Appends step queue s ops) ns (queue (run step s ops)) := by
  induction ops using List.reverseRecOn with
  | nil => exact ⟨[], .nil, by rw [run_nil, hs]; exact .nil⟩
  | append_singleton ops op ih =>
    obtain ⟨ns, hsorted, hall⟩ := ih
    have hlift := hall.imp fun _ _ h => h.append_singleton op
    rw [run_append_singleton]
    rcases hstep (run step s ops) op with ⟨a, happ⟩ | htake
    · refine ⟨ns ++ [ops.length], ?_, ?_⟩
      · rw [List.pairwise_append]
        refine ⟨hsorted, List.pairwise_singleton _ _, ?_⟩
        intro n hn m hm
        obtain rfl := List.mem_singleton.mp hm
        obtain ⟨i, hi, rfl⟩ := List.getElem_of_mem hn
        exact ((List.forall₂_iff_get.mp hall).2 i hi (hall.length_eq ▸ hi)).1
      · rw [happ]
        exact List.rel_append hlift (.cons (appends_last happ) .nil)
    · obtain ⟨ns', hsub, hall'⟩ := forall₂_of_sublist htake hlift
      exact ⟨ns', hsorted.sublist hsub, hall'⟩

/-- Every entry appended in a run carries the clock of the state it was appended in, and
every entry held at its end was appended in the run: `ns` are the steps that did it. -/
structure Stamped (step : σ → ο → σ) (queue : σ → List α) (stamp : α → τ) (clock : σ → τ) (s : σ)
    (ops : List ο) : Prop where
  appended : ∀ n a, Appends step queue s ops n a → stamp a = clock (run step s (ops.take n))
  held : ∃ ns : List Nat, ns.Pairwise (· < ·) ∧
    List.Forall₂ (Appends step queue s ops) ns (queue (run step s ops))

/-- **A queue whose steps stamp what they append holds entries with the stamp of their
step.** -/
theorem stamped_run {stamp : α → τ} {clock : σ → τ}
    (hstep : ∀ s op, (∃ a, stamp a = clock s ∧ queue (step s op) = queue s ++ [a]) ∨
      (queue (step s op)).Sublist (queue s))
    {s : σ} (hs : queue s = []) (ops : List ο) : Stamped step queue stamp clock s ops := by
  have htakes : AppendsOrTakes step queue := by
    intro s op
    rcases hstep s op with ⟨a, -, happ⟩ | htake
    · exact Or.inl ⟨a, happ⟩
    · exact Or.inr htake
  refine ⟨?_, exists_recorders htakes hs ops⟩
  rintro n a ⟨hlt, heq⟩
  rw [List.take_succ_eq_append_getElem hlt, run_append_singleton] at heq
  rcases hstep (run step s (ops.take n)) ops[n] with ⟨b, hstamp, happ⟩ | htake
  · obtain ⟨-, hab⟩ := List.append_inj' (happ.symm.trans heq) rfl
    obtain rfl := List.singleton_inj.mp hab
    exact hstamp
  · -- a step that takes entries away does not append one
    have hlen := htake.length_le
    rw [heq, List.length_append, List.length_singleton] at hlen
    omega

end Testbench.Lib
