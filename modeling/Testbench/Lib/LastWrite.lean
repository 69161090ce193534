import Testbench.Lib.Run

/-!
Registers and the last write.

An observation that some operations overwrite and no other changes is a register. After
a run it is what the last write put there, or what it was before (`run_lastWrite`).
-/

namespace Testbench.Lib

variable {σ ο β γ : Type*} {step : σ → ο → σ}

/-- What the last operation that writes the register writes to it. -/
def lastWrite (written : ο → Option β) (ops : List ο) : Option β :=
  (ops.filterMap written).getLast?

@[simp] theorem lastWrite_nil (written : ο → Option β) : lastWrite written [] = none := rfl

theorem lastWrite_cons (written : ο → Option β) (op : ο) (ops : List ο) :
    lastWrite written (op :: ops) = (lastWrite written ops).or (written op) := by
  unfold lastWrite
  cases hwritten : written op with
  | none => rw [List.filterMap_cons_none hwritten, Option.or_none]
  | some v =>
    rw [List.filterMap_cons_some hwritten, List.getLast?_cons]
    cases (ops.filterMap written).getLast? <;> rfl

theorem lastWrite_append_singleton (written : ο → Option β) (ops : List ο) (op : ο) :
    lastWrite written (ops ++ [op]) = (written op).or (lastWrite written ops) := by
  unfold lastWrite
  rw [List.filterMap_append]
  cases hwritten : written op with
  | none => rw [List.filterMap_cons_none hwritten, List.filterMap_nil, List.append_nil, Option.none_or]
  | some v =>
    rw [List.filterMap_cons_some hwritten, List.filterMap_nil, List.getLast?_concat, Option.some_or]

/-- **After a run a register holds the last write to it, or else what it held before.** -/
theorem run_lastWrite {get : σ → β} {written : ο → Option β} {ops : List ο}
    (hstep : ∀ s, ∀ op ∈ ops, get (step s op) = (written op).getD (get s)) (s : σ) :
    get (run step s ops) = (lastWrite written ops).getD (get s) := by
  induction ops generalizing s with
  | nil => rfl
  | cons op ops ih =>
    rw [run_cons, ih fun s op' h => hstep s op' (List.mem_cons_of_mem _ h), lastWrite_cons,
      hstep s op List.mem_cons_self]
    cases lastWrite written ops <;> rfl

/-- The last write, looked at through a function. -/
theorem lastWrite_map (written : ο → Option β) (g : β → γ) (ops : List ο) :
    lastWrite (fun op => (written op).map g) ops = (lastWrite written ops).map g := by
  induction ops with
  | nil => rfl
  | cons op ops ih =>
    rw [lastWrite_cons, lastWrite_cons, ih]
    cases lastWrite written ops <;> rfl

end Testbench.Lib
