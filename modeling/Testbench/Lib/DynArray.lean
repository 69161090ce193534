import Mathlib

/-!
Dynamic arrays grown one element at a time.

`x = new[x.size()+1]; x[idx++] = v` allocates before it assigns, and an allocation
without an initializer does not copy. `elems_pushAll_concat` says what is left of a
sequence written that way: its length and its last element.
-/

namespace Testbench.Lib

variable {α : Type*} [Inhabited α]

/-- A dynamic array and the index its next element is written at. -/
structure DynArray (α : Type*) where
  elems : List α := []
  idx : Nat := 0
  full : idx = elems.length := by rfl

namespace DynArray

/-- `x = new[x.size()+1]; x[idx++] = v`. -/
def push (x : DynArray α) (v : α) : DynArray α where
  elems := (List.replicate (x.elems.length + 1) default).set x.idx v
  idx := x.idx + 1
  full := by simp [x.full]

/-- One push after the other. -/
def pushAll (x : DynArray α) (vs : List α) : DynArray α := vs.foldl push x

/-- A push keeps the size of what was there and nothing else of it. -/
theorem elems_push (x : DynArray α) (v : α) :
    (x.push v).elems = List.replicate x.idx default ++ [v] := by
  have hnew : (x.push v).elems = (List.replicate (x.elems.length + 1) default).set x.idx v := rfl
  rw [hnew, ← x.full, List.replicate_succ', List.set_append_right _ _ (by simp)]
  simp

@[simp] theorem idx_push (x : DynArray α) (v : α) : (x.push v).idx = x.idx + 1 := rfl

theorem pushAll_concat (x : DynArray α) (vs : List α) (v : α) :
    x.pushAll (vs ++ [v]) = (x.pushAll vs).push v := List.foldl_append

@[simp] theorem idx_pushAll (x : DynArray α) (vs : List α) :
    (x.pushAll vs).idx = x.idx + vs.length := by
  induction vs generalizing x with
  | nil => rfl
  | cons v vs ih =>
    have hrest : (x.pushAll (v :: vs)).idx = x.idx + 1 + vs.length := ih (x.push v)
    rw [hrest, List.length_cons, Nat.add_assoc, Nat.add_comm 1]

/-- **Of a sequence of pushes the last one survives.** -/
theorem elems_pushAll_concat (x : DynArray α) (vs : List α) (v : α) :
    (x.pushAll (vs ++ [v])).elems = List.replicate (x.idx + vs.length) default ++ [v] := by
  rw [pushAll_concat, elems_push, idx_pushAll]

end DynArray

end Testbench.Lib
