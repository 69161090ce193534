import Testbench.Lib.Run

/-!
Stores made of independent cells.

Writing a cell makes it hold the value, leaves what the other cells hold alone,
and does nothing to a cell that holds the value already. A batch of writes to
distinct cells then leaves every written cell with its value (`holds_putAll`), and
changes nothing exactly when every value was there before (`putAll_eq_self_iff`).
-/

namespace Testbench.Lib

variable {σ κ ν β : Type*} {put : σ → κ → ν → σ} {Holds : σ → κ → ν → Prop}

/-- The laws of a store whose cells do not overlap. -/
structure CellStore (put : σ → κ → ν → σ) (Holds : σ → κ → ν → Prop) : Prop where
  holds_put : ∀ s k v, Holds (put s k v) k v
  holds_put_of_ne : ∀ s k k' v v', k ≠ k' → Holds s k v → Holds (put s k' v') k v
  put_eq_self : ∀ s k v, Holds s k v → put s k v = s

/-- A batch of writes, in order. -/
def putAll (put : σ → κ → ν → σ) (s : σ) (writes : List (κ × ν)) : σ :=
  run (fun s w => put s w.1 w.2) s writes

theorem putAll_cons (s : σ) (w : κ × ν) (writes : List (κ × ν)) :
    putAll put s (w :: writes) = putAll put (put s w.1 w.2) writes := rfl

/-- What no write of the batch changes is the same after it. -/
theorem putAll_const {f : σ → β} {writes : List (κ × ν)}
    (h : ∀ s, ∀ w ∈ writes, f (put s w.1 w.2) = f s) (s : σ) : f (putAll put s writes) = f s :=
  run_const h s

namespace CellStore

variable (store : CellStore put Holds)
include store

/-- A cell no write of the batch addresses keeps what it holds. -/
theorem holds_putAll_of_notMem {writes : List (κ × ν)} {s : σ} {k : κ} {v : ν}
    (hk : k ∉ writes.map Prod.fst) (h : Holds s k v) : Holds (putAll put s writes) k v := by
  induction writes generalizing s with
  | nil => exact h
  | cons w writes ih =>
    rw [List.map_cons, List.mem_cons, not_or] at hk
    exact ih hk.2 (store.holds_put_of_ne s k w.1 v w.2 hk.1 h)

/-- **After a batch every written cell holds its value.** -/
theorem holds_putAll {writes : List (κ × ν)} (nodup : (writes.map Prod.fst).Nodup) (s : σ) :
    ∀ w ∈ writes, Holds (putAll put s writes) w.1 w.2 := by
  induction writes generalizing s with
  | nil => simp
  | cons w writes ih =>
    obtain ⟨hfresh, nodup⟩ := List.nodup_cons.mp nodup
    intro w' hw'
    rcases List.mem_cons.mp hw' with rfl | hw'
    · rw [putAll_cons]
      exact store.holds_putAll_of_notMem hfresh (store.holds_put s _ _)
    · exact ih nodup _ w' hw'

/-- **A batch changes nothing iff every value was in its cell before.** -/
theorem putAll_eq_self_iff {writes : List (κ × ν)} (nodup : (writes.map Prod.fst).Nodup) (s : σ) :
    putAll put s writes = s ↔ ∀ w ∈ writes, Holds s w.1 w.2 := by
  constructor
  · intro h w hw
    rw [← h]
    exact store.holds_putAll nodup s w hw
  · intro h
    clear nodup
    induction writes with
    | nil => rfl
    | cons w writes ih =>
      rw [putAll_cons, store.put_eq_self s _ _ (h w List.mem_cons_self)]
      exact ih fun w' hw' => h w' (List.mem_cons_of_mem _ hw')

end CellStore

end Testbench.Lib
