import Testbench.Lib.Run

/-!
Counters of a fixed width along a run.

A counter that each step moves by some number shows the total of the run modulo its width
(`run_counter_wrap`). Read as a signed number it shows the total itself as long as that is in
range (`toInt_run`), and so long it never goes down (`toInt_run_le`).
-/

namespace Testbench.Lib

variable {σ ο : Type*} {step : σ → ο → σ} {w : Nat}

/-- Adding to a signed number that has room for it. -/
theorem toInt_add_ofNat {x : BitVec w} {n : Nat} (h : (x.toInt + n) * 2 < 2 ^ w) :
    (x + BitVec.ofNat w n).toInt = x.toInt + n := by
  have hlow : -2 ^ w ≤ 2 * x.toInt := BitVec.le_two_mul_toInt
  rw [BitVec.toInt_add, BitVec.toInt_ofNat', Int.add_bmod_bmod]
  apply Int.bmod_eq_of_le_mul_two <;> push_cast <;> omega

/-! ### Totals -/

section Totals

variable (g : σ → ο → Nat) (s : σ)

theorem sum_trace_append (ops ops' : List ο) :
    (trace step g s (ops ++ ops')).sum =
      (trace step g s ops).sum + (trace step g (run step s ops) ops').sum := by
  rw [trace_append, List.sum_append]

/-- A total only grows along a run. -/
theorem sum_trace_take_le (ops : List ο) {n k : Nat} (h : n ≤ k) :
    (trace step g s (ops.take n)).sum ≤ (trace step g s (ops.take k)).sum := by
  obtain ⟨rest, hrest⟩ := List.take_prefix_take_left (l := ops) h
  rw [← hrest, sum_trace_append]
  exact Nat.le_add_right _ _

/-- The total of one operation over and over that always adds the same. -/
theorem sum_trace_replicate {op : ο} {k : Nat} (h : ∀ s, g s op = k) (n : Nat) :
    (trace step g s (List.replicate n op)).sum = n * k := by
  induction n generalizing s with
  | zero => simp [trace]
  | succ n ih => rw [List.replicate_succ, trace, List.sum_cons, ih, h, Nat.succ_mul, Nat.add_comm]

end Totals

/-! ### Counters -/

section Counters

variable {f : σ → BitVec w} {g : σ → ο → Nat}
  (hstep : ∀ s op, f (step s op) = f s + BitVec.ofNat w (g s op)) (s : σ)
include hstep

/-- **A counter shows the total modulo its width.** -/
theorem run_counter_wrap (ops : List ο) :
    f (run step s ops) = f s + BitVec.ofNat w (trace step g s ops).sum := by
  induction ops generalizing s with
  | nil => simp [trace]
  | cons op ops ih =>
    rw [run_cons, ih, hstep, trace, List.sum_cons, BitVec.ofNat_add, BitVec.add_assoc]

/-- In range it shows the total. -/
theorem toInt_run {ops : List ο}
    (h : ((f s).toInt + (trace step g s ops).sum) * 2 < 2 ^ w) :
    (f (run step s ops)).toInt = (f s).toInt + (trace step g s ops).sum := by
  rw [run_counter_wrap hstep, toInt_add_ofNat h]

/-- So long it never goes down. -/
theorem toInt_run_le {ops : List ο} {n k : Nat} (hnk : n ≤ k)
    (h : ((f s).toInt + (trace step g s (ops.take k)).sum) * 2 < 2 ^ w) :
    (f (run step s (ops.take n))).toInt ≤ (f (run step s (ops.take k))).toInt := by
  have hgrows : (trace step g s (ops.take n)).sum ≤ (trace step g s (ops.take k)).sum :=
    sum_trace_take_le g s ops hnk
  rw [toInt_run hstep s h, toInt_run hstep s (by omega)]
  omega

end Counters

end Testbench.Lib
