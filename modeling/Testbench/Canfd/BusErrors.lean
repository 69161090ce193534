import Testbench.Canfd.Faults
import Testbench.Canfd.Scoreboard

/-!
Error frames and the expected error counters.

Both frame threads of the scoreboard return early on an error frame, and no other
item makes the model count an error. The model's counters are therefore zero in
every run (`counters_run`), and one error frame more changes nothing that is
expected on a later read: `reflected_iff`.
-/

namespace Testbench.Canfd

open Testbench.Lib Testbench.Canphy

namespace Scoreboard

/-- The TEC a read of ECR is expected to return. -/
def expectedTec (s : Scoreboard) : BitVec 8 := (s.refModel.readReg 0x0010#32).extractLsb' 0 8

/-- The REC a read of ECR is expected to return. -/
def expectedRec (s : Scoreboard) : BitVec 8 := (s.refModel.readReg 0x0010#32).extractLsb' 8 8

/-- No item makes the model count an error. -/
theorem errorDetected_notMem_refOps (op : ScbOp) (errType : CanErrorType) (isFd isTx : Bool) :
    .errorDetected errType isFd isTx ∉ refOps op := by
  intro hop
  cases op with
  | tx tr =>
    simp only [refOps] at hop
    split at hop <;> simp at hop
  | rx tr => simp [refOps] at hop
  | axi tr =>
    simp only [refOps, writeOps] at hop
    split at hop
    · split at hop <;> simp at hop
    · simp at hop
  | tick => simp [refOps] at hop

/-- Counters at zero stay there without errors. -/
theorem counters_zero_run {m : RefModel} (h : m.counters = (0, 0)) (ops : List RefOp)
    (hquiet : ∀ errType isFd isTx, .errorDetected errType isFd isTx ∉ ops) :
    (run RefModel.step m ops).counters = (0, 0) := by
  induction ops generalizing m with
  | nil => exact h
  | cons op ops ih =>
    refine ih ?_ fun errType isFd isTx hop =>
      hquiet errType isFd isTx (List.mem_cons_of_mem _ hop)
    have hrange : InRange m.counters := by
      rw [h]
      exact ⟨Nat.zero_le _, Nat.zero_le _⟩
    rw [RefModel.counters_step hrange, h]
    cases hevent : m.counterEvent op with
    | error isTx =>
      obtain ⟨errType, isFd, rfl⟩ := m.errorDetected_of_event hevent
      exact absurd List.mem_cons_self (hquiet errType isFd isTx)
    | _ => rfl

/-- **In every run of the scoreboard the model's error counters are zero.** -/
theorem counters_run (ops : List ScbOp) :
    (run step ({} : Scoreboard) ops).refModel.counters = (0, 0) := by
  rw [refModel_run]
  refine counters_zero_run rfl _ ?_
  intro errType isFd isTx hop
  obtain ⟨op, -, hop⟩ := List.mem_flatMap.mp hop
  exact errorDetected_notMem_refOps op errType isFd isTx hop

end Scoreboard

/-- Two runs from reset that differ by one error frame on the TX or RX bus. -/
structure ErrorRun where
  before : List ScbOp
  frame : CanphyTrans
  onTx : Bool
  after : List ScbOp
  isError : frame.frameType = .errorFrame

namespace ErrorRun

variable (r : ErrorRun)

/-- The additional item. -/
def errorOp : ScbOp := if r.onTx then .tx r.frame else .rx r.frame

/-- The scoreboard when the error frame arrives. -/
def atError : Scoreboard := run Scoreboard.step {} r.before

/-- The run without the error frame. -/
def without : Scoreboard := run Scoreboard.step {} (r.before ++ r.after)

/-- The run with it. -/
def withError : Scoreboard := run Scoreboard.step {} (r.before ++ r.errorOp :: r.after)

/-- The counter the error frame belongs to is at its limit. -/
def Saturated : Prop :=
  if r.onTx then 256 ≤ r.atError.refModel.counters.1 else 128 ≤ r.atError.refModel.counters.2

/-- What the host reads after the two runs differs by the increment of one error, unless
the counter was saturated or has been reset. -/
def Reflected : Prop :=
  (∀ op ∈ r.after, op.softReset = false) → ¬ r.Saturated →
    if r.onTx then r.withError.expectedTec = r.without.expectedTec + 8
    else r.withError.expectedRec = r.without.expectedRec + 8

/-- The error frame does not change the scoreboard. -/
theorem withError_eq : r.withError = r.without := by
  have hskip : ∀ s : Scoreboard, s.step r.errorOp = s := by
    intro s
    unfold errorOp
    cases r.onTx with
    | true => exact if_pos r.isError
    | false => exact if_pos (Or.inl r.isError)
  rw [withError, without, run_append, run_append, run_cons, hskip]

theorem not_saturated : ¬ r.Saturated := by
  have hzero := Scoreboard.counters_run r.before
  unfold Saturated atError
  rw [hzero]
  split <;> decide

/-- **An additional error frame is reflected iff the counters are reset after it.** -/
theorem reflected_iff : r.Reflected ↔ ∃ op ∈ r.after, op.softReset = true := by
  have hne : ∀ x : BitVec 8, x ≠ x + 8 := by decide
  constructor
  · intro h
    by_contra hnone
    have hquiet : ∀ op ∈ r.after, op.softReset = false := by
      intro op hop
      by_contra hreset
      exact hnone ⟨op, hop, by simpa using hreset⟩
    have hdiff := h hquiet r.not_saturated
    rw [r.withError_eq] at hdiff
    split at hdiff <;> exact hne _ hdiff
  · rintro ⟨op, hop, hreset⟩ hquiet
    rw [hquiet op hop] at hreset
    cases hreset

end ErrorRun

/-- One error frame on the RX bus and nothing else. -/
def oneRxError : ErrorRun where
  before := []
  frame := { frameType := .errorFrame }
  onTx := false
  after := []
  isError := rfl

/-- The expected REC stays zero. -/
theorem oneRxError_not_reflected : ¬ oneRxError.Reflected := by
  intro h
  have hdiff := h (by simp [oneRxError]) oneRxError.not_saturated
  have hrec : oneRxError.withError.expectedRec = 0 ∧ oneRxError.without.expectedRec = 0 := by
    decide +kernel
  simp only [oneRxError, Bool.false_eq_true, if_false] at hdiff
  exact absurd (hrec.1.symm.trans (hdiff.trans (congrArg (· + 8) hrec.2))) (by decide)

end Testbench.Canfd
