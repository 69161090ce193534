import Testbench.Canfd.TxEvents

/-!
The TRR and TCR mirrors.

TRR should show the requests that are still open and TCR the cancellations that are.
The model only ever sets bits of the two registers: what is written is or-ed in
(`requestRegs_step`) and nothing but a reset takes a bit away again. A completed or
cancelled request therefore stays visible; `requestMirror_iff` says on which runs that
makes no difference.
-/

namespace Testbench.Canfd

open Testbench.Lib Testbench.Canphy

namespace RefOp

/-- What the operation writes to TRR. -/
def requestData : RefOp → BitVec 32
  | .writeReg addr data => if addr = 0x0090#32 then data else 0
  | _ => 0

/-- What the operation writes to TCR. -/
def cancelData : RefOp → BitVec 32
  | .writeReg addr data => if addr = 0x0098#32 then data else 0
  | _ => 0

end RefOp

namespace RefModel

/-! ### What the mirrors should show -/

/-- A TRR write requests buffer `i` and does not transmit it at once. -/
def requested (i : Fin 32) (m : RefModel) (op : RefOp) : Prop :=
  op.requestData.getLsbD i = true ∧ m.transmits op ≠ some i

/-- The request of buffer `i` ends: transmitted, cancelled or reset. -/
def released (i : Fin 32) (m : RefModel) (op : RefOp) : Prop :=
  m.transmits op = some i ∨ op.cancelData.getLsbD i = true ∨ op.softReset = true

/-- A TCR write asks to cancel buffer `i` and leaves it pending. -/
def cancelOpened (i : Fin 32) (m : RefModel) (op : RefOp) : Prop :=
  op.cancelData.getLsbD i = true ∧ (m.step op).pending i = true

/-- Buffer `i` is not pending any more. -/
def cancelClosed (i : Fin 32) (m : RefModel) (op : RefOp) : Prop := (m.step op).pending i = false

/-- After a run TRR shows the open requests, and TCR at most the open cancellations. -/
structure RequestMirror (start : RefModel) (ops : List RefOp) : Prop where
  trr : ∀ i : Fin 32, (run step start ops).TRR.getLsbD i = true ↔
    Since step (requested i) (released i) start ops
  tcr : ∀ i : Fin 32, (run step start ops).TCR.getLsbD i = true →
    Since step (cancelOpened i) (cancelClosed i) start ops

/-! ### What they show -/

/-- **The two registers collect what is written to them until a reset.** -/
theorem requestRegs_step (m : RefModel) (op : RefOp) :
    (m.step op).TRR = (if op.softReset then 0 else m.TRR ||| op.requestData) ∧
      (m.step op).TCR = (if op.softReset then 0 else m.TCR ||| op.cancelData) := by
  have hkeeps : op.registerSide = false → KeepsRegs m op := m.step_keepsRegs
  cases op with
  | writeReg addr data =>
    simp only [step, RefOp.softReset, RefOp.requestData, RefOp.cancelData]
    generalize hw : m.writeReg addr data = m'
    cases writeReg_effect hw with
    | reset hreset => simp [hreset, new, resetState]
    | store r data hreset =>
      simp only [hreset, Bool.false_eq_true, if_false]
      cases r <;> simp [setPlain, PlainReg.addr]
    | clearEsr data => simp [isSoftReset]
    | clearIsr data => simp [isSoftReset]
    | request data =>
      obtain ⟨_, _, _, _, _, _, heq⟩ := processTxArbitration_eq { m with TRR := m.TRR ||| data }
      rw [heq]
      simp [isSoftReset]
    | cancel data =>
      obtain ⟨_, _, _, heq, -⟩ := m.cancel_eq data
      rw [heq]
      simp [isSoftReset]
    | ignored hplain hother => simp [isSoftReset_of_ne (hplain .SRR), ne_of_notMem hother]
  | _ => simp [(hkeeps rfl).TRR, (hkeeps rfl).TCR, RefOp.softReset, RefOp.requestData,
      RefOp.cancelData]

/-- The cancel loop leaves no buffer it names pending. -/
theorem not_cancelOpened (i : Fin 32) (m : RefModel) (op : RefOp) : ¬ cancelOpened i m op := by
  rintro ⟨hnamed, hpending⟩
  cases op with
  | writeReg addr data =>
    simp only [RefOp.cancelData] at hnamed
    split at hnamed
    · next haddr =>
      subst haddr
      obtain ⟨bufs, _, _, heq, hbufs⟩ := m.cancel_eq data
      have hstep : (m.step (.writeReg 0x0098#32 data)).txBufs i = (m.txBufs i).cancelled := by
        show (run (cancelStep data) { m with TCR := m.TCR ||| data }
          (List.finRange 32)).txBufs i = _
        rw [heq]
        exact (hbufs i).trans (if_pos hnamed)
      rw [pending, hstep] at hpending
      cases hpending
    · simp at hnamed
  | _ => simp [RefOp.cancelData] at hnamed

/-! ### When they show it -/

/-- No cancellation names a buffer, and a buffer that wins the arbitration is not marked
in TRR, nor by the write that starts it. -/
structure KeepsMirror (m : RefModel) (op : RefOp) : Prop where
  trr : op.arbitrates = true → ∀ i, m.Wins i →
    m.TRR.getLsbD i = false ∧ op.requestData.getLsbD i = false
  tcr : ∀ i : Fin 32, op.cancelData.getLsbD i = false

theorem transmits_eq_some_iff (m : RefModel) (op : RefOp) (i : Fin 32) :
    m.transmits op = some i ↔ op.arbitrates = true ∧ m.Wins i := by
  rw [transmits_eq]
  split
  · next harb => rw [arbitrationIdx_eq_some_iff_wins, and_iff_right harb]
  · next harb => simp [harb]

/-- A reset writes neither register and does not run the arbiter. -/
theorem quiet_of_softReset {op : RefOp} (h : op.softReset = true) :
    op.arbitrates = false ∧ op.requestData = 0 ∧ op.cancelData = 0 := by
  cases op with
  | writeReg addr data =>
    obtain rfl : addr = 0x0000#32 := by simpa using (Bool.and_eq_true_iff.mp h).1
    exact ⟨rfl, rfl, rfl⟩
  | _ => cases h

/-- The mirrors after one more step, in terms of the state before it. -/
theorem requestMirror_append_iff {start m : RefModel} {ops : List RefOp}
    (h : RequestMirror start ops) (hm : run step start ops = m) (op : RefOp) :
    RequestMirror start (ops ++ [op]) ↔
      (∀ i : Fin 32, (m.step op).TRR.getLsbD i = true ↔
        requested i m op ∨ m.TRR.getLsbD i = true ∧ ¬ released i m op) ∧
      ∀ i : Fin 32, (m.step op).TCR.getLsbD i = false := by
  subst hm
  have hrun : run step start (ops ++ [op]) = (run step start ops).step op :=
    run_append_singleton start ops op
  have hnone : ∀ (i : Fin 32) ops, ¬ Since step (cancelOpened i) (cancelClosed i) start ops :=
    fun i => not_since (not_cancelOpened i) start
  constructor
  · rintro ⟨htrr, htcr⟩
    rw [hrun] at htrr htcr
    refine ⟨?_, ?_⟩
    · intro i
      rw [htrr, since_append_singleton, ← h.trr]
    · intro i
      exact Bool.eq_false_iff.mpr fun hbit => hnone i _ (htcr i hbit)
  · rintro ⟨htrr, htcr⟩
    refine ⟨?_, ?_⟩ <;> rw [hrun]
    · intro i
      rw [htrr, since_append_singleton, ← h.trr]
    · intro i hbit
      rw [htcr] at hbit
      cases hbit

/-- One step from a state whose mirrors are right. -/
theorem requestMirror_step {start : RefModel} {ops : List RefOp} (h : RequestMirror start ops)
    (op : RefOp) : RequestMirror start (ops ++ [op]) ↔ KeepsMirror (run step start ops) op := by
  have htcr : ∀ i : Fin 32, (run step start ops).TCR.getLsbD i = false := fun i =>
    Bool.eq_false_iff.mpr fun hbit => not_since (not_cancelOpened i) start ops (h.tcr i hbit)
  generalize hm : run step start ops = m at htcr
  rw [requestMirror_append_iff h hm]
  obtain ⟨htrr', htcr'⟩ := m.requestRegs_step op
  cases hreset : op.softReset with
  | true =>
    obtain ⟨harb, hreq, hcancel⟩ := quiet_of_softReset hreset
    rw [if_pos hreset] at htrr' htcr'
    refine iff_of_true ⟨?_, ?_⟩ ⟨?_, ?_⟩
    · intro i
      simp [htrr', requested, hreq, released, hreset]
    · simp [htcr']
    · simp [harb]
    · simp [hcancel]
  | false =>
    simp only [hreset, Bool.false_eq_true, if_false] at htrr' htcr'
    simp only [htrr', htcr', BitVec.getLsbD_or, htcr, Bool.false_or, Bool.or_eq_true]
    constructor
    · rintro ⟨htrr, hcancel⟩
      refine ⟨?_, hcancel⟩
      intro harb i hwins
      have htx := (m.transmits_eq_some_iff op i).mpr ⟨harb, hwins⟩
      simpa [requested, released, htx] using htrr i
    · rintro ⟨hwinner, hcancel⟩
      refine ⟨?_, hcancel⟩
      intro i
      by_cases htx : m.transmits op = some i
      · obtain ⟨harb, hwins⟩ := (m.transmits_eq_some_iff op i).mp htx
        obtain ⟨htrr, hreq⟩ := hwinner harb i hwins
        simp only [requested, htrr, hreq, Bool.false_eq_true, false_and, or_self]
      · simp only [requested, released, htx, hcancel, hreset, Bool.false_eq_true, or_self,
          not_false_eq_true, and_true, ne_eq]
        exact or_comm

/-- **TRR shows exactly the open requests, and TCR only open cancellations, at every
point of a run iff no cancellation names a buffer in it and no arbitration is won by a
buffer that TRR marks.** -/
theorem requestMirror_iff (bufs : Fin 32 → TxBuf) (f0 f1 : Fin 32 → Filter) (ops : List RefOp) :
    (∀ n, RequestMirror (preset bufs f0 f1) (ops.take n)) ↔
      Along step KeepsMirror (preset bufs f0 f1) ops := by
  refine history_iff (RequestMirror (preset bufs f0 f1)) ⟨?_, ?_⟩
    (fun ops op h => requestMirror_step h op) ops
  · intro i
    exact iff_of_false (by simp [preset, new, resetState]) (not_since_nil _)
  · intro i hbit
    simp [preset, new, resetState] at hbit

/-- From reset a request and its cancellation: both bits stay set. -/
theorem requestMirror_stale :
    let ops : List RefOp := [.writeReg 0x0090#32 1#32, .writeReg 0x0098#32 1#32]
    let m := run step new ops
    m.readReg 0x0090#32 = 1#32 ∧ m.readReg 0x0098#32 = 1#32 ∧ ¬ RequestMirror new ops := by
  refine ⟨by decide +kernel, by decide +kernel, ?_⟩
  rintro ⟨-, htcr⟩
  have hbit : (run step new
      [.writeReg 0x0090#32 1#32, .writeReg 0x0098#32 1#32]).TCR.getLsbD 0 = true := by
    decide +kernel
  exact not_since (not_cancelOpened 0) new _ (htcr 0 hbit)

end RefModel

end Testbench.Canfd
