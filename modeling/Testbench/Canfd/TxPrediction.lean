import Testbench.Canfd.Scoreboard
import Testbench.Testcase.CommonTaskFunction

/-!
Which buffers the DUT's frames are compared with.

`comparisons` lists, for the TX frames of a run, the buffer each was compared
with. Between AXI writes it is a drain of the pending buffers (`comparisons_eq_drain`),
so the library's `drain_spec` gives the order in which they come out
(`comparisons_in_order`). Requests written to TRR are never recorded as pending:
`predicted_iff` says which transmissions are predicted all the same.
-/

namespace Testbench.Canfd

open Testbench.Lib Testbench.Canphy Testbench.Axi4lite

namespace Scoreboard

/-- The buffer a TX frame is compared with: `some none` for a frame nothing was
expected for, `none` for an item that is not a TX frame. -/
def txView (s : Scoreboard) : ScbOp → Option (Option (Fin 32))
  | .tx tr => if tr.frameType = .errorFrame then none else some s.refModel.getExpectedTxFrameIdx
  | _ => none

/-- What the TX frames of a run were compared with, in order. -/
def comparisons (s : Scoreboard) (ops : List ScbOp) : List (Option (Fin 32)) :=
  (trace step txView s ops).reduceOption

/-- A TX frame is compared with the expected frame of the buffer that the same step
completes; without an expected frame the step changes nothing. -/
structure ComparesAndClears (s : Scoreboard) (tr : CanphyTrans) : Prop where
  compared : ∀ i, s.refModel.getExpectedTxFrameIdx = some i →
    let expTr := RefModel.expectedFrame (s.refModel.txBufs i)
    s.refModel.pending i = true ∧
      s.refModel.getExpectedTxFrame = some expTr ∧
      s.processTxFrame tr =
        { s.compareTxFrame expTr tr with
          refModel := s.refModel.completeTx i
          canphyTxCount := (s.compareTxFrame expTr tr).canphyTxCount + 1 } ∧
      (s.processTxFrame tr).refModel.txBufs =
        Function.update s.refModel.txBufs i { s.refModel.txBufs i with readyReq := false }
  noExpected : s.refModel.getExpectedTxFrameIdx = none → s.processTxFrame tr = s

theorem comparesAndClears (s : Scoreboard) {tr : CanphyTrans} (h : tr.frameType ≠ .errorFrame) :
    ComparesAndClears s tr where
  compared := by
    intro i hidx expTr
    have hexp : s.refModel.getExpectedTxFrame = some expTr := by
      rw [RefModel.getExpectedTxFrame, hidx]
      rfl
    have harb : s.refModel.processTxArbitration = s.refModel.completeTx i := by
      rw [RefModel.processTxArbitration, ← RefModel.expectedIdx_eq_arbitrationIdx, hidx]
    have hstep : s.processTxFrame tr =
        { s.compareTxFrame expTr tr with
          refModel := s.refModel.completeTx i
          canphyTxCount := (s.compareTxFrame expTr tr).canphyTxCount + 1 } := by
      rw [processTxFrame, if_neg h, hexp]
      simp only [refModel_compareTxFrame, harb]
    refine ⟨((s.refModel.arbitrationIdx_eq_some_iff i).mp hidx).1, hexp, hstep, ?_⟩
    rw [hstep]
    exact s.refModel.txBufs_completeTx i
  noExpected := by
    intro hidx
    rw [processTxFrame, if_neg h, RefModel.getExpectedTxFrame, hidx]
    rfl

/-! ### Order -/

/-- Items other than TX frames and AXI writes do not touch the TX buffers. -/
theorem txBufs_step_of_quiet (s : Scoreboard) {op : ScbOp} (hwrite : op.isWrite = false)
    (htx : op.isTxFrame = false) : (s.step op).refModel.txBufs = s.refModel.txBufs := by
  have hone : ∀ op : RefOp, op.softReset = false → op.transmitSide = false →
      (run RefModel.step s.refModel [op]).txBufs = s.refModel.txBufs :=
    fun op hreset hside => (s.refModel.step_keepsSides hreset).txBufs hside
  rw [refModel_step]
  cases op with
  | tx tr =>
    have herr : tr.frameType = .errorFrame := by simpa [ScbOp.isTxFrame] using htx
    simp [refOps, herr]
  | rx tr => exact hone (.received tr) rfl rfl
  | axi tr =>
    have hread : tr.dir = .read := by
      cases hdir : tr.dir with
      | read => rfl
      | write => simp [ScbOp.isWrite, hdir] at hwrite
    simp [refOps, hread]
  | tick => exact hone .tick rfl rfl

/-- So they leave the arbitration as it is, and are compared with nothing. -/
theorem arbitration_of_quiet (s : Scoreboard) {op : ScbOp} (hwrite : op.isWrite = false)
    (htx : op.isTxFrame = false) :
    (s.step op).refModel.txId = s.refModel.txId ∧
      (s.step op).refModel.pending = s.refModel.pending ∧ s.txView op = none := by
  have hbufs := s.txBufs_step_of_quiet hwrite htx
  refine ⟨?_, ?_, ?_⟩
  · funext i
    rw [RefModel.txId, RefModel.txId, hbufs]
  · funext i
    rw [RefModel.pending, RefModel.pending, hbufs]
  · cases op with
    | tx tr => exact if_pos (by simpa [ScbOp.isTxFrame] using htx)
    | _ => rfl

theorem exists_of_isTxFrame {op : ScbOp} (h : op.isTxFrame = true) :
    ∃ tr, op = .tx tr ∧ tr.frameType ≠ .errorFrame := by
  cases op with
  | tx tr => exact ⟨tr, rfl, by simpa [ScbOp.isTxFrame] using h⟩
  | _ => cases h

theorem comparisons_cons (s : Scoreboard) (op : ScbOp) (ops : List ScbOp) :
    s.comparisons (op :: ops) = (s.txView op).toList ++ (s.step op).comparisons ops := by
  unfold comparisons
  rw [trace]
  cases s.txView op <;> rfl

/-- **Between AXI writes the comparisons are a drain of the pending buffers.** -/
theorem comparisons_eq_drain (s : Scoreboard) (ops : List ScbOp)
    (noWrite : ∀ op ∈ ops, op.isWrite = false) :
    s.comparisons ops = drain (List.finRange 32) s.refModel.txId (0x1FFFFFFF#29).toNat
      (ops.countP ScbOp.isTxFrame) s.refModel.pending := by
  induction ops generalizing s with
  | nil => rfl
  | cons op ops ih =>
    have hop := noWrite op List.mem_cons_self
    have ih := fun s => ih s fun op' h => noWrite op' (List.mem_cons_of_mem _ h)
    rw [comparisons_cons, ih]
    cases htx : op.isTxFrame with
    | false =>
      obtain ⟨hid, hpend, hview⟩ := s.arbitration_of_quiet hop htx
      rw [hid, hpend, hview, List.countP_cons_of_neg (by simp [htx])]
      rfl
    | true =>
      obtain ⟨tr, rfl, hframe⟩ := exists_of_isTxFrame htx
      have hview : s.txView (.tx tr) = some s.refModel.getExpectedTxFrameIdx := if_neg hframe
      have hscan : scanMin (List.finRange 32) s.refModel.txId (0x1FFFFFFF#29).toNat
          s.refModel.pending = s.refModel.getExpectedTxFrameIdx :=
        s.refModel.arbitrationIdx_eq.symm
      rw [hview, List.countP_cons_of_pos htx, drain, hscan, step]
      cases hidx : s.refModel.getExpectedTxFrameIdx with
      | none =>
        rw [(comparesAndClears s hframe).noExpected hidx]
        rfl
      | some i =>
        obtain ⟨-, -, hstep, -⟩ := (comparesAndClears s hframe).compared i hidx
        rw [hstep]
        simp only [RefModel.txId_completeTx, RefModel.pending_completeTx]
        rfl

/-- **In a run without AXI writes each TX frame is compared with the buffer its own
step completes, and these buffers come out distinct and ordered by identifier and
index, at most 32 of them, followed by nothing.** -/
theorem comparisons_in_order (s : Scoreboard) (ops : List ScbOp)
    (noWrite : ∀ op ∈ ops, op.isWrite = false) :
    (∀ pre tr post, ops = pre ++ .tx tr :: post → tr.frameType ≠ .errorFrame →
        ComparesAndClears (run step s pre) tr) ∧
      ∃ (picks : List (Fin 32)) (idle : Nat),
        s.comparisons ops = picks.map some ++ List.replicate idle none ∧
        picks.Pairwise (Before s.refModel.txId) ∧ picks.Nodup ∧ picks.length ≤ 32 ∧
        ∀ i ∈ picks, s.refModel.pending i = true := by
  refine ⟨fun pre tr _ _ hframe => comparesAndClears (run step s pre) hframe, ?_⟩
  rw [comparisons_eq_drain s ops noWrite]
  obtain ⟨picks, idle, hdrain, hsorted, hpend⟩ :=
    drain_spec s.refModel.txId (0x1FFFFFFF#29).toNat RefModel.finRange_sorted List.mem_finRange
      (ops.countP ScbOp.isTxFrame) s.refModel.pending
  have hnodup : picks.Nodup := hsorted.imp fun h => h.ne
  exact ⟨picks, idle, hdrain, hsorted, hnodup, by simpa using hnodup.length_le_card, hpend⟩

/-- Two pending buffers, the later one with the smaller identifier. -/
def twoPending : Scoreboard where
  refModel := { txBufs := fun i =>
    if i.val = 3 then { valid := true, readyReq := true, id := 0x200 }
    else if i.val = 5 then { valid := true, readyReq := true, id := 0x100 }
    else {} }

/-- Three frames against two pending buffers: 5 before 3, then nothing. -/
theorem comparisons_in_order_twoPending :
    let ops : List ScbOp := [.tx {}, .tick, .tx {}, .rx {}, .tx {}]
    twoPending.comparisons ops = [some 5, some 3, none] ∧
      (∀ pre tr post, ops = pre ++ .tx tr :: post → tr.frameType ≠ .errorFrame →
        ComparesAndClears (run step twoPending pre) tr) ∧
      ∃ (picks : List (Fin 32)) (idle : Nat),
        twoPending.comparisons ops = picks.map some ++ List.replicate idle none ∧
        picks.Pairwise (Before twoPending.refModel.txId) ∧ picks.Nodup ∧ picks.length ≤ 32 ∧
        ∀ i ∈ picks, twoPending.refModel.pending i = true :=
  ⟨by decide +kernel, comparisons_in_order twoPending _ (by simp [ScbOp.isWrite])⟩

/-! ### Requests -/

/-- The buffers a register value names. -/
def namedBuffers (data : BitVec 32) : Finset (Fin 32) :=
  Finset.univ.filter fun i => data.getLsbD i = true

/-- The host's view of its outstanding requests: a TRR write adds to them, a TCR write
withdraws, a reset forgets. -/
def requestStep (requests : Finset (Fin 32)) : ScbOp → Finset (Fin 32)
  | .axi tr =>
      if tr.dir = .write then
        if isSoftReset tr.addr tr.data then ∅
        else if tr.addr = 0x0090#32 then requests ∪ namedBuffers tr.data
        else if tr.addr = 0x0098#32 then requests \ namedBuffers tr.data
        else requests
      else requests
  | _ => requests

end Scoreboard

/-- A run from reset in which the host fills and requests buffers, and then as many TX
frames arrive as requests are outstanding. -/
structure TransmitRun where
  host : List ScbOp
  traffic : List ScbOp
  hostOnly : ∀ op ∈ host, op.isTxFrame = false
  noWrite : ∀ op ∈ traffic, op.isWrite = false
  count : traffic.countP ScbOp.isTxFrame = (run Scoreboard.requestStep ∅ host).card

namespace TransmitRun

variable (r : TransmitRun)

/-- The buffers whose transmission the host waits for. -/
def requested : Finset (Fin 32) := run Scoreboard.requestStep ∅ r.host

/-- The scoreboard when the traffic starts. -/
def ready : Scoreboard := run Scoreboard.step {} r.host

/-- The TX frames are compared with the requested buffers, each with another one and
none of them unexpected. -/
def Predicted : Prop :=
  ∃ order : List (Fin 32), order.Nodup ∧ order.toFinset = r.requested ∧
    r.ready.comparisons r.traffic = order.map some

/-- No run of the scoreboard leaves a request behind. -/
theorem noRequest_ready : r.ready.refModel.NoRequest := by
  rw [ready, Scoreboard.refModel_run]
  exact run_invariant RefModel.noRequest_step (fun _ => rfl) _

/-- Every TX frame of the traffic is unexpected. -/
theorem comparisons_traffic :
    r.ready.comparisons r.traffic = List.replicate r.requested.card none := by
  have hnone := r.noRequest_ready.arbitrationIdx
  rw [RefModel.arbitrationIdx_eq] at hnone
  rw [Scoreboard.comparisons_eq_drain _ _ r.noWrite, drain_of_none hnone, r.count]
  rfl

/-- **A transmit run is predicted iff nothing was requested in it.** -/
theorem predicted_iff : r.Predicted ↔ r.requested = ∅ := by
  unfold Predicted
  rw [comparisons_traffic]
  constructor
  · rintro ⟨order, -, hset, hcmp⟩
    cases order with
    | nil => exact hset.symm
    | cons i order =>
      -- a replicated `none` has no `some` at its head
      cases hcard : r.requested.card with
      | zero => exact Finset.card_eq_zero.mp hcard
      | succ n =>
        rw [hcard, List.replicate_succ] at hcmp
        cases hcmp
  · intro hempty
    exact ⟨[], List.nodup_nil, hempty.symm, by rw [hempty]; rfl⟩

end TransmitRun

/-- `canfd_tx_msg`, its items drawn as asked for, fills and requests buffer 0, then the DUT
sends the frame. -/
def oneRequest : TransmitRun where
  host := (Axi4lite.asked (fun _ => .okay) (Testcase.canfdTxMsg 0
    { id := 0x123, ide := false, fdf := true, brs := false, dlc := 0, data := [] })).map .axi
  traffic := [.tx { frameType := .canfdStd, canId := 0x123, fdf := true }]
  hostOnly := by decide
  noWrite := by decide
  count := by decide

/-- The frame meets no expectation. -/
theorem oneRequest_not_predicted : ¬ oneRequest.Predicted := by
  rintro ⟨order, -, -, hcmp⟩
  have hnone : oneRequest.ready.comparisons oneRequest.traffic = [none] := by decide +kernel
  rw [hnone] at hcmp
  cases order <;> cases hcmp

end Testbench.Canfd
