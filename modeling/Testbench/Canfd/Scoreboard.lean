import Testbench.Axi4lite.Trans
import Testbench.Canfd.Arbitration

/-!
The scoreboard `canfd_scoreboard` (`canfd/env/canfd_scoreboard.sv`).

Four threads feed it: frames the DUT sends, frames injected on the bus, AXI
transactions and clock ticks. Each runs one function per item, so a run of the
scoreboard is a list of `ScbOp`s in any interleaving. `refModel_run` says that
such a run drives the reference model through the operations `refOps` lists.
-/

namespace Testbench.Canfd

open Testbench.Lib Testbench.Canphy Testbench.Axi4lite

/-- The scoreboard's reference model and its counters, each of them an `int`. -/
structure Scoreboard where
  refModel : RefModel := RefModel.new
  canphyTxCount : BitVec 32 := 0
  canphyRxCount : BitVec 32 := 0
  axi4liteWrCount : BitVec 32 := 0
  axi4liteRdCount : BitVec 32 := 0
  passCount : BitVec 32 := 0
  failCount : BitVec 32 := 0
  mismatchCount : BitVec 32 := 0

namespace Scoreboard

/-- The verdict of `compare_tx_frame`: payloads are compared when one is expected. -/
def txFrameMatches (exp act : CanphyTrans) : Bool :=
  decide (exp.frameType = act.frameType) && decide (exp.canId = act.canId) &&
    decide (exp.dlc = act.dlc) && decide (exp.fdf = act.fdf) && decide (exp.brs = act.brs) &&
    (if !exp.rtr && decide (0 < exp.data.length) then decide (exp.data = act.data) else true)

/-- `compare_tx_frame`. -/
def compareTxFrame (s : Scoreboard) (exp act : CanphyTrans) : Scoreboard :=
  if txFrameMatches exp act then { s with passCount := s.passCount + 1 }
  else { s with failCount := s.failCount + 1, mismatchCount := s.mismatchCount + 1 }

/-- `process_tx_frame`. -/
def processTxFrame (s : Scoreboard) (tr : CanphyTrans) : Scoreboard :=
  if tr.frameType = .errorFrame then s
  else
    match s.refModel.getExpectedTxFrame with
    | some expTr =>
        let s := s.compareTxFrame expTr tr
        { s with
          refModel := s.refModel.processTxArbitration
          canphyTxCount := s.canphyTxCount + 1 }
    | none => s

/-- `process_rx_frame`. -/
def processRxFrame (s : Scoreboard) (tr : CanphyTrans) : Scoreboard :=
  if tr.frameType = .errorFrame ∨ tr.frameType = .overloadFrame then s
  else
    { s with
      refModel := s.refModel.onCanFrameReceived tr
      canphyRxCount := s.canphyRxCount + 1 }

/-- The model update for a write: the register decoder, then the TX buffer the
address falls into. -/
def writeRefModel (m : RefModel) (addr data : BitVec 32) : RefModel :=
  let m := m.writeReg addr data
  if 0x0100#32 ≤ addr ∧ addr ≤ 0x1FFF#32 then
    let bufIdx : Int := ((addr - 0x0100#32) / 16#32).toInt
    let offset := (addr - 0x0100#32) % 16#32
    m.writeTxBuf bufIdx offset data
  else m

/-- The response code check that ends `process_axi4lite_tr`. -/
def checkResp (s : Scoreboard) (tr : Axi4liteTrans) : Scoreboard :=
  let s : Scoreboard := if 0x8000#32 ≤ tr.addr ∧ tr.resp ≠ .decerr then
    { s with failCount := s.failCount + 1 } else s
  if tr.addr < 0x8000#32 ∧ tr.resp ≠ .okay then { s with failCount := s.failCount + 1 } else s

/-- `process_axi4lite_tr`. -/
def processAxi4liteTr (s : Scoreboard) (tr : Axi4liteTrans) : Scoreboard :=
  let s : Scoreboard := match tr.dir with
    | .write =>
        { s with
          axi4liteWrCount := s.axi4liteWrCount + 1
          refModel := writeRefModel s.refModel tr.addr tr.data }
    | .read =>
        let s : Scoreboard := { s with axi4liteRdCount := s.axi4liteRdCount + 1 }
        let expData := s.refModel.readReg tr.addr
        if tr.addr ≤ 0x00FF#32 then
          if tr.data ≠ expData then { s with failCount := s.failCount + 1 }
          else { s with passCount := s.passCount + 1 }
        else s
  s.checkResp tr

end Scoreboard

/-- One item taken from one of the scoreboard's threads. -/
inductive ScbOp where
  | tx (tr : CanphyTrans)
  | rx (tr : CanphyTrans)
  | axi (tr : Axi4liteTrans)
  | tick

namespace ScbOp

/-- An AXI write. -/
def isWrite : ScbOp → Bool
  | .axi tr => tr.dir = .write
  | _ => false

/-- A TX frame other than an error frame. -/
def isTxFrame : ScbOp → Bool
  | .tx tr => tr.frameType ≠ .errorFrame
  | _ => false

/-- A software reset written through AXI. -/
def softReset : ScbOp → Bool
  | .axi tr => tr.dir = .write && isSoftReset tr.addr tr.data
  | _ => false

end ScbOp

namespace Scoreboard

/-- The state after one item. -/
def step (s : Scoreboard) : ScbOp → Scoreboard
  | .tx tr => s.processTxFrame tr
  | .rx tr => s.processRxFrame tr
  | .axi tr => s.processAxi4liteTr tr
  | .tick => { s with refModel := s.refModel.tick }

/-! ### What a step does to the reference model -/

@[simp] theorem refModel_compareTxFrame (s : Scoreboard) (exp act : CanphyTrans) :
    (s.compareTxFrame exp act).refModel = s.refModel := by
  unfold compareTxFrame
  split <;> rfl

@[simp] theorem refModel_checkResp (s : Scoreboard) (tr : Axi4liteTrans) :
    (s.checkResp tr).refModel = s.refModel := by
  have hfail : ∀ (c : Prop) [Decidable c] (s : Scoreboard),
      (if c then { s with failCount := s.failCount + 1 } else s).refModel = s.refModel := by
    intro c _ s
    split <;> rfl
  exact (hfail _ _).trans (hfail _ _)

/-- The model calls an AXI write makes. -/
def writeOps (addr data : BitVec 32) : List RefOp :=
  .writeReg addr data ::
    (if 0x0100#32 ≤ addr ∧ addr ≤ 0x1FFF#32 then
      [.writeTxBuf ((addr - 0x0100#32) / 16#32).toInt ((addr - 0x0100#32) % 16#32) data]
    else [])

/-- The model operations an item stands for. -/
def refOps : ScbOp → List RefOp
  | .tx tr => if tr.frameType = .errorFrame then [] else [.txArbitration]
  | .rx tr => [.received tr]
  | .axi tr => match tr.dir with
    | .write => writeOps tr.addr tr.data
    | .read => []
  | .tick => [.tick]

theorem writeRefModel_eq (m : RefModel) (addr data : BitVec 32) :
    writeRefModel m addr data = run RefModel.step m (writeOps addr data) := by
  unfold writeRefModel writeOps
  split <;> rfl

theorem refModel_processAxi4liteTr (s : Scoreboard) (tr : Axi4liteTrans) :
    (s.processAxi4liteTr tr).refModel = match tr.dir with
      | .write => writeRefModel s.refModel tr.addr tr.data
      | .read => s.refModel := by
  simp only [processAxi4liteTr, refModel_checkResp]
  cases tr.dir with
  | write => rfl
  | read =>
    simp only []
    split
    · split <;> rfl
    · rfl

/-- Without an expected frame the arbiter selects nothing either, so a TX frame
always amounts to one arbitration. -/
theorem refModel_processTxFrame (s : Scoreboard) (tr : CanphyTrans) :
    (s.processTxFrame tr).refModel =
      if tr.frameType = .errorFrame then s.refModel else s.refModel.processTxArbitration := by
  unfold processTxFrame
  split
  · rfl
  · unfold RefModel.getExpectedTxFrame RefModel.processTxArbitration
    rw [RefModel.expectedIdx_eq_arbitrationIdx]
    cases hidx : s.refModel.processTxArbitrationIdx with
    | none => rfl
    | some i => simp [hidx]

/-- **One item drives the reference model through its operations.** -/
theorem refModel_step (s : Scoreboard) (op : ScbOp) :
    (s.step op).refModel = run RefModel.step s.refModel (refOps op) := by
  cases op with
  | tx tr =>
    simp only [step, refModel_processTxFrame, refOps]
    split <;> rfl
  | rx tr =>
    simp only [step, processRxFrame, refOps, run_cons, run_nil, RefModel.step]
    split
    · next hflag => rw [RefModel.onCanFrameReceived, if_pos hflag]
    · rfl
  | axi tr =>
    simp only [step, refModel_processAxi4liteTr, refOps]
    cases tr.dir with
    | write => exact writeRefModel_eq _ _ _
    | read => rfl
  | tick => rfl

/-- **A run of the scoreboard is a run of the reference model.** -/
theorem refModel_run (s : Scoreboard) (ops : List ScbOp) :
    (run step s ops).refModel = run RefModel.step s.refModel (ops.flatMap refOps) :=
  run_map refModel_step s ops

end Scoreboard

end Testbench.Canfd
