import Testbench.Canfd.Reception
import Testbench.Canfd.Registers
import Testbench.Canfd.Scoreboard

/-!
The scoreboard's threads share one reference model without an order between them.

A reception is an update computed from the receive side and then assigned. The other
side of each exchange keeps the receive side (`rxUpdate_*`), so the update is the same
in either order, and commutes with the assignment (`*_applyRx`), since all the two
share is ISR and each of them only raises bits there.
-/

namespace Testbench.Canfd

open Testbench.Lib Testbench.Canphy Testbench.Axi4lite

namespace RefModel

/-! ### The update is the same -/

theorem rxUpdate_processTxArbitration (m : RefModel) (tr : CanphyTrans) :
    m.processTxArbitration.rxUpdate tr = m.rxUpdate tr := by
  obtain ⟨_, _, _, _, _, _, heq⟩ := m.processTxArbitration_eq
  rw [heq]
  rfl

theorem rxUpdate_writeTxBuf (m : RefModel) (tr : CanphyTrans) (bufIdx : Int)
    (offset data : BitVec 32) : (m.writeTxBuf bufIdx offset data).rxUpdate tr = m.rxUpdate tr := by
  obtain ⟨_, heq⟩ := m.writeTxBuf_eq bufIdx offset data
  rw [heq]
  rfl

theorem rxUpdate_writeReg (m : RefModel) (tr : CanphyTrans) {addr data : BitVec 32}
    (hreset : isSoftReset addr data = false) :
    (m.writeReg addr data).rxUpdate tr = m.rxUpdate tr := by
  generalize hw : m.writeReg addr data = m'
  cases writeReg_effect hw with
  | reset hreset' =>
    rw [hreset'] at hreset
    cases hreset
  | store r data => cases r <;> rfl
  | clearEsr data => rfl
  | clearIsr data => rfl
  | request data => exact rxUpdate_processTxArbitration { m with TRR := m.TRR ||| data } tr
  | cancel data =>
    obtain ⟨_, _, _, heq, -⟩ := m.cancel_eq data
    rw [heq]
    rfl
  | ignored => rfl

/-! ### The assignment commutes -/

/-- Both raise bits of ISR. -/
theorem completeTx_applyRx (m : RefModel) (u : RxUpdate) (i : Fin 32) :
    (m.applyRx u).completeTx i = (m.completeTx i).applyRx u := by
  have hisr : setBit (m.ISR ||| u.flags) 2 true = setBit m.ISR 2 true ||| u.flags := by
    simp only [setBit, if_true, BitVec.or_assoc, BitVec.or_comm u.flags]
  by_cases hroom : m.txEventFifo.length < txEventDepth <;> by_cases htec : 0 < m.TEC <;>
    simp only [completeTx, applyRx, hroom, htec, hisr, if_true, if_false]

theorem processTxArbitration_applyRx (m : RefModel) (u : RxUpdate) :
    (m.applyRx u).processTxArbitration = m.processTxArbitration.applyRx u := by
  have hidx : (m.applyRx u).processTxArbitrationIdx = m.processTxArbitrationIdx := rfl
  unfold processTxArbitration
  rw [hidx]
  cases m.processTxArbitrationIdx with
  | none => rfl
  | some i => exact completeTx_applyRx m u i

theorem cancelStep_applyRx (data : BitVec 32) (u : RxUpdate) (m : RefModel) (i : Fin 32) :
    cancelStep data (m.applyRx u) i = (cancelStep data m i).applyRx u := by
  unfold cancelStep
  cases data.getLsbD i with
  | false => rfl
  | true =>
    by_cases hpos : 0 < m.txEventFifo.length <;> simp only [applyRx, hpos, if_true, if_false]

theorem writeTxBuf_applyRx (m : RefModel) (u : RxUpdate) (bufIdx : Int) (offset data : BitVec 32) :
    (m.applyRx u).writeTxBuf bufIdx offset data = (m.writeTxBuf bufIdx offset data).applyRx u := by
  unfold writeTxBuf
  split <;> rfl

/-- A write of ICR does not commute: it may clear the bit the reception raises. -/
theorem writeReg_applyRx (m : RefModel) (u : RxUpdate) {addr data : BitVec 32}
    (hreset : isSoftReset addr data = false) (hicr : addr ≠ 0x0024#32) :
    (m.applyRx u).writeReg addr data = (m.writeReg addr data).applyRx u := by
  generalize hw : m.writeReg addr data = m'
  cases writeReg_effect hw with
  | reset hreset' =>
    rw [hreset'] at hreset
    cases hreset
  | store r data =>
    rw [writeReg_plain _ r hreset]
    cases r <;> rfl
  | clearEsr data => rfl
  | clearIsr data => exact absurd rfl hicr
  | request data => exact processTxArbitration_applyRx { m with TRR := m.TRR ||| data } u
  | cancel data =>
    show run (cancelStep data) (applyRx { m with TCR := m.TCR ||| data } u) (List.finRange 32) = _
    exact List.foldl_hom (applyRx · u) fun m i => cancelStep_applyRx data u m i
  | ignored hplain hother => rw [writeReg_ignored _ data hplain hother]

/-! ### Both together -/

/-- **A reception commutes with an AXI write of the model**, unless the write resets it or
clears interrupts. -/
theorem onCanFrameReceived_writeRefModel (m : RefModel) (rx : CanphyTrans) {addr data : BitVec 32}
    (hreset : isSoftReset addr data = false) (hicr : addr ≠ 0x0024#32) :
    Scoreboard.writeRefModel (m.onCanFrameReceived rx) addr data =
      (Scoreboard.writeRefModel m addr data).onCanFrameReceived rx := by
  unfold Scoreboard.writeRefModel
  simp only [onCanFrameReceived_eq_applyRx, writeReg_applyRx m _ hreset hicr]
  split
  · rw [writeTxBuf_applyRx, rxUpdate_writeTxBuf, rxUpdate_writeReg m rx hreset]
  · rw [rxUpdate_writeReg m rx hreset]

theorem onCanFrameReceived_processTxArbitration (m : RefModel) (rx : CanphyTrans) :
    (m.onCanFrameReceived rx).processTxArbitration =
      m.processTxArbitration.onCanFrameReceived rx := by
  simp only [onCanFrameReceived_eq_applyRx, processTxArbitration_applyRx,
    rxUpdate_processTxArbitration]

end RefModel

namespace Scoreboard

/-- The check at the end of an AXI transaction only counts failures. -/
theorem checkResp_eq (tr : Axi4liteTrans) :
    ∃ n, ∀ s : Scoreboard, s.checkResp tr = { s with failCount := s.failCount + n } := by
  have hcount : ∀ (c : Prop) [Decidable c] (s : Scoreboard),
      (if c then { s with failCount := s.failCount + 1 } else s) =
        { s with failCount := s.failCount + if c then 1 else 0 } := by
    intro c _ s
    split
    · rfl
    · rw [BitVec.ofNat_eq_ofNat, BitVec.add_zero]
  exact ⟨_, fun s => by rw [checkResp, hcount, hcount, BitVec.add_assoc]⟩

/-- An AXI write counts, writes the model and checks its response code. -/
theorem processAxi4liteTr_write {tr : Axi4liteTrans} (hdir : tr.dir = .write) :
    ∃ n, ∀ s : Scoreboard, s.processAxi4liteTr tr =
      { s with
        axi4liteWrCount := s.axi4liteWrCount + 1
        refModel := writeRefModel s.refModel tr.addr tr.data
        failCount := s.failCount + n } := by
  obtain ⟨n, heq⟩ := checkResp_eq tr
  exact ⟨n, fun s => by simp only [processAxi4liteTr, hdir, heq]⟩

/-- The order of a received frame and an AXI write does not matter, unless the write resets
the model or clears interrupts. -/
theorem processRxFrame_processAxi4liteTr (s : Scoreboard) (rx : CanphyTrans) {tr : Axi4liteTrans}
    (hdir : tr.dir = .write) (hreset : isSoftReset tr.addr tr.data = false)
    (hicr : tr.addr ≠ 0x0024#32) :
    (s.processRxFrame rx).processAxi4liteTr tr = (s.processAxi4liteTr tr).processRxFrame rx := by
  obtain ⟨n, haxi⟩ := processAxi4liteTr_write hdir
  have hmodel := s.refModel.onCanFrameReceived_writeRefModel rx hreset hicr
  by_cases hflag : rx.frameType = .errorFrame ∨ rx.frameType = .overloadFrame <;>
    simp only [haxi, processRxFrame, hflag, if_true, if_false, hmodel]

/-- Nor does the order of a received and a transmitted frame. -/
theorem processRxFrame_processTxFrame (s : Scoreboard) (rx tx : CanphyTrans) :
    (s.processRxFrame rx).processTxFrame tx = (s.processTxFrame tx).processRxFrame rx := by
  have hmodel := s.refModel.onCanFrameReceived_processTxArbitration rx
  have hexp : (s.refModel.onCanFrameReceived rx).getExpectedTxFrame =
      s.refModel.getExpectedTxFrame := by
    obtain ⟨_, _, _, _, _, heq⟩ := s.refModel.onCanFrameReceived_eq rx
    rw [heq]
    rfl
  by_cases hflag : rx.frameType = .errorFrame ∨ rx.frameType = .overloadFrame
  · simp only [processRxFrame, hflag, if_true]
  · by_cases herror : tx.frameType = .errorFrame
    · simp only [processTxFrame, herror, if_true]
    · simp only [processRxFrame, processTxFrame, hflag, herror, if_false, hexp]
      cases s.refModel.getExpectedTxFrame with
      | none => rfl
      | some expTr =>
        simp only [compareTxFrame]
        by_cases hmatch : txFrameMatches expTr tx = true <;>
          simp only [hmatch, Bool.false_eq_true, if_true, if_false, hmodel]

/-- **Received frames commute with AXI writes and with transmitted frames**, in the whole
state of the scoreboard. -/
theorem rx_commutes (s : Scoreboard) (rx tx : CanphyTrans) {axi : Axi4liteTrans}
    (hdir : axi.dir = .write) (hreset : isSoftReset axi.addr axi.data = false)
    (hicr : axi.addr ≠ 0x0024#32) :
    (s.processRxFrame rx).processAxi4liteTr axi = (s.processAxi4liteTr axi).processRxFrame rx ∧
      (s.processRxFrame rx).processTxFrame tx = (s.processTxFrame tx).processRxFrame rx :=
  ⟨s.processRxFrame_processAxi4liteTr rx hdir hreset hicr, s.processRxFrame_processTxFrame rx tx⟩

/-- A data frame and a TRR write. -/
theorem rx_commutes_trr :
    let s : Scoreboard := {}
    let rx : CanphyTrans := { canId := 0x100, dlc := 1, data := [some 0x5A] }
    let axi : Axi4liteTrans := { dir := .write, addr := 0x0090#32, data := 1#32, resp := .okay }
    (s.processRxFrame rx).processAxi4liteTr axi = (s.processAxi4liteTr axi).processRxFrame rx ∧
      (s.processRxFrame rx).processTxFrame rx = (s.processTxFrame rx).processRxFrame rx :=
  rx_commutes _ _ _ rfl rfl (by decide)

end Scoreboard

end Testbench.Canfd
