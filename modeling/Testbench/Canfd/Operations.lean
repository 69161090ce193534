import Testbench.Lib.Run
import Testbench.Canfd.RefModel

/-!
The operations of the reference model and what each of them changes.

`RefOp` lists the methods that change the state; `step` runs one. A register
write does one of four things (`writeReg_cases`): a software reset, a transmit
request, a cancellation, or an assignment that touches none of the buffers,
FIFOs, counters and filters. The lemmas named after a method with `_eq` say which
members it assigns. `step_keepsSides` collects what follows: an operation of one
side of the model leaves the other sides alone, so an invariant about one side
only looks at the operations of that side.
-/

namespace Testbench.Canfd

open Testbench.Lib Testbench.Canphy

/-- One call that changes the state of the reference model. -/
inductive RefOp where
  | writeReg (addr data : BitVec 32)
  | writeTxBuf (bufIdx : Int) (offset data : BitVec 32)
  | txArbitration
  | received (tr : CanphyTrans)
  | errorDetected (errType : CanErrorType) (isFd isTx : Bool)
  | tick
  | readRxFifo (fifoId : Int)

namespace RefModel

/-- The state after one call. -/
def step (m : RefModel) : RefOp → RefModel
  | .writeReg addr data => m.writeReg addr data
  | .writeTxBuf bufIdx offset data => m.writeTxBuf bufIdx offset data
  | .txArbitration => m.processTxArbitration
  | .received tr => m.onCanFrameReceived tr
  | .errorDetected errType isFd isTx => m.onErrorDetected errType isFd isTx
  | .tick => m.tick
  | .readRxFifo fifoId => (m.readRxFifo fifoId).2

/-- A model just reset, with TX buffers and filters set up in some way. -/
def preset (bufs : Fin 32 → TxBuf) (filters0 filters1 : Fin 32 → Filter) : RefModel :=
  { new with txBufs := bufs, filters0 := filters0, filters1 := filters1 }

end RefModel

/-- A write of SRR with its reset bit set. -/
def isSoftReset (addr data : BitVec 32) : Bool := addr = 0x0000#32 && data.getLsbD 0

/-- The operations that reset the model. -/
def RefOp.softReset : RefOp → Bool
  | .writeReg addr data => isSoftReset addr data
  | _ => false

/-- A buffer after its cancellation. -/
def TxBuf.cancelled (b : TxBuf) : TxBuf := { b with readyReq := false, valid := false }

namespace RefModel

/-! ### Register writes -/

/-- What a plain register assignment leaves alone. -/
structure SameCore (m m' : RefModel) : Prop where
  txBufs : m'.txBufs = m.txBufs
  rxFifo0 : m'.rxFifo0 = m.rxFifo0
  rxFifo1 : m'.rxFifo1 = m.rxFifo1
  FSR : m'.FSR = m.FSR
  TEC : m'.TEC = m.TEC
  REC : m'.REC = m.REC
  filters0 : m'.filters0 = m.filters0
  filters1 : m'.filters1 = m.filters1
  tsr : m'.tsr = m.tsr

/-- **A register write resets the model, requests a transmission, cancels, or
assigns one register mirror.** -/
theorem writeReg_cases (m : RefModel) (addr data : BitVec 32) :
    (isSoftReset addr data = true ∧ m.writeReg addr data = new) ∨
    isSoftReset addr data = false ∧
      (addr = 0x0090#32 ∧
          m.writeReg addr data = processTxArbitration { m with TRR := m.TRR ||| data } ∨
        addr = 0x0098#32 ∧
          m.writeReg addr data = run (cancelStep data) { m with TCR := m.TCR ||| data }
            (List.finRange 32) ∨
        addr ≠ 0x0090#32 ∧ addr ≠ 0x0098#32 ∧ SameCore m (m.writeReg addr data)) := by
  unfold isSoftReset
  generalize hw : m.writeReg addr data = m'
  unfold writeReg at hw
  split at hw <;> subst hw
  case h_1 =>
    cases hbit : data.getLsbD 0 with
    | true => exact Or.inl ⟨by simp, by simp; rfl⟩
    | false =>
      refine Or.inr ⟨by simp, Or.inr (Or.inr ⟨by decide, by decide, ?_⟩)⟩
      simp only [Bool.false_eq_true, if_false]
      constructor <;> rfl
  case h_11 => exact Or.inr ⟨by simp, Or.inl ⟨rfl, rfl⟩⟩
  case h_12 => exact Or.inr ⟨by simp, Or.inr (Or.inl ⟨rfl, rfl⟩)⟩
  case h_19 =>
    refine Or.inr ⟨by simp_all, Or.inr (Or.inr ⟨by assumption, by assumption, ?_⟩)⟩
    constructor <;> rfl
  all_goals
    refine Or.inr ⟨by simp, Or.inr (Or.inr ⟨by decide, by decide, ?_⟩)⟩
    constructor <;> rfl

/-! ### What each operation assigns -/

theorem writeTxBuf_eq (m : RefModel) (bufIdx : Int) (offset data : BitVec 32) :
    ∃ bufs, m.writeTxBuf bufIdx offset data = { m with txBufs := bufs } := by
  unfold writeTxBuf
  split
  · exact ⟨_, rfl⟩
  · exact ⟨m.txBufs, rfl⟩

/-- The write reaches one buffer, or none when the index is out of range. -/
theorem txBufs_writeTxBuf (m : RefModel) (bufIdx : Int) (offset data : BitVec 32) (i : Fin 32) :
    (m.writeTxBuf bufIdx offset data).txBufs i =
      if (i : Int) = bufIdx then (m.txBufs i).write offset data else m.txBufs i := by
  unfold writeTxBuf
  by_cases hrange : 0 ≤ bufIdx ∧ bufIdx < 32
  · rw [dif_pos hrange]
    show Function.update m.txBufs _ _ i = _
    rw [Function.update_apply]
    have hiff : i = (⟨bufIdx.toNat, by omega⟩ : Fin 32) ↔ (i : Int) = bufIdx := by
      rw [Fin.ext_iff]
      show (i : Nat) = bufIdx.toNat ↔ _
      omega
    by_cases hi : (i : Int) = bufIdx
    · rw [if_pos (hiff.mpr hi), if_pos hi, hiff.mpr hi]
    · rw [if_neg (mt hiff.mp hi), if_neg hi]
  · rw [dif_neg hrange, if_neg]
    have := i.isLt
    omega

theorem completeTx_eq (m : RefModel) (i : Fin 32) :
    ∃ events fsr, m.completeTx i =
      { m with
        txBufs := Function.update m.txBufs i { m.txBufs i with readyReq := false }
        txCount := m.txCount + 1
        ISR := setBit m.ISR 2 true
        txEventFifo := events
        TXE_FSR := fsr
        TEC := if 0 < m.TEC then m.TEC - 1 else m.TEC } := by
  by_cases hroom : m.txEventFifo.length < txEventDepth <;> by_cases htec : 0 < m.TEC <;>
    exact ⟨_, _, by simp only [completeTx, hroom, htec, if_true, if_false]; rfl⟩

theorem cancelStep_eq (data : BitVec 32) (m : RefModel) (j : Fin 32) :
    ∃ events fsr, cancelStep data m j =
      { m with
        txBufs := if data.getLsbD j then Function.update m.txBufs j (m.txBufs j).cancelled
          else m.txBufs
        txEventFifo := events
        TXE_FSR := fsr } := by
  unfold cancelStep
  cases data.getLsbD j with
  | false => exact ⟨_, _, rfl⟩
  | true =>
    by_cases hpos : 0 < m.txEventFifo.length <;>
      exact ⟨_, _, by simp only [hpos, if_true, if_false]; rfl⟩

/-- Cancelling changes the buffers named by `data` and the event FIFO. -/
theorem run_cancelStep_eq (data : BitVec 32) (m : RefModel) (l : List (Fin 32)) :
    ∃ bufs events fsr, run (cancelStep data) m l =
        { m with txBufs := bufs, txEventFifo := events, TXE_FSR := fsr } ∧
      ∀ i, bufs i =
        if i ∈ l ∧ data.getLsbD i = true then (m.txBufs i).cancelled else m.txBufs i := by
  induction l generalizing m with
  | nil => exact ⟨m.txBufs, m.txEventFifo, m.TXE_FSR, rfl, by simp⟩
  | cons j l ih =>
    obtain ⟨events, fsr, hone⟩ := cancelStep_eq data m j
    obtain ⟨bufs, events', fsr', hrest, hbufs⟩ := ih (cancelStep data m j)
    refine ⟨bufs, events', fsr', by rw [run_cons, hrest, hone], fun i => ?_⟩
    rw [hbufs, hone]
    by_cases hij : i = j
    · subst hij
      cases hbit : data.getLsbD i <;> simp [TxBuf.cancelled]
    · cases hbit : data.getLsbD j <;> simp [hij]

/-- A cancellation records what is written and releases the buffers it names. -/
theorem cancel_eq (m : RefModel) (data : BitVec 32) :
    ∃ bufs events fsr,
      run (cancelStep data) { m with TCR := m.TCR ||| data } (List.finRange 32) =
        { m with
          TCR := m.TCR ||| data, txBufs := bufs, txEventFifo := events, TXE_FSR := fsr } ∧
      ∀ i : Fin 32, bufs i =
        if data.getLsbD i = true then (m.txBufs i).cancelled else m.txBufs i := by
  obtain ⟨bufs, events, fsr, heq, hbufs⟩ :=
    run_cancelStep_eq data { m with TCR := m.TCR ||| data } (List.finRange 32)
  refine ⟨bufs, events, fsr, heq, ?_⟩
  intro i
  exact (hbufs i).trans (if_congr (and_iff_right (List.mem_finRange i)) rfl rfl)

theorem onCanFrameReceived_eq (m : RefModel) (tr : CanphyTrans) :
    ∃ fifo0 fifo1 count fsr isr, m.onCanFrameReceived tr =
      { m with rxFifo0 := fifo0, rxFifo1 := fifo1, rxCount := count, FSR := fsr, ISR := isr } := by
  have h0 : ∀ b, ∃ fifo0 count fsr isr, m.receiveFifo0 tr b =
      { m with rxFifo0 := fifo0, rxCount := count, FSR := fsr, ISR := isr } := by
    intro b
    unfold receiveFifo0
    split
    · exact ⟨_, _, _, _, rfl⟩
    · split
      · exact ⟨_, _, _, _, rfl⟩
      · exact ⟨_, _, _, _, rfl⟩
  have h1 : ∀ (m : RefModel) b, ∃ fifo1 fsr isr, m.receiveFifo1 tr b =
      { m with rxFifo1 := fifo1, FSR := fsr, ISR := isr } := by
    intro m b
    unfold receiveFifo1
    split
    · exact ⟨_, _, _, rfl⟩
    · split
      · exact ⟨_, _, _, rfl⟩
      · exact ⟨_, _, _, rfl⟩
  unfold onCanFrameReceived
  split
  · exact ⟨_, _, _, _, _, rfl⟩
  · obtain ⟨fifo0, count, fsr, isr, heq0⟩ := h0 (checkFilter tr m.filters0)
    obtain ⟨fifo1, fsr', isr', heq1⟩ :=
      h1 (m.receiveFifo0 tr (checkFilter tr m.filters0)) (checkFilter tr m.filters1)
    exact ⟨fifo0, fifo1, count, fsr', isr', by rw [heq1, heq0]⟩

theorem readRxFifo_eq (m : RefModel) (fifoId : Int) :
    ∃ fifo0 fifo1 fsr, (m.readRxFifo fifoId).2 =
      { m with rxFifo0 := fifo0, rxFifo1 := fifo1, FSR := fsr } := by
  unfold readRxFifo
  split
  · exact ⟨_, _, _, rfl⟩
  · split
    · exact ⟨_, _, _, rfl⟩
    · exact ⟨_, _, _, rfl⟩

/-- A counter clamped to its limit. -/
def saturate (limit x : BitVec 9) : BitVec 9 := if limit < x then limit else x

theorem errorStateTransition_eq (m : RefModel) :
    ∃ sr, m.errorStateTransition =
      { m with
        SR := sr
        ISR := if EWARN_LIMIT ≤ m.TEC ∨ EWARN_LIMIT ≤ m.REC then setBit m.ISR 0 true
          else m.ISR } := by
  unfold errorStateTransition
  by_cases hwarn : EWARN_LIMIT ≤ m.TEC ∨ EWARN_LIMIT ≤ m.REC <;>
    by_cases hpas : EPAS_LIMIT ≤ m.TEC ∨ EPAS_LIMIT ≤ m.REC <;>
    by_cases hoff : BUSOFF_LIMIT ≤ m.TEC <;>
    exact ⟨_, by simp only [hwarn, hpas, hoff, if_true, if_false]; rfl⟩

theorem saturateCounters_eq (m : RefModel) :
    m.saturateCounters =
      { m with TEC := saturate BUSOFF_LIMIT m.TEC, REC := saturate EPAS_LIMIT m.REC } := by
  unfold saturateCounters saturate
  by_cases htec : BUSOFF_LIMIT < m.TEC <;> by_cases hrec : EPAS_LIMIT < m.REC <;>
    simp only [htec, hrec, if_true, if_false]

/-- The warning interrupt looks at the sums, the counters keep them clamped. -/
theorem onErrorDetected_eq (m : RefModel) (errType : CanErrorType) (isFd isTx : Bool) :
    ∃ esr sr isr, m.onErrorDetected errType isFd isTx =
        { m with
          ESR := esr, SR := sr, ISR := isr
          TEC := saturate BUSOFF_LIMIT (if isTx then m.TEC + 8 else m.TEC)
          REC := saturate EPAS_LIMIT (if isTx then m.REC else m.REC + 8) } ∧
      isr = if EWARN_LIMIT ≤ (if isTx then m.TEC + 8 else m.TEC) ∨
          EWARN_LIMIT ≤ (if isTx then m.REC else m.REC + 8)
        then setBit m.ISR 0 true else m.ISR := by
  unfold onErrorDetected
  cases esrBit errType isFd <;> cases isTx <;>
    simp only [Bool.false_eq_true, if_true, if_false, saturateCounters_eq]
  all_goals
    obtain ⟨sr, htrans⟩ := errorStateTransition_eq _
    rw [htrans]
    exact ⟨_, sr, _, rfl, rfl⟩

theorem processTxArbitration_eq (m : RefModel) :
    ∃ bufs count isr events fsr tec, m.processTxArbitration =
      { m with
        txBufs := bufs, txCount := count, ISR := isr
        txEventFifo := events, TXE_FSR := fsr, TEC := tec } := by
  unfold processTxArbitration
  cases m.processTxArbitrationIdx with
  | none => exact ⟨_, _, _, _, _, _, rfl⟩
  | some i =>
    obtain ⟨events, fsr, heq⟩ := m.completeTx_eq i
    exact ⟨_, _, _, _, _, _, heq⟩

theorem tick_eq (m : RefModel) : ∃ isr, m.tick = { m with tsr := m.tsr + 1, ISR := isr } := by
  by_cases hwrap : m.tsr + 1 = 0 <;>
    exact ⟨_, by simp only [tick, hwrap, if_true, if_false]; rfl⟩

end RefModel

/-! ### What an operation leaves alone -/

namespace RefOp

/-- Operations that may change the TX buffers. -/
def transmitSide : RefOp → Bool
  | .writeReg addr _ => addr = 0x0090#32 || addr = 0x0098#32
  | .writeTxBuf _ _ _ => true
  | .txArbitration => true
  | _ => false

/-- Operations that may change the RX FIFOs. -/
def receiveSide : RefOp → Bool
  | .received _ => true
  | .readRxFifo _ => true
  | _ => false

/-- Operations that run the arbiter. -/
def arbitrates : RefOp → Bool
  | .writeReg addr _ => addr = 0x0090#32
  | .txArbitration => true
  | _ => false

/-- Operations that run the cancel loop. -/
def cancels : RefOp → Bool
  | .writeReg addr _ => addr = 0x0098#32
  | _ => false

theorem eq_of_cancels {op : RefOp} (h : op.cancels = true) :
    ∃ data, op = .writeReg 0x0098#32 data := by
  cases op with
  | writeReg addr data =>
    obtain rfl : addr = 0x0098#32 := by simpa [cancels] using h
    exact ⟨data, rfl⟩
  | _ => cases h

/-- Operations that may change the error counters. -/
def countsErrors : RefOp → Bool
  | .writeReg addr _ => addr = 0x0090#32
  | .txArbitration => true
  | .errorDetected _ _ _ => true
  | _ => false

/-- Operations that may change the register file. -/
def registerSide : RefOp → Bool
  | .writeReg _ _ => true
  | _ => false

end RefOp

namespace RefModel

/-- What an operation other than a reset leaves alone. -/
structure KeepsSides (m : RefModel) (op : RefOp) : Prop where
  txBufs : op.transmitSide = false → (m.step op).txBufs = m.txBufs
  rxFifo0 : op.receiveSide = false → (m.step op).rxFifo0 = m.rxFifo0
  rxFifo1 : op.receiveSide = false → (m.step op).rxFifo1 = m.rxFifo1
  FSR : op.receiveSide = false → (m.step op).FSR = m.FSR
  TEC : op.countsErrors = false → (m.step op).TEC = m.TEC
  REC : op.countsErrors = false → (m.step op).REC = m.REC
  filters0 : (m.step op).filters0 = m.filters0
  filters1 : (m.step op).filters1 = m.filters1

/-- **Each operation keeps to its side of the model**, and none but a reset touches the
filters. -/
theorem step_keepsSides (m : RefModel) {op : RefOp} (h : op.softReset = false) :
    KeepsSides m op := by
  cases op with
  | writeReg addr data =>
    rcases writeReg_cases m addr data with ⟨hreset, -⟩ | ⟨-, hcase⟩
    · rw [RefOp.softReset, hreset] at h
      cases h
    rcases hcase with ⟨rfl, heq⟩ | ⟨rfl, heq⟩ | ⟨-, -, hsame⟩
    · obtain ⟨_, _, _, _, _, _, harb⟩ := processTxArbitration_eq { m with TRR := m.TRR ||| data }
      rw [harb] at heq
      constructor <;> simp [step, heq, RefOp.transmitSide, RefOp.countsErrors]
    · obtain ⟨_, _, _, hrun, -⟩ := m.cancel_eq data
      rw [hrun] at heq
      constructor <;> simp [step, heq, RefOp.transmitSide]
    · constructor <;> simp [step, hsame.txBufs, hsame.rxFifo0, hsame.rxFifo1, hsame.FSR, hsame.TEC,
        hsame.REC, hsame.filters0, hsame.filters1]
  | writeTxBuf bufIdx offset data =>
    obtain ⟨_, heq⟩ := m.writeTxBuf_eq bufIdx offset data
    constructor <;> simp [step, heq, RefOp.transmitSide]
  | txArbitration =>
    obtain ⟨_, _, _, _, _, _, heq⟩ := m.processTxArbitration_eq
    constructor <;> simp [step, heq, RefOp.transmitSide, RefOp.countsErrors]
  | received tr =>
    obtain ⟨_, _, _, _, _, heq⟩ := m.onCanFrameReceived_eq tr
    constructor <;> simp [step, heq, RefOp.receiveSide]
  | errorDetected errType isFd isTx =>
    obtain ⟨_, _, _, heq, -⟩ := m.onErrorDetected_eq errType isFd isTx
    constructor <;> simp [step, heq, RefOp.countsErrors]
  | tick =>
    obtain ⟨_, heq⟩ := m.tick_eq
    constructor <;> simp [step, heq]
  | readRxFifo fifoId =>
    obtain ⟨_, _, _, heq⟩ := m.readRxFifo_eq fifoId
    constructor <;> simp [step, heq, RefOp.receiveSide]

/-- An operation that resets leaves the reset state. -/
theorem step_softReset (m : RefModel) {op : RefOp} (h : op.softReset = true) : m.step op = new := by
  cases op with
  | writeReg addr data =>
    rcases writeReg_cases m addr data with ⟨-, heq⟩ | ⟨hreset, -⟩
    · exact heq
    · rw [RefOp.softReset, hreset] at h
      cases h
  | _ => cases h

end RefModel

end Testbench.Canfd
