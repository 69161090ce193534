import Testbench.Lib.Bits
import Testbench.Canphy.Trans

/-!
The behavioural reference model `canfd_ref_model`
(`canfd/env/canfd_ref_model.sv`).

One record holds the state and one function models each method, under the
source's names. Fixed arrays are functions on `Fin`, queues are lists with the
head at the front, `int` statistics are natural numbers. Left out are `ICR`, which
nothing reads or writes, and the depth members `rx_fifo0_depth`, `rx_fifo1_depth`
and `tx_event_depth`, which nothing changes and which are constants here.
-/

namespace Testbench.Canfd

open Testbench.Lib Testbench.Canphy

/-- `tx_buf_t`. -/
structure TxBuf where
  valid : Bool := false
  id : BitVec 29 := 0
  ide : Bool := false
  rtr : Bool := false
  fdf : Bool := false
  brs : Bool := false
  esi : Bool := false
  dlc : BitVec 4 := 0
  data : Fin 64 → BitVec 8 := fun _ => 0
  readyReq : Bool := false
  deriving DecidableEq

/-- `rx_msg_t`. -/
structure RxMsg where
  id : BitVec 29 := 0
  ide : Bool := false
  rtr : Bool := false
  fdf : Bool := false
  brs : Bool := false
  esi : Bool := false
  dlc : BitVec 4 := 0
  data : Fin 64 → BitVec 8 := fun _ => 0
  timestamp : BitVec 16 := 0
  deriving DecidableEq

/-- `tx_event_t`. -/
structure TxEvent where
  id : BitVec 29
  dlc : BitVec 4
  timestamp : BitVec 16
  deriving DecidableEq, Repr

/-- `filter_t`. -/
structure Filter where
  enable : Bool := false
  id : BitVec 29 := 0
  mask : BitVec 29 := 0
  ide : Bool := false
  deriving DecidableEq, Repr

def rxFifo0Depth : Nat := 64
def rxFifo1Depth : Nat := 64
def txEventDepth : Nat := 32

def EWARN_LIMIT : BitVec 9 := 96
def EPAS_LIMIT : BitVec 9 := 128
def BUSOFF_LIMIT : BitVec 9 := 256

/-- The members of `canfd_ref_model`: register mirrors under their register names,
then buffers, FIFOs, error counters, filters, timestamp and statistics. -/
structure RefModel where
  SRR : BitVec 32 := 0
  MSR : BitVec 32 := 0
  BRPR : BitVec 32 := 0
  BTR : BitVec 32 := 0
  ECR : BitVec 32 := 0
  ESR : BitVec 32 := 0
  SR : BitVec 32 := 0
  ISR : BitVec 32 := 0
  IER : BitVec 32 := 0
  TSR : BitVec 32 := 0
  DP_BRPR : BitVec 32 := 0
  DP_BTR : BitVec 32 := 0
  TRR : BitVec 32 := 0
  TCR : BitVec 32 := 0
  TXE_FSR : BitVec 32 := 0
  TXE_WMR : BitVec 32 := 0
  RCS0 : BitVec 32 := 0
  RCS1 : BitVec 32 := 0
  RCS2 : BitVec 32 := 0
  AFR : BitVec 32 := 0
  FSR : BitVec 32 := 0
  WMR : BitVec 32 := 0
  txBufs : Fin 32 → TxBuf := fun _ => {}
  rxFifo0 : List RxMsg := []
  rxFifo1 : List RxMsg := []
  txEventFifo : List TxEvent := []
  TEC : BitVec 9 := 0
  REC : BitVec 9 := 0
  filters0 : Fin 32 → Filter := fun _ => {}
  filters1 : Fin 32 → Filter := fun _ => {}
  tsr : BitVec 16 := 0
  txCount : BitVec 32 := 0
  rxCount : BitVec 32 := 0
  deriving DecidableEq

namespace RefModel

/-- `reset_state`: every member is assigned, in the source's order. -/
def resetState (m : RefModel) : RefModel :=
  { m with
    SRR := 0, MSR := 0, BRPR := 0, BTR := 0, ECR := 0, ESR := 0
    SR := 1  -- CONFIG
    ISR := 0, IER := 0, TSR := 0
    DP_BRPR := 0, DP_BTR := 0, TRR := 0, TCR := 0
    TXE_FSR := 0, TXE_WMR := 0
    RCS0 := 0, RCS1 := 0, RCS2 := 0, AFR := 0, FSR := 0, WMR := 0
    TEC := 0, REC := 0, tsr := 0
    txCount := 0, rxCount := 0
    rxFifo0 := [], rxFifo1 := []
    txEventFifo := []
    txBufs := fun _ => {}
    filters0 := fun _ => {}
    filters1 := fun _ => {} }

/-- `new`: a model on which `reset_state` has run. -/
def new : RefModel := resetState {}

/-- `update_fifo_status`: two six-bit depths side by side. -/
def updateFifoStatus (m : RefModel) : RefModel :=
  let depth0 : BitVec 6 := BitVec.ofNat 6 m.rxFifo0.length
  let depth1 : BitVec 6 := BitVec.ofNat 6 m.rxFifo1.length
  { m with FSR := (depth1 ++ depth0).setWidth 32 }

/-! ### Transmit side -/

/-- The loop body both arbiters repeat: running minimum `acc.1` and its index. -/
def arbitrationStep (bufs : Fin 32 → TxBuf) (acc : BitVec 29 × Option (Fin 32)) (i : Fin 32) :
    BitVec 29 × Option (Fin 32) :=
  if (bufs i).readyReq && (bufs i).valid then
    if (bufs i).id < acc.1 then ((bufs i).id, some i) else acc
  else acc

/-- `min_idx` after the loop of `process_tx_arbitration`; `none` is -1. -/
def processTxArbitrationIdx (m : RefModel) : Option (Fin 32) :=
  ((List.finRange 32).foldl (arbitrationStep m.txBufs) (0x1FFFFFFF, none)).2

/-- `min_idx` after the loop of `get_expected_tx_frame`; `none` is -1. -/
def getExpectedTxFrameIdx (m : RefModel) : Option (Fin 32) :=
  ((List.finRange 32).foldl (arbitrationStep m.txBufs) (0x1FFFFFFF, none)).2

/-- The part of `process_tx_arbitration` that runs for a selected buffer. -/
def completeTx (m : RefModel) (i : Fin 32) : RefModel :=
  let m : RefModel := { m with
    txBufs := Function.update m.txBufs i { m.txBufs i with readyReq := false }
    txCount := m.txCount + 1
    ISR := setBit m.ISR 2 true }  -- TXOK
  let m : RefModel :=
    if m.txEventFifo.length < txEventDepth then
      let ev : TxEvent := ⟨(m.txBufs i).id, (m.txBufs i).dlc, m.tsr⟩
      { m with
        txEventFifo := m.txEventFifo ++ [ev]
        TXE_FSR := BitVec.ofNat 32 (m.txEventFifo.length + 1) }
    else m
  if 0 < m.TEC then { m with TEC := m.TEC - 1 } else m

/-- `process_tx_arbitration`. -/
def processTxArbitration (m : RefModel) : RefModel :=
  match m.processTxArbitrationIdx with
  | some i => m.completeTx i
  | none => m

/-- The frame `get_expected_tx_frame` builds from the selected buffer. -/
def expectedFrame (b : TxBuf) : CanphyTrans :=
  let nBytes := dlcToBytes b.dlc
  { canId := b.id
    ide := b.ide
    rtr := b.rtr
    fdf := b.fdf
    brs := b.brs
    esi := b.esi
    dlc := b.dlc
    frameType := frameTypeOf b.fdf b.rtr b.ide
    data :=
      if 0 < nBytes && !b.rtr then
        (List.range nBytes).map fun i => if h : i < 64 then some (b.data ⟨i, h⟩) else some 0
      else [] }

/-- `get_expected_tx_frame`; `none` is null. -/
def getExpectedTxFrame (m : RefModel) : Option CanphyTrans :=
  m.getExpectedTxFrameIdx.map fun i => expectedFrame (m.txBufs i)

/-- One iteration of the cancel loop of a TCR write. -/
def cancelStep (data : BitVec 32) (m : RefModel) (i : Fin 32) : RefModel :=
  if data.getLsbD i then
    let m : RefModel := { m with
      txBufs := Function.update m.txBufs i { m.txBufs i with readyReq := false, valid := false } }
    if 0 < m.txEventFifo.length then
      { m with
        txEventFifo := m.txEventFifo.dropLast
        TXE_FSR := BitVec.ofNat 32 m.txEventFifo.dropLast.length }
    else m
  else m

end RefModel

/-- `data[byte_idx] = b` on a 64-byte payload; an index outside 0..63 assigns
nothing. -/
def setByte (data : Fin 64 → BitVec 8) (byteIdx : Int) (b : BitVec 8) : Fin 64 → BitVec 8 :=
  fun j => if (j : Int) = byteIdx then b else data j

/-- The four byte assignments of a payload word. -/
def setWord (data : Fin 64 → BitVec 8) (byteIdx : Int) (word : BitVec 32) : Fin 64 → BitVec 8 :=
  let data := setByte data (byteIdx + 0) (word.extractLsb' 0 8)
  let data := setByte data (byteIdx + 1) (word.extractLsb' 8 8)
  let data := setByte data (byteIdx + 2) (word.extractLsb' 16 8)
  setByte data (byteIdx + 3) (word.extractLsb' 24 8)

/-- `write_tx_buf` on the buffer it addresses. The payload offset is computed
without sign and compared as an `int`. -/
def TxBuf.write (b : TxBuf) (offset data : BitVec 32) : TxBuf :=
  let b := { b with valid := true }
  if offset = 0 then
    { b with
      id := data.setWidth 29
      ide := data.getLsbD 31
      rtr := data.getLsbD 30
      fdf := data.getLsbD 29 }
  else if offset = 1 then
    { b with
      dlc := data.setWidth 4
      brs := data.getLsbD 4
      esi := data.getLsbD 5 }
  else
    let byteIdx : Int := ((offset - 2) * 4).toInt
    if byteIdx < 64 then { b with data := setWord b.data byteIdx data } else b

namespace RefModel

/-- `write_tx_buf`. -/
def writeTxBuf (m : RefModel) (bufIdx : Int) (offset data : BitVec 32) : RefModel :=
  if h : 0 ≤ bufIdx ∧ bufIdx < 32 then
    let i : Fin 32 := ⟨bufIdx.toNat, by omega⟩
    { m with txBufs := Function.update m.txBufs i ((m.txBufs i).write offset data) }
  else m

/-! ### Registers -/

/-- `write_reg`. -/
def writeReg (m : RefModel) (addr data : BitVec 32) : RefModel :=
  match addr with
  | 0x0000#32 =>
      let m : RefModel := { m with SRR := data }
      if data.getLsbD 0 then { m.resetState with SRR := 0 } else m
  | 0x0004#32 => { m with MSR := data }
  | 0x0008#32 => { m with BRPR := data }
  | 0x000C#32 => { m with BTR := data }
  | 0x0014#32 => { m with ESR := m.ESR &&& ~~~data }  -- W1C
  | 0x0020#32 => { m with IER := data }
  | 0x0024#32 => { m with ISR := m.ISR &&& ~~~data }  -- ICR, W1C
  | 0x0028#32 => { m with TSR := data }
  | 0x0088#32 => { m with DP_BRPR := data }
  | 0x008C#32 => { m with DP_BTR := data }
  | 0x0090#32 => processTxArbitration { m with TRR := m.TRR ||| data }
  | 0x0098#32 => (List.finRange 32).foldl (cancelStep data) { m with TCR := m.TCR ||| data }
  | 0x00A4#32 => { m with TXE_WMR := data }
  | 0x00B0#32 => { m with RCS0 := data }
  | 0x00B4#32 => { m with RCS1 := data }
  | 0x00B8#32 => { m with RCS2 := data }
  | 0x00E0#32 => { m with AFR := data }
  | 0x00EC#32 => { m with WMR := data }
  | _ => m

/-- `compute_sr`. -/
def computeSr (m : RefModel) : BitVec 32 :=
  let srVal : BitVec 32 := 0
  let srVal := setBit srVal 0 (!m.SRR.getLsbD 1)  -- CONFIG
  let srVal := setBit srVal 5 (decide (BUSOFF_LIMIT ≤ m.TEC))  -- BOFF
  setBit srVal 4 (decide (EPAS_LIMIT ≤ m.TEC) || decide (EPAS_LIMIT ≤ m.REC))  -- EPAS

/-- `read_reg`. -/
def readReg (m : RefModel) (addr : BitVec 32) : BitVec 32 :=
  match addr with
  | 0x0000#32 => m.SRR
  | 0x0004#32 => m.MSR
  | 0x0008#32 => m.BRPR
  | 0x000C#32 => m.BTR
  | 0x0010#32 => (m.REC.setWidth 8 ++ m.TEC.setWidth 8).setWidth 32  -- ECR
  | 0x0014#32 => m.ESR
  | 0x0018#32 => m.computeSr
  | 0x001C#32 => m.ISR
  | 0x0020#32 => m.IER
  | 0x0028#32 => m.TSR
  | 0x0088#32 => m.DP_BRPR
  | 0x008C#32 => m.DP_BTR
  | 0x0090#32 => m.TRR
  | 0x0098#32 => m.TCR
  | 0x00A0#32 => m.TXE_FSR
  | 0x00A4#32 => m.TXE_WMR
  | 0x00B0#32 => m.RCS0
  | 0x00B4#32 => m.RCS1
  | 0x00B8#32 => m.RCS2
  | 0x00E0#32 => m.AFR
  | 0x00E8#32 => m.FSR
  | 0x00EC#32 => m.WMR
  | _ => 0

/-! ### Receive side -/

/-- `check_filter`: without an enabled filter everything is accepted. -/
def checkFilter (tr : CanphyTrans) (filters : Fin 32 → Filter) : Bool :=
  let anyEnable := (List.finRange 32).any fun i => (filters i).enable
  if !anyEnable then true
  else (List.finRange 32).any fun i =>
    (filters i).enable && (filters i).ide == tr.ide &&
      (tr.canId &&& (filters i).mask) == ((filters i).id &&& (filters i).mask)

/-- The message `on_can_frame_received` stores: a zeroed `rx_msg_t` with the frame's
fields and payload bytes copied in. -/
def rxMsgOf (tr : CanphyTrans) (tsr : BitVec 16) : RxMsg where
  id := tr.canId
  ide := tr.ide
  rtr := tr.rtr
  fdf := tr.fdf
  brs := tr.brs
  esi := tr.esi
  dlc := tr.dlc
  timestamp := tsr
  data := fun i => (tr.data[i.val]?.getD (some 0)).toBits

/-- The FIFO0 half of `on_can_frame_received`. -/
def receiveFifo0 (m : RefModel) (tr : CanphyTrans) (matched0 : Bool) : RefModel :=
  if matched0 ∧ m.rxFifo0.length < rxFifo0Depth then
    updateFifoStatus { m with
      rxFifo0 := m.rxFifo0 ++ [rxMsgOf tr m.tsr]
      rxCount := m.rxCount + 1
      ISR := setBit m.ISR 3 true }  -- RXOK
  else if matched0 ∧ rxFifo0Depth ≤ m.rxFifo0.length then
    { m with ISR := setBit m.ISR 4 true }  -- RXOVF
  else m

/-- The FIFO1 half of `on_can_frame_received`. -/
def receiveFifo1 (m : RefModel) (tr : CanphyTrans) (matched1 : Bool) : RefModel :=
  if matched1 ∧ m.rxFifo1.length < rxFifo1Depth then
    updateFifoStatus { m with rxFifo1 := m.rxFifo1 ++ [rxMsgOf tr m.tsr] }
  else if matched1 ∧ rxFifo1Depth ≤ m.rxFifo1.length then
    { m with ISR := setBit m.ISR 4 true }  -- RXOVF (shared bit)
  else m

/-- `on_can_frame_received`. -/
def onCanFrameReceived (m : RefModel) (tr : CanphyTrans) : RefModel :=
  if tr.frameType = .errorFrame ∨ tr.frameType = .overloadFrame then m
  else
    let matched0 := checkFilter tr m.filters0
    let matched1 := checkFilter tr m.filters1
    (m.receiveFifo0 tr matched0).receiveFifo1 tr matched1

/-- `read_rx_fifo`: the message returned and the state after the read. -/
def readRxFifo (m : RefModel) (fifoId : Int) : RxMsg × RefModel :=
  if fifoId = 0 ∧ 0 < m.rxFifo0.length then
    (m.rxFifo0.headD {}, updateFifoStatus { m with rxFifo0 := m.rxFifo0.tail })
  else if fifoId = 1 ∧ 0 < m.rxFifo1.length then
    (m.rxFifo1.headD {}, updateFifoStatus { m with rxFifo1 := m.rxFifo1.tail })
  else ({}, m)

/-! ### Errors and time -/

/-- The ESR bit `on_error_detected` sets for an error type, if any. -/
def esrBit (errType : CanErrorType) (isFd : Bool) : Option Nat :=
  match errType with
  | .errBit => some (if isFd then 11 else 4)
  | .errStuff => some (if isFd then 10 else 8)
  | .errCrc => some 6
  | .errForm => some (if isFd then 9 else 7)
  | .errAck => some 5
  | .errNone => none

/-- The error state transitions of `on_error_detected`. -/
def errorStateTransition (m : RefModel) : RefModel :=
  let m : RefModel := if EWARN_LIMIT ≤ m.TEC ∨ EWARN_LIMIT ≤ m.REC then
    { m with ISR := setBit m.ISR 0 true } else m  -- EWARN
  let m : RefModel := if EPAS_LIMIT ≤ m.TEC ∨ EPAS_LIMIT ≤ m.REC then
    { m with SR := setBit m.SR 4 true } else m  -- EPAS
  if BUSOFF_LIMIT ≤ m.TEC then
    { m with SR := setBit (setBit m.SR 5 true) 0 false } else m  -- BOFF

/-- The saturation that ends `on_error_detected`. -/
def saturateCounters (m : RefModel) : RefModel :=
  let m : RefModel := if BUSOFF_LIMIT < m.TEC then { m with TEC := BUSOFF_LIMIT } else m
  if EPAS_LIMIT < m.REC then { m with REC := EPAS_LIMIT } else m

/-- `on_error_detected`: status bits are raised on the sum before it saturates. -/
def onErrorDetected (m : RefModel) (errType : CanErrorType) (isFd isTx : Bool) : RefModel :=
  let inc : BitVec 9 := 8
  let m : RefModel := match esrBit errType isFd with
    | some b => { m with ESR := setBit m.ESR b true }
    | none => m
  let m : RefModel := if isTx then { m with TEC := m.TEC + inc } else { m with REC := m.REC + inc }
  m.errorStateTransition.saturateCounters

/-- `tick`. -/
def tick (m : RefModel) : RefModel :=
  let m : RefModel := { m with tsr := m.tsr + 1 }
  if m.tsr = 0 then { m with ISR := setBit m.ISR 7 true } else m

end RefModel

end Testbench.Canfd
