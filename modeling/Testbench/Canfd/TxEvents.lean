import Testbench.Canfd.Arbitration
import Testbench.Canfd.Faults
import Testbench.Canfd.Registers

/-!
The TX event FIFO.

A transmission is reported three times: in the statistic `tx_count`, as TXOK and as an
event at the tail of a queue of at most 32, whose length TXE_FSR mirrors.
`report_completeTx` says what one completed transmission adds, `sameReport_step` that an
operation without one adds nothing; cancellations take events away from the tail.
-/

namespace Testbench.Canfd

open Testbench.Lib Testbench.Canphy

namespace RefModel

/-- The event that reports the transmission of buffer `i`. -/
def eventOf (m : RefModel) (i : Fin 32) : TxEvent := ⟨(m.txBufs i).id, (m.txBufs i).dlc, m.tsr⟩

/-- The event FIFO after the transmission of buffer `i`. -/
def eventsAfter (m : RefModel) (i : Fin 32) : List TxEvent :=
  if m.txEventFifo.length < 32 then m.txEventFifo ++ [m.eventOf i] else m.txEventFifo

/-- The event FIFO fits its depth and TXE_FSR is its size. -/
structure EventsOk (m : RefModel) : Prop where
  length_le : m.txEventFifo.length ≤ 32
  size : m.TXE_FSR.toNat = m.txEventFifo.length

/-- The operation did not report a transmission. -/
structure SameReport (m m' : RefModel) : Prop where
  txCount : m'.txCount = m.txCount
  txEventFifo : m'.txEventFifo = m.txEventFifo
  TXE_FSR : m'.TXE_FSR = m.TXE_FSR

/-! ### One transmission, one cancellation -/

theorem report_completeTx (m : RefModel) (i : Fin 32) :
    (m.completeTx i).txCount = m.txCount + 1 ∧ (m.completeTx i).txEventFifo = m.eventsAfter i ∧
      (m.completeTx i).TXE_FSR =
        if m.txEventFifo.length < 32 then BitVec.ofNat 32 (m.txEventFifo.length + 1)
        else m.TXE_FSR := by
  by_cases hroom : m.txEventFifo.length < 32 <;> by_cases htec : 0 < m.TEC <;>
    simp only [completeTx, eventsAfter, eventOf, txEventDepth, hroom, htec, if_true, if_false,
      Function.update_self, true_and]

theorem eventsOk_completeTx {m : RefModel} (h : EventsOk m) (i : Fin 32) :
    EventsOk (m.completeTx i) := by
  obtain ⟨hlen, hsize⟩ := h
  obtain ⟨-, hevents, hfsr⟩ := m.report_completeTx i
  by_cases hroom : m.txEventFifo.length < 32
  · rw [eventsAfter, if_pos hroom] at hevents
    rw [if_pos hroom] at hfsr
    constructor
    · rw [hevents, List.length_append, List.length_singleton]
      exact hroom
    · rw [hevents, hfsr, List.length_append, List.length_singleton, BitVec.toNat_ofNat,
        Nat.mod_eq_of_lt (by omega)]
  · rw [eventsAfter, if_neg hroom] at hevents
    rw [if_neg hroom] at hfsr
    exact ⟨by rw [hevents]; exact hlen, by rw [hevents, hfsr]; exact hsize⟩

theorem eventsOk_cancelStep (data : BitVec 32) (m : RefModel) (i : Fin 32) (h : EventsOk m) :
    EventsOk (cancelStep data m i) := by
  obtain ⟨hlen, hsize⟩ := h
  unfold cancelStep
  split
  · by_cases hpos : 0 < m.txEventFifo.length
    · rw [if_pos hpos]
      have hshort : m.txEventFifo.dropLast.length ≤ 32 := by
        rw [List.length_dropLast]
        omega
      refine ⟨hshort, ?_⟩
      show (BitVec.ofNat 32 m.txEventFifo.dropLast.length).toNat = m.txEventFifo.dropLast.length
      rw [BitVec.toNat_ofNat, Nat.mod_eq_of_lt (by omega)]
    · rw [if_neg hpos]
      exact ⟨hlen, hsize⟩
  · exact ⟨hlen, hsize⟩

/-- A cancellation only takes events from the tail. -/
theorem events_cancelStep (data : BitVec 32) (m : RefModel) (i : Fin 32) :
    (cancelStep data m i).txEventFifo <+: m.txEventFifo := by
  unfold cancelStep
  split
  · by_cases hpos : 0 < m.txEventFifo.length
    · rw [if_pos hpos]
      exact List.dropLast_prefix _
    · rw [if_neg hpos]
  · exact List.prefix_refl _

theorem events_run_cancelStep (data : BitVec 32) (m : RefModel) (l : List (Fin 32)) :
    (run (cancelStep data) m l).txEventFifo <+: m.txEventFifo :=
  run_invariant (fun m' i h => (events_cancelStep data m' i).trans h) (List.prefix_refl _) l

theorem length_events_cancelStep (data : BitVec 32) (m : RefModel) (i : Fin 32) :
    (cancelStep data m i).txEventFifo.length =
      m.txEventFifo.length - if data.getLsbD i = true then 1 else 0 := by
  unfold cancelStep
  cases data.getLsbD i with
  | false => rfl
  | true =>
    by_cases hpos : 0 < m.txEventFifo.length
    · simp only [if_true, hpos, List.length_dropLast]
    · simp only [if_true, hpos, if_false]
      omega

/-- Each buffer it names takes one event away. -/
theorem length_events_run_cancelStep (data : BitVec 32) (m : RefModel) (l : List (Fin 32)) :
    (run (cancelStep data) m l).txEventFifo.length =
      m.txEventFifo.length - l.countP (fun i : Fin 32 => data.getLsbD i) := by
  induction l generalizing m with
  | nil => rfl
  | cons i l ih =>
    rw [run_cons, ih, length_events_cancelStep, List.countP_cons]
    omega

/-- A TCR write leaves the events alone if there are none, or if it names no buffer. -/
theorem events_cancel_eq_iff (m : RefModel) (data : BitVec 32) :
    (m.step (.writeReg 0x0098#32 data)).txEventFifo = m.txEventFifo ↔
      (data ≠ 0 → m.txEventFifo = []) := by
  let named := (List.finRange 32).countP fun i : Fin 32 => data.getLsbD i
  have hfirst : (m.step (.writeReg 0x0098#32 data)).txEventFifo <+: m.txEventFifo :=
    events_run_cancelStep data { m with TCR := m.TCR ||| data } (List.finRange 32)
  have hlen : (m.step (.writeReg 0x0098#32 data)).txEventFifo.length =
      m.txEventFifo.length - named :=
    length_events_run_cancelStep data { m with TCR := m.TCR ||| data } (List.finRange 32)
  have hnamed : named = 0 ↔ data = 0 := by
    rw [List.countP_eq_zero]
    constructor
    · intro h
      exact BitVec.eq_of_getLsbD_eq fun i hi => by simpa using h ⟨i, hi⟩ (List.mem_finRange _)
    · rintro rfl
      simp
  constructor
  · intro heq hne
    have hpos : 0 < named := Nat.pos_of_ne_zero (mt hnamed.mp hne)
    rw [heq] at hlen
    exact List.eq_nil_of_length_eq_zero (by omega)
  · intro h
    refine hfirst.eq_of_length ?_
    rw [hlen]
    by_cases hdata : data = 0
    · rw [hnamed.mpr hdata, Nat.sub_zero]
    · rw [h hdata, List.length_nil, Nat.zero_sub]

/-! ### One step -/

theorem transmits_eq (m : RefModel) (op : RefOp) :
    m.transmits op = if op.arbitrates then m.processTxArbitrationIdx else none := by
  cases op with
  | writeReg addr data => simp [transmits, RefOp.arbitrates]
  | _ => rfl

/-- Nothing is transmitted iff no pending buffer is below the sentinel when the arbiter
runs. -/
theorem transmits_eq_none_iff (m : RefModel) (op : RefOp) :
    m.transmits op = none ↔
      (op.arbitrates = true → ∀ i, m.pending i = true → (0x1FFFFFFF#29).toNat ≤ m.txId i) := by
  rw [transmits_eq]
  split
  · next harb => rw [arbitrationIdx_eq_none_iff, forall_prop_of_true harb]
  · next harb => simp [harb]

/-- An operation that transmits completes one buffer, a TRR write after it recorded the
request. -/
theorem step_of_transmits {m : RefModel} {op : RefOp} {i : Fin 32} (h : m.transmits op = some i) :
    ∃ trr, m.step op = completeTx { m with TRR := trr } i := by
  have harb : ∀ m : RefModel, m.processTxArbitrationIdx = some i →
      m.processTxArbitration = m.completeTx i := by
    intro m hidx
    rw [processTxArbitration, hidx]
  cases op with
  | writeReg addr data =>
    simp only [transmits] at h
    split at h
    · next haddr =>
      subst haddr
      exact ⟨m.TRR ||| data, harb { m with TRR := m.TRR ||| data } h⟩
    · cases h
  | txArbitration => exact ⟨m.TRR, harb m h⟩
  | _ => cases h

/-- An arbitration that selects nothing at most records a request. -/
theorem step_of_arbitrates {m : RefModel} {op : RefOp} (harb : op.arbitrates = true)
    (hnone : m.transmits op = none) : ∃ trr, m.step op = { m with TRR := trr } := by
  have hidle : ∀ m : RefModel, m.processTxArbitrationIdx = none → m.processTxArbitration = m := by
    intro m hidx
    rw [processTxArbitration, hidx]
  rw [transmits_eq, if_pos harb] at hnone
  cases op with
  | writeReg addr data =>
    obtain rfl : addr = 0x0090#32 := by simpa [RefOp.arbitrates] using harb
    exact ⟨m.TRR ||| data, hidle { m with TRR := m.TRR ||| data } hnone⟩
  | txArbitration => exact ⟨m.TRR, hidle m hnone⟩
  | _ => cases harb

/-- Any other operation but a reset or a cancellation reports nothing. -/
theorem sameReport_step {m : RefModel} {op : RefOp} (hreset : op.softReset = false)
    (hcancel : op.cancels = false) (hnone : m.transmits op = none) : SameReport m (m.step op) := by
  cases op with
  | writeReg addr data =>
    rw [step]
    generalize hw : m.writeReg addr data = m'
    cases writeReg_effect hw with
    | reset hreset' => simp [RefOp.softReset, hreset'] at hreset
    | store r data => cases r <;> constructor <;> rfl
    | clearEsr data => constructor <;> rfl
    | clearIsr data => constructor <;> rfl
    | request data =>
      obtain ⟨_, heq⟩ := step_of_arbitrates rfl hnone
      constructor <;> rw [← hw, ← step, heq]
    | cancel data => cases hcancel
    | ignored => constructor <;> rfl
  | writeTxBuf bufIdx offset data =>
    obtain ⟨_, heq⟩ := m.writeTxBuf_eq bufIdx offset data
    constructor <;> rw [step, heq]
  | txArbitration =>
    obtain ⟨_, heq⟩ := step_of_arbitrates rfl hnone
    constructor <;> rw [heq]
  | received tr =>
    obtain ⟨_, _, _, _, _, heq⟩ := m.onCanFrameReceived_eq tr
    constructor <;> rw [step, heq]
  | errorDetected errType isFd isTx =>
    obtain ⟨_, _, _, heq, -⟩ := m.onErrorDetected_eq errType isFd isTx
    constructor <;> rw [step, heq]
  | tick =>
    obtain ⟨_, heq⟩ := m.tick_eq
    constructor <;> rw [step, heq]
  | readRxFifo fifoId =>
    obtain ⟨_, _, _, heq⟩ := m.readRxFifo_eq fifoId
    constructor <;> rw [step, heq]

theorem eventsOk_new : EventsOk new := ⟨Nat.zero_le _, rfl⟩

/-- **Every operation keeps the event FIFO within its depth and TXE_FSR at its size.** -/
theorem eventsOk_step (m : RefModel) (op : RefOp) (h : EventsOk m) : EventsOk (m.step op) := by
  cases hreset : op.softReset with
  | true =>
    rw [m.step_softReset hreset]
    exact eventsOk_new
  | false =>
    cases hcancel : op.cancels with
    | true =>
      obtain ⟨data, rfl⟩ := RefOp.eq_of_cancels hcancel
      have h' : EventsOk { m with TCR := m.TCR ||| data } := ⟨h.length_le, h.size⟩
      exact run_invariant (eventsOk_cancelStep data) h' _
    | false =>
      cases htx : m.transmits op with
      | some i =>
        obtain ⟨trr, heq⟩ := step_of_transmits htx
        have h' : EventsOk { m with TRR := trr } := ⟨h.length_le, h.size⟩
        rw [heq]
        exact eventsOk_completeTx h' i
      | none =>
        have hsame := sameReport_step hreset hcancel htx
        exact ⟨by rw [hsame.txEventFifo]; exact h.length_le,
          by rw [hsame.txEventFifo, hsame.TXE_FSR]; exact h.size⟩

/-- The step reports the buffer it transmits, at the tail of the event FIFO while there
is room, and does nothing else to it. -/
def ReportsTransmission (m : RefModel) (op : RefOp) : Prop :=
  (m.step op).txEventFifo = (m.transmits op).elim m.txEventFifo m.eventsAfter

theorem reportsTransmission (m : RefModel) {op : RefOp} (hreset : op.softReset = false)
    (hcancel : op.cancels = false) : ReportsTransmission m op := by
  unfold ReportsTransmission
  cases htx : m.transmits op with
  | some i =>
    obtain ⟨trr, heq⟩ := step_of_transmits htx
    obtain ⟨-, hevents, -⟩ := report_completeTx { m with TRR := trr } i
    rw [heq, hevents]
    rfl
  | none => exact (sameReport_step hreset hcancel htx).txEventFifo

/-- **The event FIFO records the transmissions of a run, in order**, for as long as it has
room. -/
theorem txEvents_run {m : RefModel} (h : EventsOk m) (ops : List RefOp) :
    EventsOk (run step m ops) ∧
      ((∀ op ∈ ops, op.softReset = false ∧ op.cancels = false) →
        Along step ReportsTransmission m ops) := by
  refine ⟨run_invariant eventsOk_step h ops, ?_⟩
  intro hops
  exact along_of_forall (fun m op hop => m.reportsTransmission (hops op hop).1 (hops op hop).2) m

/-- One pending buffer is transmitted, then the timestamp counts on. -/
theorem txEvents_run_onePending :
    let m : RefModel := { new with txBufs := fun _ => { valid := true, readyReq := true, id := 5 } }
    let ops : List RefOp := [.txArbitration, .tick]
    EventsOk (run step m ops) ∧ Along step ReportsTransmission m ops :=
  have h := txEvents_run ⟨by decide, by decide⟩ [.txArbitration, .tick]
  ⟨h.1, h.2 (by simp [RefOp.softReset, RefOp.cancels])⟩

end RefModel

end Testbench.Canfd
