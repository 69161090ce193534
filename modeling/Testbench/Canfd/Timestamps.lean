import Testbench.Canfd.StatusBits
import Testbench.Canfd.TxEvents
import Testbench.Lib.LastWrite
import Testbench.Lib.Provenance

/-!
The timestamp counter.

`tsr` counts the ticks since the last software reset modulo 65536 (`tsr_run`). It is
what the overflow interrupt and every recorded message go by (`timestamps_run`). Reads
of TSR return a mirror of the same name that only the host writes, so they follow the
counter when the host happens to write what it would read (`tsrReads_iff`).
-/

namespace Testbench.Canfd

open Testbench.Lib Testbench.Canphy

/-- A call of `tick`. -/
def RefOp.isTick : RefOp → Bool
  | .tick => true
  | _ => false

/-- The ticks after the last software reset, counted on. -/
def tickStep (n : Nat) (op : RefOp) : Nat :=
  if op.softReset then 0 else if op.isTick then n + 1 else n

/-- The number of ticks since the last software reset of a run. -/
def ticksSinceReset (ops : List RefOp) : Nat := run tickStep 0 ops

theorem ticksSinceReset_append_singleton (ops : List RefOp) (op : RefOp) :
    ticksSinceReset (ops ++ [op]) = tickStep (ticksSinceReset ops) op :=
  run_append_singleton _ _ _

namespace RefModel

/-! ### The counter -/

/-- **Ticks count, resets clear, nothing else touches the counter.** -/
theorem tsr_step (m : RefModel) (op : RefOp) :
    (m.step op).tsr =
      if op.softReset then 0 else if op.isTick then m.tsr + 1 else m.tsr := by
  cases hreset : op.softReset with
  | true =>
    rw [m.step_softReset hreset]
    rfl
  | false =>
    simp only [Bool.false_eq_true, if_false]
    cases op with
    | writeReg addr data =>
      rw [step]
      rcases writeReg_cases m addr data with ⟨hreset', -⟩ | ⟨-, ⟨-, heq⟩ | ⟨-, heq⟩ | ⟨-, -, hsame⟩⟩
      · rw [RefOp.softReset, hreset'] at hreset
        cases hreset
      · obtain ⟨_, _, _, _, _, _, harb⟩ := processTxArbitration_eq { m with TRR := m.TRR ||| data }
        rw [heq, harb]
        rfl
      · obtain ⟨_, _, _, hrun, -⟩ := m.cancel_eq data
        rw [heq, hrun]
        rfl
      · exact hsame.tsr
    | writeTxBuf bufIdx offset data =>
      obtain ⟨_, heq⟩ := m.writeTxBuf_eq bufIdx offset data
      rw [step, heq]
      rfl
    | txArbitration =>
      obtain ⟨_, _, _, _, _, _, heq⟩ := m.processTxArbitration_eq
      rw [step, heq]
      rfl
    | received tr =>
      obtain ⟨_, _, _, _, _, heq⟩ := m.onCanFrameReceived_eq tr
      rw [step, heq]
      rfl
    | errorDetected errType isFd isTx =>
      obtain ⟨_, _, _, heq, -⟩ := m.onErrorDetected_eq errType isFd isTx
      rw [step, heq]
      rfl
    | tick =>
      obtain ⟨_, heq⟩ := m.tick_eq
      rw [step, heq]
      rfl
    | readRxFifo fifoId =>
      obtain ⟨_, _, _, heq⟩ := m.readRxFifo_eq fifoId
      rw [step, heq]
      rfl

/-- **The counter is the number of ticks since the last reset, modulo 65536.** -/
theorem tsr_run {m : RefModel} (h : m.tsr = 0) (ops : List RefOp) :
    (run step m ops).tsr = BitVec.ofNat 16 (ticksSinceReset ops) := by
  induction ops using List.reverseRecOn with
  | nil => exact h
  | append_singleton ops op ih =>
    rw [run_append_singleton, tsr_step, ih, ticksSinceReset_append_singleton, tickStep]
    cases op.softReset with
    | true => rfl
    | false =>
      cases op.isTick with
      | true => exact (BitVec.ofNat_add _ _).symm
      | false => rfl

/-! ### The overflow interrupt -/

/-- The operation raises bit `b` of ISR: it leaves the bit up even when it was down. -/
def RaisesIsr (b : Nat) (m : RefModel) (op : RefOp) : Prop :=
  (step { m with ISR := setBit m.ISR b false } op).ISR.getLsbD b = true

/-- Only the tick that wraps the counter raises the overflow interrupt. -/
theorem raisesIsr_overflow_iff (m : RefModel) (op : RefOp) :
    RaisesIsr 7 m op ↔ op = .tick ∧ m.tsr = 0xFFFF#16 := by
  have hdown : (setBit m.ISR 7 false).getLsbD 7 = false := by
    rw [getLsbD_setBit _ _ _ _ (by decide), if_pos rfl]
  rw [RaisesIsr, isr_step (fun h => absurd h (by decide)) op (by decide), hdown]
  cases op <;> simp [isrRaised]

/-- The wrap is the tick whose number is a multiple of 65536. -/
theorem wraps_iff (t : Nat) : BitVec.ofNat 16 t = 0xFFFF#16 ↔ 65536 ∣ t + 1 := by
  rw [← BitVec.toNat_inj, BitVec.toNat_ofNat, BitVec.toNat_ofNat]
  omega

/-! ### Recorded timestamps -/

/-- A step stores a message with the time it reads, or only takes messages away. -/
theorem fifo_stamped (k : Fin 2) (m : RefModel) (op : RefOp) :
    (∃ msg, RxMsg.timestamp msg = m.tsr ∧ (m.step op).fifo k = m.fifo k ++ [msg]) ∨
      ((m.step op).fifo k).Sublist (m.fifo k) := by
  have heff := fifo_effect k m op
  cases hevent : fifoEvent k m op with
  | offer a =>
    obtain ⟨tr, rfl, hoffer⟩ := received_of_offer hevent
    rw [hevent, Effect] at heff
    rw [fifoEvent, if_pos hoffer] at hevent
    obtain rfl : (tr, m.tsr) = a := QueueEvent.offer.inj hevent
    split at heff
    · exact Or.inl ⟨stored (tr, m.tsr), rfl, heff⟩
    · exact Or.inr (by rw [heff])
  | take out =>
    rw [hevent, Effect] at heff
    exact Or.inr (by rw [heff]; exact List.sublist_cons_self _ _)
  | clear =>
    rw [hevent, Effect] at heff
    exact Or.inr (by rw [heff]; exact List.nil_sublist _)
  | idle =>
    rw [hevent, Effect] at heff
    exact Or.inr (by rw [heff])

/-- A step records an event with the time it reads, or only takes events away. -/
theorem events_stamped (m : RefModel) (op : RefOp) :
    (∃ ev, TxEvent.timestamp ev = m.tsr ∧ (m.step op).txEventFifo = m.txEventFifo ++ [ev]) ∨
      ((m.step op).txEventFifo).Sublist m.txEventFifo := by
  cases hreset : op.softReset with
  | true =>
    rw [m.step_softReset hreset]
    exact Or.inr (List.nil_sublist _)
  | false =>
    cases hcancel : op.cancels with
    | true =>
      obtain ⟨data, rfl⟩ := RefOp.eq_of_cancels hcancel
      have hfirst := events_run_cancelStep data { m with TCR := m.TCR ||| data } (List.finRange 32)
      exact Or.inr hfirst.sublist
    | false =>
      have hreport := m.reportsTransmission hreset hcancel
      rw [ReportsTransmission] at hreport
      rw [hreport]
      cases m.transmits op with
      | none => exact Or.inr (List.Sublist.refl _)
      | some i =>
        rw [Option.elim_some, eventsAfter]
        split
        · exact Or.inl ⟨m.eventOf i, rfl, rfl⟩
        · exact Or.inr (List.Sublist.refl _)

/-! ### Runs -/

/-- What timestamps owe their reader after a run, at each of its steps. -/
structure Timestamps (start : RefModel) (ops : List RefOp) : Prop where
  counter : ∀ n, (run step start (ops.take n)).tsr.toNat = ticksSinceReset (ops.take n) % 65536
  overflow : ∀ n op, ops[n]? = some op →
    (RaisesIsr 7 (run step start (ops.take n)) op ↔
      op = .tick ∧ 0 < ticksSinceReset (ops.take (n + 1)) ∧
        65536 ∣ ticksSinceReset (ops.take (n + 1)))
  messages : ∀ k, Stamped step (fun m => m.fifo k) RxMsg.timestamp tsr start ops
  events : Stamped step txEventFifo TxEvent.timestamp tsr start ops

/-- **Timestamps over whole runs**: the counter counts ticks, its overflow is reported by
the tick that wraps it, and whatever is held carries the time of the step that recorded
it. -/
theorem timestamps_run (bufs : Fin 32 → TxBuf) (f0 f1 : Fin 32 → Filter) (ops : List RefOp) :
    Timestamps (preset bufs f0 f1) ops := by
  refine ⟨fun n => ?_, fun n op hop => ?_, fun k => ?_, ?_⟩
  · rw [tsr_run rfl, BitVec.toNat_ofNat]
  · rw [raisesIsr_overflow_iff, tsr_run rfl, wraps_iff, List.take_add_one, hop, Option.toList_some,
      ticksSinceReset_append_singleton, tickStep]
    refine and_congr_right fun htick => ?_
    subst htick
    simp [RefOp.softReset, RefOp.isTick]
  · apply stamped_run
    · exact fifo_stamped k
    · exact ite_self _
  · exact stamped_run events_stamped rfl ops

/-! ### Reads of TSR -/

/-- The timestamp field of TSR. -/
def tsrField (v : BitVec 32) : BitVec 16 := v.setWidth 16

/-- The value an operation writes to TSR. -/
def tsrWritten : RefOp → Option (BitVec 32)
  | .writeReg addr data => if addr = 0x0028#32 then some data else none
  | _ => none

/-- Two reads of TSR differ by the number of ticks in between. -/
def TsrReadsFollow (m : RefModel) (ops : List RefOp) : Prop :=
  tsrField ((run step m ops).readReg 0x0028#32) - tsrField (m.readReg 0x0028#32) =
    BitVec.ofNat 16 (ops.countP RefOp.isTick)

/-- The host advances the register by the number of ticks; without a write to it, the
ticks are whole turns of the counter. -/
def HostKeepsTime (m : RefModel) (ops : List RefOp) : Prop :=
  match lastWrite tsrWritten ops with
  | some data => tsrField data = tsrField m.TSR + BitVec.ofNat 16 (ops.countP RefOp.isTick)
  | none => 65536 ∣ ops.countP RefOp.isTick

/-- Only the host changes the mirror. -/
theorem mirror_step (m : RefModel) {op : RefOp} (h : op.softReset = false) :
    (m.step op).TSR = (tsrWritten op).getD m.TSR := by
  have hplain := m.plain_step op .TSR
  cases op with
  | writeReg addr data =>
    refine hplain.trans ?_
    have hreset : isSoftReset addr data = false := h
    simp only [plainAfter, hreset, tsrWritten, PlainReg.addr, @eq_comm _ addr]
    by_cases haddr : 0x0028#32 = addr
    · simp [haddr]
    · simp [haddr, plain]
  | _ => exact hplain

theorem mirror_run (m : RefModel) {ops : List RefOp} (h : ∀ op ∈ ops, op.softReset = false) :
    (run step m ops).TSR = (lastWrite tsrWritten ops).getD m.TSR := by
  have hstep : ∀ m : RefModel, ∀ op ∈ ops, (m.step op).TSR = (tsrWritten op).getD m.TSR :=
    fun m op hop => m.mirror_step (h op hop)
  exact run_lastWrite hstep m

/-- **Reads of TSR follow the counter iff the host writes what they should return.** -/
theorem tsrReads_iff (m : RefModel) {ops : List RefOp} (h : ∀ op ∈ ops, op.softReset = false) :
    TsrReadsFollow m ops ↔ HostKeepsTime m ops := by
  have hread : ∀ m : RefModel, m.readReg 0x0028#32 = m.TSR := fun m => m.readReg_addr .TSR
  rw [TsrReadsFollow, HostKeepsTime, hread, hread, m.mirror_run h]
  cases lastWrite tsrWritten ops with
  | some data => exact sub_eq_iff_eq_add'
  | none =>
    simp only [Option.getD_none, sub_self]
    rw [← BitVec.toNat_inj, BitVec.toNat_ofNat, eq_comm, Nat.dvd_iff_mod_eq_zero]
    rfl

/-- A tick, and the host writing the time it should now be. -/
theorem tsrReads_written :
    TsrReadsFollow new [.tick, .writeReg 0x0028#32 1#32] :=
  (tsrReads_iff new (by simp [RefOp.softReset, isSoftReset])).mpr rfl

/-- One tick between two reads does not show. -/
theorem tsrReads_tick : ¬ TsrReadsFollow new [.tick] := by
  unfold TsrReadsFollow
  decide

end RefModel

end Testbench.Canfd
