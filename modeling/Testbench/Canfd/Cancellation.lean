import Testbench.Canfd.TxEvents

/-!
Cancelling transmissions.

A write of TCR releases the buffers it names and, for each of them, takes one event
from the tail of the event FIFO. A cancelled message has no event there, so what is
taken reports a message that was transmitted (`cancelsOnly_iff`).
-/

namespace Testbench.Canfd

open Testbench.Lib Testbench.Canphy

namespace RefModel

/-- What a cancellation leaves alone besides buffers and events. -/
structure CancelKeeps (m m' : RefModel) : Prop where
  TEC : m'.TEC = m.TEC
  REC : m'.REC = m.REC
  txCount : m'.txCount = m.txCount
  rxFifo0 : m'.rxFifo0 = m.rxFifo0
  rxFifo1 : m'.rxFifo1 = m.rxFifo1
  FSR : m'.FSR = m.FSR
  rxCount : m'.rxCount = m.rxCount
  ISR : m'.ISR = m.ISR
  filters0 : m'.filters0 = m.filters0
  filters1 : m'.filters1 = m.filters1

/-- A TCR write withdraws the buffers it names and touches nothing else: not the other
buffers, not the recorded events, not the counters, not the receive side. -/
structure CancelsOnly (m : RefModel) (data : BitVec 32) : Prop where
  named : ∀ i : Fin 32, data.getLsbD i = true → (m.writeReg 0x0098#32 data).pending i = false
  unnamed : ∀ i : Fin 32, data.getLsbD i = false →
    (m.writeReg 0x0098#32 data).txBufs i = m.txBufs i
  events : (m.writeReg 0x0098#32 data).txEventFifo = m.txEventFifo
  TXE_FSR : (m.writeReg 0x0098#32 data).TXE_FSR = m.TXE_FSR
  keeps : CancelKeeps m (m.writeReg 0x0098#32 data)

/-- Without an event in the FIFO no cancellation touches it. -/
theorem run_cancelStep_of_noEvents (data : BitVec 32) (m : RefModel) (l : List (Fin 32))
    (h : m.txEventFifo = []) :
    (run (cancelStep data) m l).txEventFifo = [] ∧
      (run (cancelStep data) m l).TXE_FSR = m.TXE_FSR := by
  have hstep : ∀ (m' : RefModel) (i : Fin 32), m'.txEventFifo = [] ∧ m'.TXE_FSR = m.TXE_FSR →
      (cancelStep data m' i).txEventFifo = [] ∧ (cancelStep data m' i).TXE_FSR = m.TXE_FSR := by
    rintro m' i ⟨hnil, hfsr⟩
    unfold cancelStep
    split
    · simp only [hnil, List.length_nil, lt_irrefl, if_false]
      exact ⟨trivial, hfsr⟩
    · exact ⟨hnil, hfsr⟩
  exact run_invariant hstep ⟨h, rfl⟩ l

/-- A cancellation that names no buffer runs the loop for nothing. -/
theorem run_cancelStep_zero (m : RefModel) (l : List (Fin 32)) :
    run (cancelStep 0) m l = m := by
  have hstep : ∀ (m' : RefModel), ∀ i ∈ l, id (cancelStep 0 m' i) = id m' := by
    intro m' i _
    simp [cancelStep]
  exact run_const hstep m

/-- TXE_FSR stays where the events stay. -/
theorem fsr_cancel (m : RefModel) {data : BitVec 32} (h : data ≠ 0 → m.txEventFifo = []) :
    (m.writeReg 0x0098#32 data).TXE_FSR = m.TXE_FSR := by
  by_cases hdata : data = 0
  · subst hdata
    have hrun := congrArg RefModel.TXE_FSR
      (run_cancelStep_zero { m with TCR := m.TCR ||| 0 } (List.finRange 32))
    exact hrun
  · exact (run_cancelStep_of_noEvents data { m with TCR := m.TCR ||| data } _ (h hdata)).2

theorem cancelKeeps (m : RefModel) (data : BitVec 32) :
    CancelKeeps m (m.writeReg 0x0098#32 data) := by
  obtain ⟨_, _, _, hrun, -⟩ := m.cancel_eq data
  have heq : m.writeReg 0x0098#32 data = _ := hrun
  rw [heq]
  constructor <;> rfl

/-- **A cancellation touches only what it names iff it names nothing or no event is
recorded.** -/
theorem cancelsOnly_iff (m : RefModel) (data : BitVec 32) :
    CancelsOnly m data ↔ (data ≠ 0 → m.txEventFifo = []) := by
  constructor
  · intro h
    exact (m.events_cancel_eq_iff data).mp h.events
  · intro h
    obtain ⟨bufs, events, fsr, hrun, hbufs⟩ := m.cancel_eq data
    have heq : m.writeReg 0x0098#32 data = _ := hrun
    have htx : (m.writeReg 0x0098#32 data).txBufs = bufs := by rw [heq]
    refine ⟨fun i hi => ?_, fun i hi => ?_, (m.events_cancel_eq_iff data).mpr h, m.fsr_cancel h,
      m.cancelKeeps data⟩
    · rw [pending, htx, hbufs, if_pos hi]
      rfl
    · rw [htx, hbufs, if_neg (by rw [hi]; exact Bool.false_ne_true)]

/-- Buffer 5 is transmitted and reported; cancelling buffer 9 takes the report away. -/
theorem cancelsOnly_transmitted :
    ¬ CancelsOnly (preset
      (fun i => { valid := true, readyReq := decide (i = 5), id := 5 })
      (fun _ => {}) (fun _ => {})).processTxArbitration 0x200#32 := by
  intro h
  have hevents := congrArg List.length h.events
  revert hevents
  decide +kernel

end RefModel

end Testbench.Canfd
