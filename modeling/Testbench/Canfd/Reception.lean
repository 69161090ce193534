import Testbench.Canfd.RxFifo

/-!
A reception as one assignment.

`rxUpdate` is everything `on_can_frame_received` computes, from the receive side of
the model alone: filters, FIFOs, their mirror, the count and the timestamp.
`applyRx` assigns it. `onCanFrameReceived_eq_applyRx` says that the method is the two
in sequence, so that what a reception reads and what it changes can be told apart.
-/

namespace Testbench.Canfd

open Testbench.Lib Testbench.Canphy

/-- What a reception assigns; `flags` are the interrupt bits it raises. -/
structure RxUpdate where
  rxFifo0 : List RxMsg
  rxFifo1 : List RxMsg
  rxCount : BitVec 32
  FSR : BitVec 32
  flags : BitVec 32

namespace RefModel

/-- Assign the outcome of a reception. -/
def applyRx (m : RefModel) (u : RxUpdate) : RefModel :=
  { m with
    rxFifo0 := u.rxFifo0, rxFifo1 := u.rxFifo1, rxCount := u.rxCount
    FSR := u.FSR, ISR := m.ISR ||| u.flags }

/-- The outcome of a reception: RXOK (bit 3) for a message stored in FIFO0, RXOVF
(bit 4) for a full FIFO the frame reaches. -/
def rxUpdate (m : RefModel) (tr : CanphyTrans) : RxUpdate :=
  let matched0 := tr.isDataOrRemote && checkFilter tr m.filters0
  let matched1 := tr.isDataOrRemote && checkFilter tr m.filters1
  let stored0 := matched0 && decide (m.rxFifo0.length < 64)
  let stored1 := matched1 && decide (m.rxFifo1.length < 64)
  let overflow := (matched0 && !stored0) || (matched1 && !stored1)
  let rxFifo0 := pushed m.rxFifo0 matched0 (rxMsgOf tr m.tsr)
  let rxFifo1 := pushed m.rxFifo1 matched1 (rxMsgOf tr m.tsr)
  { rxFifo0
    rxFifo1
    rxCount := if stored0 then m.rxCount + 1 else m.rxCount
    FSR := if stored0 || stored1 then fsrOf rxFifo0.length rxFifo1.length else m.FSR
    flags := (if stored0 then BitVec.twoPow 32 3 else 0) |||
      (if overflow then BitVec.twoPow 32 4 else 0) }

/-- **A reception computes an update from the receive side and assigns it.** -/
theorem onCanFrameReceived_eq_applyRx (m : RefModel) (tr : CanphyTrans) :
    m.onCanFrameReceived tr = m.applyRx (m.rxUpdate tr) := by
  cases hframe : tr.isDataOrRemote with
  | false =>
    rw [onCanFrameReceived_of_not_dataOrRemote m hframe]
    simp [applyRx, rxUpdate, hframe, pushed]
  | true =>
    rw [onCanFrameReceived_of_dataOrRemote m hframe]
    simp only [applyRx, rxUpdate, hframe, Bool.true_and]
    generalize checkFilter tr m.filters0 = matched0
    generalize checkFilter tr m.filters1 = matched1
    by_cases hroom0 : m.rxFifo0.length < 64 <;> by_cases hroom1 : m.rxFifo1.length < 64 <;>
      cases matched0 <;> cases matched1 <;>
      simp [receiveFifo0, receiveFifo1, rxFifo0Depth, rxFifo1Depth, updateFifoStatus, pushed,
        fsrOf, setBit, hroom0, hroom1, not_lt.mp, BitVec.or_assoc]

end RefModel

end Testbench.Canfd
