import Testbench.Canfd.StatusBits

/-!
RXOK and the number of received messages.

The two FIFO halves of a reception store a message in the same way, but only the
first raises RXOK and counts the message. What the interrupt and the count say is
complete as long as no message goes to FIFO1 alone and the count, an `int`, does not
wrap (`rxokComplete_iff`).
-/

namespace Testbench.Canfd

open Testbench.Lib Testbench.Canphy

namespace RefModel

/-- A reception that stores the frame in some FIFO reports and counts it, and one that
stores it in none does neither. -/
structure RxokComplete (m : RefModel) (tr : CanphyTrans) : Prop where
  reported : (∃ k, (m.onCanFrameReceived tr).fifo k ≠ m.fifo k) →
    (m.onCanFrameReceived tr).ISR.getLsbD 3 = true ∧
      m.rxCount.toInt < (m.onCanFrameReceived tr).rxCount.toInt
  silent : (∀ k, (m.onCanFrameReceived tr).fifo k = m.fifo k) →
    (m.onCanFrameReceived tr).ISR.getLsbD 3 = m.ISR.getLsbD 3 ∧
      (m.onCanFrameReceived tr).rxCount = m.rxCount

/-- A FIFO changes iff it takes the frame. -/
theorem fifo_received_ne_iff (m : RefModel) (tr : CanphyTrans) (k : Fin 2) :
    (m.onCanFrameReceived tr).fifo k ≠ m.fifo k ↔ m.stores k tr := by
  rw [fifo_received, pushed, stores]
  split
  · next htake => simpa using htake
  · next hnot => simpa using hnot

theorem stores_zero_iff (m : RefModel) (tr : CanphyTrans) :
    m.stores 0 tr ↔
      (tr.isDataOrRemote && checkFilter tr m.filters0 && decide (m.rxFifo0.length < 64)) = true := by
  simp [stores, offers, filters, fifo]

instance (k : Fin 2) (m : RefModel) (tr : CanphyTrans) : Decidable (m.stores k tr) := by
  unfold stores; infer_instance

/-- The count follows FIFO0. -/
theorem rxCount_received (m : RefModel) (tr : CanphyTrans) :
    (m.onCanFrameReceived tr).rxCount = if m.stores 0 tr then m.rxCount + 1 else m.rxCount := by
  rw [onCanFrameReceived_eq_applyRx]
  exact if_congr (m.stores_zero_iff tr).symm rfl rfl

/-- RXOK follows FIFO0. -/
theorem rxok_received (m : RefModel) (tr : CanphyTrans) :
    (m.onCanFrameReceived tr).ISR.getLsbD 3 = true ↔
      m.stores 0 tr ∨ m.ISR.getLsbD 3 = true := by
  rw [onCanFrameReceived_eq_applyRx, applyRx, BitVec.getLsbD_or, Bool.or_eq_true,
    getLsbD_flags, or_comm]
  simp [isrRaised, Fin.exists_fin_two]

/-- An `int` grows with its successor unless it is the largest one. -/
theorem toInt_lt_succ_iff (x : BitVec 32) : x.toInt < (x + 1).toInt ↔ x ≠ .intMax 32 := by
  have hmax : x = .intMax 32 ↔ x.toNat = 0x7FFFFFFF := by
    rw [← BitVec.toNat_inj]
    rfl
  have hlt := x.isLt
  have hone : (1 : BitVec 32).toNat = 1 := rfl
  rw [ne_eq, hmax]
  simp only [BitVec.toInt_eq_toNat_cond, BitVec.toNat_add, hone]
  split_ifs <;> omega

/-- **RXOK and the count are complete iff the frame is stored in FIFO0 whenever it is
stored in FIFO1, and then the count is not the largest there is.** -/
theorem rxokComplete_iff (m : RefModel) (tr : CanphyTrans) :
    RxokComplete m tr ↔
      (m.stores 1 tr → m.stores 0 tr) ∧ (m.stores 0 tr → m.rxCount ≠ .intMax 32) := by
  have hcount := m.rxCount_received tr
  have hrxok := m.rxok_received tr
  constructor
  · intro h
    refine ⟨fun hone => ?_, fun hzero => ?_⟩
    · by_contra hzero
      have hgrown := (h.reported ⟨1, (m.fifo_received_ne_iff tr 1).mpr hone⟩).2
      rw [hcount, if_neg hzero] at hgrown
      exact lt_irrefl _ hgrown
    · have hgrown := (h.reported ⟨0, (m.fifo_received_ne_iff tr 0).mpr hzero⟩).2
      rw [hcount, if_pos hzero] at hgrown
      exact (toInt_lt_succ_iff _).mp hgrown
  · rintro ⟨h, hroom⟩
    refine ⟨fun ⟨k, hk⟩ => ?_, fun hsame => ?_⟩
    · have hzero : m.stores 0 tr := by
        have hk := (m.fifo_received_ne_iff tr k).mp hk
        match k with
        | 0 => exact hk
        | 1 => exact h hk
      rw [hcount, if_pos hzero]
      exact ⟨hrxok.mpr (Or.inl hzero), (toInt_lt_succ_iff _).mpr (hroom hzero)⟩
    · have hzero : ¬ m.stores 0 tr := fun hzero => (m.fifo_received_ne_iff tr 0).mpr hzero (hsame 0)
      rw [hcount, if_neg hzero]
      refine ⟨?_, rfl⟩
      rw [Bool.eq_iff_iff, hrxok]
      exact or_iff_right hzero

/-- A model that has received 64 frames and handed one of them out from FIFO1. -/
def fifo1Drained : RefModel :=
  run step new (List.replicate 64 (.received { canId := 5 }) ++ [.readRxFifo 1])

/-- The next frame goes to FIFO1 alone, and is not counted. -/
theorem rxokComplete_fifo1Drained : ¬ RxokComplete fifo1Drained { canId := 6 } := by
  intro h
  have hstored : (fifo1Drained.onCanFrameReceived { canId := 6 }).fifo 1 ≠ fifo1Drained.fifo 1 := by
    intro heq
    have hlen := congrArg List.length heq
    revert hlen
    decide +kernel
  have hgrown := (h.reported ⟨1, hstored⟩).2
  revert hgrown
  decide +kernel

end RefModel

end Testbench.Canfd
