import Testbench.Canfd.Arbitration

/-!
Lowest identifier first.

Both arbiters start their running minimum at the all-ones identifier and take a
buffer only when its identifier is strictly smaller. Below the sentinel that is the
lowest identifier first (`wins_iff_lowest`); a pending buffer that carries the
sentinel itself is never taken, and `lowestIdFirst_iff` says when this shows.
-/

namespace Testbench.Canfd

open Testbench.Lib Testbench.Canphy

namespace RefModel

/-- Buffer `i` is pending, and every pending buffer has a larger identifier, or the same
one at an index not smaller. -/
structure Lowest (m : RefModel) (i : Fin 32) : Prop where
  pending : m.pending i = true
  id_le : ∀ j, m.pending j = true → m.txId i ≤ m.txId j
  index_le : ∀ j, m.pending j = true → m.txId j = m.txId i → i ≤ j

/-- The two arbiters take the lowest pending buffer, and idle when nothing is pending. -/
structure LowestIdFirst (m : RefModel) : Prop where
  selects : (∃ i, m.pending i = true) → ∃ i, Lowest m i ∧
    m.processTxArbitration.txBufs =
      Function.update m.txBufs i { m.txBufs i with readyReq := false } ∧
    m.getExpectedTxFrame = some (expectedFrame (m.txBufs i))
  idle : (∀ i, m.pending i = false) → m.processTxArbitration = m ∧ m.getExpectedTxFrame = none

/-- The winner of the arbitration is the lowest pending buffer, below the sentinel. -/
theorem wins_iff_lowest (m : RefModel) (i : Fin 32) :
    m.Wins i ↔ Lowest m i ∧ m.txId i < 0x1FFFFFFF := by
  constructor
  · rintro ⟨hpend, hlt, hbefore⟩
    refine ⟨⟨hpend, fun j hj => ?_, fun j hj heq => ?_⟩, hlt⟩
    · by_cases hji : j = i
      · rw [hji]
      · exact (hbefore j hj hji).le
    · by_cases hji : j = i
      · rw [hji]
      · rcases hbefore j hj hji with h | ⟨-, h⟩
        · exact absurd heq (ne_of_gt h)
        · exact h.le
  · rintro ⟨hlow, hlt⟩
    refine ⟨hlow.pending, hlt, ?_⟩
    intro j hj hji
    rcases lt_or_eq_of_le (hlow.id_le j hj) with h | h
    · exact Or.inl h
    · exact Or.inr ⟨h, lt_of_le_of_ne (hlow.index_le j hj h.symm) (Ne.symm hji)⟩

/-- Below the sentinel means anything but the sentinel. -/
theorem txId_lt_iff (m : RefModel) (i : Fin 32) :
    m.txId i < (0x1FFFFFFF#29).toNat ↔ (m.txBufs i).id ≠ 0x1FFFFFFF#29 := by
  have hmax : (m.txBufs i).id.toNat < 2 ^ 29 := (m.txBufs i).id.isLt
  rw [txId, ne_eq, ← BitVec.toNat_inj]
  simp only [BitVec.toNat_ofNat]
  omega

/-- Nothing is selected iff every pending buffer carries the sentinel. -/
theorem arbitrationIdx_eq_none_iff_sentinel (m : RefModel) :
    m.processTxArbitrationIdx = none ↔
      ∀ i, m.pending i = true → (m.txBufs i).id = 0x1FFFFFFF#29 := by
  rw [arbitrationIdx_eq_none_iff]
  refine forall₂_congr fun i _ => ?_
  rw [← not_lt, txId_lt_iff, not_not]

/-- **The lowest identifier goes first iff, whenever something is pending, some pending
buffer has an identifier other than the sentinel.** -/
theorem lowestIdFirst_iff (m : RefModel) :
    LowestIdFirst m ↔
      ((∃ i, m.pending i = true) →
        ∃ i, m.pending i = true ∧ (m.txBufs i).id ≠ 0x1FFFFFFF#29) := by
  constructor
  · intro h hpend
    by_contra hnone
    have hall : ∀ i, m.pending i = true → (m.txBufs i).id = 0x1FFFFFFF#29 := by
      intro i hi
      by_contra hne
      exact hnone ⟨i, hi, hne⟩
    obtain ⟨i, -, -, hframe⟩ := h.selects hpend
    rw [getExpectedTxFrame, expectedIdx_eq_arbitrationIdx,
      (m.arbitrationIdx_eq_none_iff_sentinel).mpr hall] at hframe
    cases hframe
  · intro h
    refine ⟨fun hpend => ?_, fun hidle => ?_⟩
    · obtain ⟨j, hj, hne⟩ := h hpend
      cases hidx : m.processTxArbitrationIdx with
      | none => exact absurd (m.arbitrationIdx_eq_none_iff_sentinel.mp hidx j hj) hne
      | some i =>
        have hwins := (m.arbitrationIdx_eq_some_iff_wins i).mp hidx
        refine ⟨i, (m.wins_iff_lowest i).mp hwins |>.1, ?_, ?_⟩
        · rw [processTxArbitration, hidx]
          exact m.txBufs_completeTx i
        · rw [getExpectedTxFrame, expectedIdx_eq_arbitrationIdx, hidx, Option.map_some]
    · have hidx := arbitrationIdx_of_not_pending hidle
      refine ⟨?_, ?_⟩
      · rw [processTxArbitration, hidx]
      · rw [getExpectedTxFrame, expectedIdx_eq_arbitrationIdx, hidx, Option.map_none]

/-- One pending buffer with the all-ones identifier is passed over. -/
theorem lowestIdFirst_sentinel :
    ¬ LowestIdFirst (preset
      (fun i => { valid := true, readyReq := decide (i = 3), ide := true, id := 0x1FFFFFFF })
      (fun _ => {}) (fun _ => {})) := by
  intro h
  obtain ⟨i, -, -, hframe⟩ := h.selects ⟨3, rfl⟩
  have hnone : (preset
      (fun i => { valid := true, readyReq := decide (i = 3), ide := true, id := 0x1FFFFFFF })
      (fun _ => {}) (fun _ => {})).getExpectedTxFrame = none := by decide
  rw [hnone] at hframe
  cases hframe

end RefModel

end Testbench.Canfd
