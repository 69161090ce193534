import Testbench.Lib.MinScan
import Testbench.Canfd.Operations

/-!
Selecting the next transmission.

The loop of `process_tx_arbitration` and the one of `get_expected_tx_frame` are
two copies of a running minimum over the pending buffers. `arbitrationIdx_eq`
identifies it with the library's `scanMin`, with the identifier as the key and
the all-ones identifier as the sentinel; what it selects is then
`arbitrationIdx_eq_some_iff`.
-/

namespace Testbench.Canfd

open Testbench.Lib Testbench.Canphy

namespace RefModel

/-- A buffer takes part in arbitration: requested and filled. -/
def pending (m : RefModel) (i : Fin 32) : Bool := (m.txBufs i).readyReq && (m.txBufs i).valid

/-- The arbitration key of a buffer. -/
def txId (m : RefModel) (i : Fin 32) : Nat := (m.txBufs i).id.toNat

theorem finRange_sorted : (List.finRange 32).Pairwise (· < ·) := List.pairwise_lt_finRange 32

/-- The two arbiters agree. -/
theorem expectedIdx_eq_arbitrationIdx (m : RefModel) :
    m.getExpectedTxFrameIdx = m.processTxArbitrationIdx := rfl

/-- The loop is a running minimum of the identifiers of the pending buffers. -/
theorem arbitrationIdx_eq (m : RefModel) :
    m.processTxArbitrationIdx =
      scanMin (List.finRange 32) m.txId (0x1FFFFFFF#29).toNat m.pending := by
  have hstep : ∀ (acc : BitVec 29 × Option (Fin 32)) (i : Fin 32),
      scanStep m.pending m.txId (Prod.map BitVec.toNat id acc) i =
        Prod.map BitVec.toNat id (arbitrationStep m.txBufs acc i) := by
    intro acc i
    by_cases hpend : m.pending i = true
    · have hready : ((m.txBufs i).readyReq && (m.txBufs i).valid) = true := hpend
      by_cases hlt : (m.txBufs i).id < acc.1
      · have hlt' : m.txId i < (Prod.map BitVec.toNat id acc).1 := BitVec.lt_def.mp hlt
        rw [scanStep, if_pos hpend, if_pos hlt', arbitrationStep, if_pos hready, if_pos hlt]
        rfl
      · have hlt' : ¬ m.txId i < (Prod.map BitVec.toNat id acc).1 := mt BitVec.lt_def.mpr hlt
        rw [scanStep, if_pos hpend, if_neg hlt', arbitrationStep, if_pos hready, if_neg hlt]
    · have hready : ¬ ((m.txBufs i).readyReq && (m.txBufs i).valid) = true := hpend
      rw [scanStep, if_neg hpend, arbitrationStep, if_neg hready]
  have hfold : (List.finRange 32).foldl (scanStep m.pending m.txId)
        (Prod.map BitVec.toNat id (0x1FFFFFFF#29, none)) =
      Prod.map BitVec.toNat id
        ((List.finRange 32).foldl (arbitrationStep m.txBufs) (0x1FFFFFFF#29, none)) :=
    List.foldl_hom _ hstep
  exact (congrArg Prod.snd hfold).symm

/-- **A buffer is selected iff it is pending, below the sentinel, and ahead of every
other pending buffer.** -/
theorem arbitrationIdx_eq_some_iff (m : RefModel) (i : Fin 32) :
    m.processTxArbitrationIdx = some i ↔
      m.pending i = true ∧ m.txId i < (0x1FFFFFFF#29).toNat ∧
        ∀ j, m.pending j = true → j ≠ i → Before m.txId i j := by
  rw [arbitrationIdx_eq]
  exact scanMin_eq_some_iff finRange_sorted List.mem_finRange

/-- Buffer `i` wins the arbitration: pending, below the sentinel, ahead of the others. -/
def Wins (m : RefModel) (i : Fin 32) : Prop :=
  m.pending i = true ∧ m.txId i < 0x1FFFFFFF ∧
    ∀ j, m.pending j = true → j ≠ i → Before m.txId i j

theorem arbitrationIdx_eq_some_iff_wins (m : RefModel) (i : Fin 32) :
    m.processTxArbitrationIdx = some i ↔ m.Wins i := m.arbitrationIdx_eq_some_iff i

/-- Nothing is selected iff no pending buffer is below the sentinel. -/
theorem arbitrationIdx_eq_none_iff (m : RefModel) :
    m.processTxArbitrationIdx = none ↔
      ∀ i, m.pending i = true → (0x1FFFFFFF#29).toNat ≤ m.txId i := by
  rw [arbitrationIdx_eq]
  exact scanMin_eq_none_iff finRange_sorted List.mem_finRange

/-- Nothing is selected when nothing is pending. -/
theorem arbitrationIdx_of_not_pending {m : RefModel} (h : ∀ i, m.pending i = false) :
    m.processTxArbitrationIdx = none := by
  rw [arbitrationIdx_eq_none_iff]
  intro j hj
  rw [h j] at hj
  cases hj

/-! ### What a completed transmission changes in the buffers -/

theorem txBufs_completeTx (m : RefModel) (i : Fin 32) :
    (m.completeTx i).txBufs =
      Function.update m.txBufs i { m.txBufs i with readyReq := false } := by
  obtain ⟨events, fsr, heq⟩ := m.completeTx_eq i
  rw [heq]

/-- The completed buffer is no longer pending; the others are what they were. -/
theorem pending_completeTx (m : RefModel) (i : Fin 32) :
    (m.completeTx i).pending = Function.update m.pending i false := by
  funext j
  unfold pending
  rw [txBufs_completeTx]
  by_cases hji : j = i
  · subst hji
    simp
  · simp [hji]

theorem txId_completeTx (m : RefModel) (i : Fin 32) : (m.completeTx i).txId = m.txId := by
  funext j
  unfold txId
  rw [txBufs_completeTx]
  by_cases hji : j = i
  · subst hji
    simp
  · simp [hji]

/-! ### Requests are never recorded -/

/-- No buffer is marked as requested. -/
def NoRequest (m : RefModel) : Prop := ∀ i, (m.txBufs i).readyReq = false

theorem NoRequest.arbitrationIdx {m : RefModel} (h : NoRequest m) :
    m.processTxArbitrationIdx = none :=
  arbitrationIdx_of_not_pending fun i => by rw [pending, h i]; rfl

theorem NoRequest.processTxArbitration {m : RefModel} (h : NoRequest m) :
    m.processTxArbitration = m := by
  rw [RefModel.processTxArbitration, h.arbitrationIdx]

/-- Filling a buffer does not request it. -/
theorem readyReq_write (b : TxBuf) (offset data : BitVec 32) :
    (b.write offset data).readyReq = b.readyReq := by
  unfold TxBuf.write
  split
  · rfl
  · split
    · rfl
    · by_cases hlt : ((offset - 2) * 4).toInt < 64 <;> simp only [hlt, if_true, if_false]

/-- **No operation sets a request flag**, the write of TRR included. -/
theorem noRequest_step (m : RefModel) (op : RefOp) (h : NoRequest m) : NoRequest (m.step op) := by
  have hother : op.softReset = false → op.transmitSide = false → NoRequest (m.step op) := by
    intro hreset hside i
    rw [(m.step_keepsSides hreset).txBufs hside]
    exact h i
  cases op with
  | writeReg addr data =>
    rw [step]
    rcases writeReg_cases m addr data with ⟨-, heq⟩ | ⟨-, ⟨-, heq⟩ | ⟨-, heq⟩ | ⟨-, -, hsame⟩⟩
    · rw [heq]
      exact fun _ => rfl
    · have h' : NoRequest { m with TRR := m.TRR ||| data } := h
      rw [heq, h'.processTxArbitration]
      exact h'
    · obtain ⟨bufs, _, _, hrun, hbufs⟩ := m.cancel_eq data
      rw [heq, hrun]
      intro i
      show (bufs i).readyReq = false
      rw [hbufs i]
      split
      · rfl
      · exact h i
    · intro i
      rw [hsame.txBufs]
      exact h i
  | writeTxBuf bufIdx offset data =>
    intro i
    rw [step, txBufs_writeTxBuf]
    split
    · rw [readyReq_write]
      exact h i
    · exact h i
  | txArbitration => rwa [step, h.processTxArbitration]
  | _ => exact hother rfl rfl

end RefModel

end Testbench.Canfd
