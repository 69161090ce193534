import Testbench.Canfd.Arbitration

/-!
The frames the reference model predicts.

`get_expected_tx_frame` copies the raw fields of the winning buffer. The rules for
frames tie these fields to each other, the buffer does not: `transmittable_iff` says
which buffers stand for a frame that can be on a bus, and `predictions_iff` when every
prediction is one.
-/

namespace Testbench.Canfd

open Testbench.Lib Testbench.Canphy

/-- A frame that meets the two format constraints of `canphy_trans`. The other fields
spell out what they amount to. -/
structure Transmittable (tr : CanphyTrans) : Prop where
  consistent : cFrameConsistency 0x800 tr
  sized : cDlcDataSize tr
  standard : tr.ide = false → tr.canId.toNat < 0x800
  classicData : tr.fdf = false → tr.rtr = false → tr.dlc ≤ 8 ∧ tr.data.length = tr.dlc.toNat
  fd : tr.fdf = true → tr.rtr = false ∧ tr.data.length = fdDataSize tr.dlc
  remote : tr.rtr = true → tr.data = []
  classic : tr.fdf = false → tr.brs = false

/-- The raw fields of a buffer describe a frame. -/
structure TxBuf.WellFormed (b : TxBuf) : Prop where
  standard : b.ide = false → b.id.toNat < 0x800
  classicData : b.fdf = false → b.rtr = false → b.dlc ≤ 8
  fd : b.fdf = true → b.rtr = false
  classic : b.fdf = false → b.brs = false

namespace RefModel

/-- The predicted payload has the length its DLC stands for, none in a remote frame. -/
theorem length_expectedFrame_data (b : TxBuf) :
    (expectedFrame b).data.length = if b.rtr then 0 else dlcToBytes b.dlc := by
  cases hrtr : b.rtr with
  | true => simp [expectedFrame, hrtr]
  | false =>
    by_cases hpos : 0 < dlcToBytes b.dlc
    · simp [expectedFrame, hrtr, hpos]
    · simp [expectedFrame, hrtr, Nat.eq_zero_of_not_pos hpos]

/-- The constraints follow the frame type, and the frame type follows the flags. -/
theorem constraints_expectedFrame {b : TxBuf} (h : b.WellFormed) :
    cFrameConsistency 0x800 (expectedFrame b) ∧ cDlcDataSize (expectedFrame b) := by
  have hlen := length_expectedFrame_data b
  have htype : (expectedFrame b).frameType = frameTypeOf b.fdf b.rtr b.ide := rfl
  have hid : (expectedFrame b).canId = b.id := rfl
  have hdlc : (expectedFrame b).dlc = b.dlc := rfl
  have hflags : (expectedFrame b).ide = b.ide ∧ (expectedFrame b).rtr = b.rtr ∧
      (expectedFrame b).fdf = b.fdf ∧ (expectedFrame b).brs = b.brs := ⟨rfl, rfl, rfl, rfl⟩
  unfold cFrameConsistency cDlcDataSize
  rw [htype, hid, hdlc, hlen, hflags.1, hflags.2.1, hflags.2.2.1, hflags.2.2.2]
  cases hfdf : b.fdf with
  | true =>
    have hrtr := h.fd hfdf
    cases hide : b.ide with
    | true => simp [frameTypeOf, hrtr, fdDataSize_eq]
    | false => simp [frameTypeOf, hrtr, fdDataSize_eq, h.standard hide]
  | false =>
    have hbrs := h.classic hfdf
    cases hrtr : b.rtr with
    | true =>
      cases hide : b.ide with
      | true => simp [frameTypeOf, hbrs]
      | false => simp [frameTypeOf, hbrs, h.standard hide]
    | false =>
      have hle := h.classicData hfdf hrtr
      cases hide : b.ide with
      | true => simpa [frameTypeOf, hbrs, dlcToBytes_of_le hle] using hle
      | false => simpa [frameTypeOf, hbrs, dlcToBytes_of_le hle, h.standard hide] using hle

theorem transmittable_iff (b : TxBuf) : Transmittable (expectedFrame b) ↔ b.WellFormed := by
  have hlen := length_expectedFrame_data b
  constructor
  · intro h
    exact ⟨h.standard, fun hfdf hrtr => (h.classicData hfdf hrtr).1, fun hfdf => (h.fd hfdf).1,
      h.classic⟩
  · intro h
    obtain ⟨hconsistent, hsized⟩ := constraints_expectedFrame h
    refine ⟨hconsistent, hsized, h.standard, ?_, ?_, ?_, h.classic⟩
    · intro hfdf (hrtr : b.rtr = false)
      have hle := h.classicData hfdf hrtr
      rw [hrtr, if_neg Bool.false_ne_true, dlcToBytes_of_le hle] at hlen
      exact ⟨hle, hlen⟩
    · intro hfdf
      have hrtr := h.fd hfdf
      rw [hrtr, if_neg Bool.false_ne_true, ← fdDataSize_eq] at hlen
      exact ⟨hrtr, hlen⟩
    · intro (hrtr : b.rtr = true)
      rw [if_pos hrtr] at hlen
      exact List.length_eq_zero_iff.mp hlen

/-- **Every prediction is a frame iff the buffer that wins the arbitration, if one does,
was filled as one.** -/
theorem predictions_iff (m : RefModel) :
    (∀ tr, m.getExpectedTxFrame = some tr → Transmittable tr) ↔
      ∀ i, m.Wins i → (m.txBufs i).WellFormed := by
  simp only [getExpectedTxFrame, expectedIdx_eq_arbitrationIdx, Option.map_eq_some_iff]
  constructor
  · intro h i hwins
    exact (transmittable_iff _).mp (h _ ⟨i, (m.arbitrationIdx_eq_some_iff_wins i).mpr hwins, rfl⟩)
  · rintro h tr ⟨i, hidx, rfl⟩
    exact (transmittable_iff _).mpr (h i ((m.arbitrationIdx_eq_some_iff_wins i).mp hidx))

/-- A standard buffer whose identifier has a bit above bit 10, filled by `write_tx_buf`. -/
theorem predictions_wide_id :
    let bufs := (run step new [.writeTxBuf 0 0#32 0x800#32, .writeTxBuf 0 1#32 2#32]).txBufs
    let m : RefModel := { new with
      txBufs := fun i => { bufs i with readyReq := true } }
    ∃ tr, m.getExpectedTxFrame = some tr ∧ tr.frameType = .canStdData ∧ tr.canId = 0x800 ∧
      ¬ Transmittable tr := by
  refine ⟨expectedFrame { valid := true, id := 0x800, dlc := 2, readyReq := true },
    ?_, rfl, rfl, ?_⟩
  · decide +kernel
  · intro h
    exact absurd (h.standard rfl) (by decide)

end RefModel

end Testbench.Canfd
