import Testbench.Canfd.Scoreboard

/-!
Comparing an expected with an actual frame.

`compare_tx_frame` looks at five fields, and at the payload when the expected frame is
no remote frame and has one. IDE, RTR and ESI are never looked at. Its verdict is exact
on the frames whose difference, if any, shows in what it looks at
(`comparisonExact_iff`).
-/

namespace Testbench.Canfd

open Testbench.Canphy

namespace Scoreboard

/-- The two frames are the same frame. -/
structure FramesAgree (exp act : CanphyTrans) : Prop where
  frameType : exp.frameType = act.frameType
  canId : exp.canId = act.canId
  ide : exp.ide = act.ide
  rtr : exp.rtr = act.rtr
  fdf : exp.fdf = act.fdf
  brs : exp.brs = act.brs
  esi : exp.esi = act.esi
  dlc : exp.dlc = act.dlc
  data : exp.data = act.data

/-- The same frame is counted as passed and as nothing else, any other one as failed and
mismatched. -/
structure ComparisonExact (s : Scoreboard) (exp act : CanphyTrans) : Prop where
  pass : FramesAgree exp act →
    s.compareTxFrame exp act = { s with passCount := s.passCount + 1 }
  fail : ¬ FramesAgree exp act →
    s.compareTxFrame exp act =
      { s with failCount := s.failCount + 1, mismatchCount := s.mismatchCount + 1 }

/-- The frames have the same type, identifier, DLC, FDF and BRS, and the same payload where
the expected frame is no remote frame and has one. -/
structure AgreeWhereCompared (exp act : CanphyTrans) : Prop where
  frameType : exp.frameType = act.frameType
  canId : exp.canId = act.canId
  dlc : exp.dlc = act.dlc
  fdf : exp.fdf = act.fdf
  brs : exp.brs = act.brs
  data : exp.rtr = false → exp.data ≠ [] → exp.data = act.data

/-- The frames have the same IDE, RTR and ESI, and the same payload. -/
structure AgreeElsewhere (exp act : CanphyTrans) : Prop where
  ide : exp.ide = act.ide
  rtr : exp.rtr = act.rtr
  esi : exp.esi = act.esi
  data : exp.data = act.data

theorem txFrameMatches_iff (exp act : CanphyTrans) :
    txFrameMatches exp act = true ↔ AgreeWhereCompared exp act := by
  have hpayload : (if !exp.rtr && decide (0 < exp.data.length) then decide (exp.data = act.data)
      else true) = true ↔ (exp.rtr = false → exp.data ≠ [] → exp.data = act.data) := by
    rw [← List.length_pos_iff]
    cases exp.rtr with
    | true => simp
    | false => by_cases hpos : 0 < exp.data.length <;> simp [hpos]
  rw [txFrameMatches, Bool.and_eq_true, hpayload]
  simp only [Bool.and_eq_true, decide_eq_true_eq]
  constructor
  · rintro ⟨⟨⟨⟨⟨htype, hid⟩, hdlc⟩, hfdf⟩, hbrs⟩, hdata⟩
    exact ⟨htype, hid, hdlc, hfdf, hbrs, hdata⟩
  · rintro ⟨htype, hid, hdlc, hfdf, hbrs, hdata⟩
    exact ⟨⟨⟨⟨⟨htype, hid⟩, hdlc⟩, hfdf⟩, hbrs⟩, hdata⟩

theorem framesAgree_iff (exp act : CanphyTrans) :
    FramesAgree exp act ↔ AgreeWhereCompared exp act ∧ AgreeElsewhere exp act := by
  constructor
  · intro h
    exact ⟨⟨h.frameType, h.canId, h.dlc, h.fdf, h.brs, fun _ _ => h.data⟩,
      ⟨h.ide, h.rtr, h.esi, h.data⟩⟩
  · rintro ⟨hcompared, helse⟩
    exact ⟨hcompared.frameType, hcompared.canId, helse.ide, helse.rtr, hcompared.fdf,
      hcompared.brs, helse.esi, hcompared.dlc, helse.data⟩

theorem compareTxFrame_pass (s : Scoreboard) {exp act : CanphyTrans}
    (h : AgreeWhereCompared exp act) :
    s.compareTxFrame exp act = { s with passCount := s.passCount + 1 } := by
  rw [compareTxFrame, if_pos ((txFrameMatches_iff exp act).mpr h)]

theorem compareTxFrame_fail (s : Scoreboard) {exp act : CanphyTrans}
    (h : ¬ AgreeWhereCompared exp act) :
    s.compareTxFrame exp act =
      { s with failCount := s.failCount + 1, mismatchCount := s.mismatchCount + 1 } := by
  rw [compareTxFrame, if_neg (mt (txFrameMatches_iff exp act).mp h)]

/-- **The comparison is exact iff frames that agree where it compares agree elsewhere.** -/
theorem comparisonExact_iff (s : Scoreboard) (exp act : CanphyTrans) :
    ComparisonExact s exp act ↔ (AgreeWhereCompared exp act → AgreeElsewhere exp act) := by
  constructor
  · intro h hcompared
    by_contra helse
    have hdiffer : ¬ FramesAgree exp act := fun hagree => helse ((framesAgree_iff _ _).mp hagree).2
    have hboth := (s.compareTxFrame_pass hcompared).symm.trans (h.fail hdiffer)
    have hcount : s.passCount + 1 = s.passCount := congrArg Scoreboard.passCount hboth
    bv_omega
  · intro h
    refine ⟨fun hagree => ?_, fun hdiffer => ?_⟩
    · exact s.compareTxFrame_pass ((framesAgree_iff _ _).mp hagree).1
    · apply s.compareTxFrame_fail
      intro hcompared
      exact hdiffer ((framesAgree_iff _ _).mpr ⟨hcompared, h hcompared⟩)

/-- An FD frame that is sent error passive where an error active one is expected passes. -/
theorem comparisonExact_esi :
    ¬ ComparisonExact {} { frameType := .canfdStd, canId := 0x123, fdf := true }
      { frameType := .canfdStd, canId := 0x123, fdf := true, esi := true } := by
  intro h
  have hfail := h.fail fun hagree => absurd hagree.esi (by decide)
  have hcount := congrArg Scoreboard.passCount hfail
  exact absurd hcount (by decide)

end Scoreboard

end Testbench.Canfd
