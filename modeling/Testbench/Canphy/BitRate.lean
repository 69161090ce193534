import Testbench.Canphy.Stuffing

/-!
The bit times `drive_can_frame` of `canphy_driver` (`canfd/uvc/canphy/canphy_driver.sv`)
drives a frame with.

The data rate applies from the BRS bit to the CRC delimiter of an FD frame with BRS set.
The drive loop never goes back to the nominal rate, so whatever bits the stream was built
from, ACK and EOF are sent at the data rate (`switchesRate_iff`).
-/

namespace Testbench.Canphy

open Testbench.Lib

/-- The position of BRS in `bit_stream`. -/
def brsBit (tr : CanphyTrans) : Nat := if !tr.ide then 16 else 36

/-- The position of BRS in the stuffed stream, where `built` are the bits of
`bit_stream`. -/
def brsIndex (tr : CanphyTrans) (built : List Bool) : Nat :=
  (stuffValues false 0 (built.take (brsBit tr))).length

/-- The position of the CRC delimiter in the stuffed stream: ACK slot, ACK delimiter and
EOF follow. -/
def crcDelimiterIndex (cfg : CanphyConfig) (tr : CanphyTrans) : Nat :=
  (driveCanFrame cfg tr).1.length - 10

/-- Bits after BRS up to the CRC delimiter have the data bit time if the frame asks for it,
all others the nominal one. -/
def SwitchesRate (cfg : CanphyConfig) (tr : CanphyTrans) (built : List Bool) : Prop :=
  ∀ i b bitTime, (driveCanFrame cfg tr).1[i]? = some (b, bitTime) →
    bitTime =
      if tr.fdf = true ∧ tr.brs = true ∧ brsIndex tr built < i ∧ i ≤ crcDelimiterIndex cfg tr then
        cfg.dpBitTimeNs
      else cfg.bitTimeNs

theorem length_driveCanFrame (cfg : CanphyConfig) (tr : CanphyTrans) :
    (driveCanFrame cfg tr).1.length = (buildStuffed tr).elems.length := List.length_mapIdx

/-- Even the shortest frame is longer than the index at which the loop switches. -/
theorem getBrsPos_add_lt_length (cfg : CanphyConfig) {tr : CanphyTrans} (hfdf : tr.fdf = true) :
    getBrsPos tr < (driveCanFrame cfg tr).1.length - 1 ∧ 10 < (driveCanFrame cfg tr).1.length := by
  have hfields : 12 ≤ (bitStreamValues tr).length := by
    unfold bitStreamValues arbitrationValues
    cases tr.ide <;> simp
  set built := (({} : DynArray Bool).pushAll (bitStreamValues tr)).elems with hbuilt
  have hlen : built.length = (bitStreamValues tr).length := by
    have hfull := (({} : DynArray Bool).pushAll (bitStreamValues tr)).full
    rw [DynArray.idx_pushAll] at hfull
    exact hfull.symm.trans (Nat.zero_add _)
  have hstuffed := le_length_stuffBits (k := 5) false 0 built
  have hpos : getBrsPos tr ≤ 36 := by
    unfold getBrsPos
    split <;> decide
  rw [length_driveCanFrame, elems_buildStuffed, ← hbuilt, stuffValues_eq, hfdf, List.length_append,
    List.length_replicate, List.length_singleton, crcWidth, if_pos rfl]
  omega

/-- The bit time of each call. -/
theorem bitTime_driveCanFrame {cfg : CanphyConfig} {tr : CanphyTrans} {i : Nat} {b : Bool}
    {bitTime : Int} (h : (driveCanFrame cfg tr).1[i]? = some (b, bitTime)) :
    bitTime = if tr.fdf && tr.brs && decide (getBrsPos tr ≤ i) then cfg.dpBitTimeNs
      else cfg.bitTimeNs := by
  unfold driveCanFrame at h
  rw [List.getElem?_mapIdx] at h
  obtain ⟨v, -, hcall⟩ := Option.map_eq_some_iff.mp h
  dsimp only at hcall
  split at hcall <;> exact (Prod.mk.inj hcall).2.symm

/-- **A frame is driven with the right bit times iff there is nothing to switch**: it is a
classic frame, its BRS bit is clear, or both bit times are the same. -/
theorem switchesRate_iff (cfg : CanphyConfig) (tr : FrameTrans) (built : List Bool) :
    SwitchesRate cfg tr.toCanphyTrans built ↔
      tr.fdf = false ∨ tr.brs = false ∨ cfg.dpBitTimeNs = cfg.bitTimeNs := by
  constructor
  · intro h
    by_contra hswitch
    simp only [not_or, Bool.not_eq_false] at hswitch
    obtain ⟨hfdf, hbrs, hrates⟩ := hswitch
    -- the last EOF bit
    set calls := (driveCanFrame cfg tr.toCanphyTrans).1 with hcalls
    obtain ⟨hpos, hten⟩ := getBrsPos_add_lt_length cfg hfdf
    rw [← hcalls] at hpos hten
    have hlast : calls[calls.length - 1]? = some calls[calls.length - 1] :=
      List.getElem?_eq_getElem (by omega)
    have hdriven := bitTime_driveCanFrame hlast
    have hwanted := h _ _ _ hlast
    have heof : ¬ calls.length - 1 ≤ crcDelimiterIndex cfg tr.toCanphyTrans := by
      unfold crcDelimiterIndex
      rw [← hcalls]
      omega
    have hfast : getBrsPos tr.toCanphyTrans ≤ calls.length - 1 := by omega
    rw [hdriven] at hwanted
    simp only [hfdf, hbrs, hfast, heof] at hwanted
    exact hrates (by simpa using hwanted)
  · intro h i b bitTime hcall
    rw [bitTime_driveCanFrame hcall]
    rcases h with hfdf | hbrs | hrates
    · simp [hfdf]
    · simp [hbrs]
    · rw [hrates, ite_self, ite_self]

/-- A standard FD frame with BRS set and one payload byte. -/
def brsFrame : FrameTrans where
  frameType := .canfdStd
  canId := 0x123
  dlc := 1
  fdf := true
  brs := true
  data := [some 0x5A]
  dataOrRemote := rfl
  consistent := by decide +kernel
  sized := by decide
  known := by simp

/-- Its last EOF bit is driven for 240 ns instead of 1200. -/
theorem brsFrame_not_switchesRate :
    ¬ SwitchesRate {} brsFrame.toCanphyTrans (bitStreamValues brsFrame.toCanphyTrans) := by
  intro h
  have hlast : (driveCanFrame {} brsFrame.toCanphyTrans).1[62]? = some (true, 240) := by
    decide +kernel
  exact absurd (h 62 true 240 hlast) (by decide +kernel)

end Testbench.Canphy
