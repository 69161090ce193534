import Testbench.Lib.Crc
import Testbench.Lib.DynArray
import Testbench.Canphy.FrameLayout

/-!
`drive_can_frame` of `canphy_driver` (`canfd/uvc/canphy/canphy_driver.sv`), from the
values of `bit_stream` to the calls of `drive_bit`.

Both streams of the task, `bit_stream` and `stuffed`, are grown by
`x = new[x.size()+1]; x[idx++] = v`, which drops what the array held. `drivenValues_eq`
is what that leaves on the bus: dominant bits throughout and one recessive bit at the end.
-/

namespace Testbench.Canphy

open Testbench.Lib

/-- The two bit times `canphy_config` computes from its defaults. -/
structure CanphyConfig where
  bitTimeNs : Int := 20 * (5 + 1) * (1 + (4 + 1) + (3 + 1))
  dpBitTimeNs : Int := 20 * (1 + 1) * (1 + (2 + 1) + (1 + 1))

/-! ### CRC -/

/-- `crc_width` of `drive_can_frame`. -/
def crcWidth (fdf : Bool) : Nat := if fdf then 17 else 15

/-- One iteration of the loop of `calc_crc`, computed at the width of `int`. -/
def calcCrcStep (width : Nat) (poly crc : BitVec 17) (b : Bool) : BitVec 17 :=
  if b ^^ crc.getLsbD (width - 1) then
    (((crc.setWidth 32 <<< 1) ^^^ poly.setWidth 32) &&& ((1#32 <<< width) - 1#32)).setWidth 17
  else ((crc.setWidth 32 <<< 1) &&& ((1#32 <<< width) - 1#32)).setWidth 17

/-- `calc_crc`. -/
def calcCrc (bitStream : List Bool) (isFd : Bool) : BitVec 17 :=
  let (poly, width) : BitVec 17 × Nat := if isFd then (0x1685B, 17) else (0x4599, 15)
  bitStream.foldl (calcCrcStep width poly) 0

/-- The CRC bits pushed onto `stuffed`, most significant first. -/
def crcValues (bitStream : List Bool) (fdf : Bool) : List Bool :=
  bitsDown (calcCrc bitStream fdf) 0 (crcWidth fdf)

/-! ### Bit stuffing -/

/-- The variables of the stuffing loop. -/
structure Stuffing where
  stuffed : DynArray Bool
  sameCount : Nat := 1
  lastBit : Bool

/-- One iteration of the stuffing loop. -/
def Stuffing.next (s : Stuffing) (b : Bool) : Stuffing :=
  let stuffed := s.stuffed.push b
  if b = s.lastBit then
    if s.sameCount + 1 = 5 then
      -- the inverse bit
      { stuffed := stuffed.push (!b), sameCount := 1, lastBit := !b }
    else { s with stuffed, sameCount := s.sameCount + 1 }
  else { stuffed, sameCount := 1, lastBit := b }

/-- `stuffed` after step 2 of `drive_can_frame`. -/
def stuff : List Bool → DynArray Bool
  | [] => {}
  | b :: bitStream =>
      (bitStream.foldl Stuffing.next
        { stuffed := ({} : DynArray Bool).push b, lastBit := b }).stuffed

/-- What step 2 is for: a bit stream with the inverse bit after every fifth equal one.
`n` bits equal to `last` came right before. -/
def stuffValues (last : Bool) (n : Nat) : List Bool → List Bool
  | [] => []
  | b :: bits =>
      if b = last then
        if n + 1 = 5 then b :: (!b) :: stuffValues (!b) 1 bits
        else b :: stuffValues last (n + 1) bits
      else b :: stuffValues b 1 bits

/-! ### The drive loop -/

/-- `stuffed` before the drive loop: steps 1 to 4. -/
def buildStuffed (tr : CanphyTrans) : DynArray Bool :=
  let bitStream := (({} : DynArray Bool).pushAll (bitStreamValues tr)).elems
  -- CRC, then CRC delimiter, ACK slot, ACK delimiter, and EOF
  (stuff bitStream).pushAll
    (crcValues bitStream tr.fdf ++ [true, true, true] ++ List.replicate 7 true)

/-- `get_brs_pos`. -/
def getBrsPos (tr : CanphyTrans) : Nat :=
  if !tr.ide then 1 + 11 + 1 + 1 + 1 + 1 else 1 + 11 + 1 + 1 + 18 + 1 + 2 + 1

/-- The calls of `drive_bit`, value and bit time, and `tr.bit_count`. The bit time stays
at the data rate once the loop has reached the BRS position. -/
def driveCanFrame (cfg : CanphyConfig) (tr : CanphyTrans) : List (Bool × Int) × Int :=
  let stuffed := (buildStuffed tr).elems
  let calls := stuffed.mapIdx fun i b =>
    let bitTime := if tr.fdf && tr.brs && decide (getBrsPos tr ≤ i) then cfg.dpBitTimeNs
      else cfg.bitTimeNs
    if tr.errInject ≠ .errNone ∧ (i : Int) = tr.errBitPos then (!b, bitTime) else (b, bitTime)
  (calls, stuffed.length)

/-- The sequence of values passed to `drive_bit`. -/
def drivenValues (cfg : CanphyConfig) (tr : CanphyTrans) : List Bool :=
  (driveCanFrame cfg tr).1.map Prod.fst

/-! ### What is left of the frame -/

/-- Without error injection the loop drives `stuffed` as it is. -/
theorem drivenValues_errNone (cfg : CanphyConfig) {tr : CanphyTrans}
    (hnone : tr.errInject = .errNone) : drivenValues cfg tr = (buildStuffed tr).elems := by
  unfold drivenValues driveCanFrame
  apply List.ext_getElem
  · simp
  · simp [hnone]

theorem idx_foldl_next (s : Stuffing) (bits : List Bool) :
    (bits.foldl Stuffing.next s).stuffed.idx =
      s.stuffed.idx + (stuffValues s.lastBit s.sameCount bits).length := by
  induction bits generalizing s with
  | nil => rfl
  | cons b bits ih =>
    rw [List.foldl_cons, ih, stuffValues, Stuffing.next]
    by_cases hlast : b = s.lastBit
    · by_cases hfive : s.sameCount + 1 = 5
      · simp only [hlast, hfive, if_true, DynArray.idx_push, List.length_cons]
        omega
      · simp only [hlast, hfive, if_true, if_false, DynArray.idx_push, List.length_cons]
        omega
    · simp only [hlast, if_false, DynArray.idx_push, List.length_cons]
      omega

/-- The stuffing loop writes as many elements as the stuffed stream has. -/
theorem idx_stuff (bits : List Bool) : (stuff bits).idx = (stuffValues false 0 bits).length := by
  cases bits with
  | nil => rfl
  | cons b bits =>
    have hloop := idx_foldl_next { stuffed := ({} : DynArray Bool).push b, lastBit := b } bits
    rw [stuff, hloop, DynArray.idx_push, stuffValues]
    cases b with
    | false => exact Nat.add_comm 1 _
    | true => exact Nat.add_comm 1 _

/-- The size of the frame is right, but of its bits only the last EOF bit outlives the
allocations. -/
theorem elems_buildStuffed (tr : CanphyTrans) :
    (buildStuffed tr).elems =
      List.replicate ((stuffValues false 0
        (({} : DynArray Bool).pushAll (bitStreamValues tr)).elems).length + crcWidth tr.fdf + 9)
        false ++ [true] := by
  set bitStream := (({} : DynArray Bool).pushAll (bitStreamValues tr)).elems
  have hlast : crcValues bitStream tr.fdf ++ [true, true, true] ++ List.replicate 7 true =
      (crcValues bitStream tr.fdf ++ [true, true, true] ++ List.replicate 6 true) ++ [true] := by
    simp [List.replicate]
  have hbuild : buildStuffed tr = (stuff bitStream).pushAll
      (crcValues bitStream tr.fdf ++ [true, true, true] ++ List.replicate 7 true) := rfl
  rw [hbuild, hlast, DynArray.elems_pushAll_concat, idx_stuff]
  simp [crcValues, Nat.add_assoc]

/-- The sequence a frame asks for: `built` stuffed, `crcBits`, the two delimiters around
the ACK slot, and EOF. -/
structure Drives (cfg : CanphyConfig) (tr : CanphyTrans) (built crcBits : List Bool) : Prop where
  width : crcBits.length = crcWidth tr.fdf
  values : drivenValues cfg tr =
    stuffValues false 0 built ++ crcBits ++ List.replicate 3 true ++ List.replicate 7 true

/-- **No frame is driven**, whatever is taken for the bits it was built from and for its
CRC: the recessive bits before the last one are gone. -/
theorem not_drives (cfg : CanphyConfig) (tr : FrameTrans) (hnone : tr.errInject = .errNone)
    (built crcBits : List Bool) : ¬ Drives cfg tr.toCanphyTrans built crcBits := by
  rintro ⟨-, hvalues⟩
  rw [drivenValues_errNone cfg hnone, elems_buildStuffed] at hvalues
  have hsplit : List.replicate 7 true = List.replicate 5 true ++ [true] ++ [true] := rfl
  rw [hsplit, ← List.append_assoc, ← List.append_assoc] at hvalues
  have hinit := List.append_cancel_right hvalues
  have hlost : true ∈ stuffValues false 0 built ++ crcBits ++ List.replicate 3 true ++
      List.replicate 5 true ++ [true] := by
    simp
  rw [← hinit] at hlost
  exact absurd (List.eq_of_mem_replicate hlost) (by decide)

/-- The frame with two payload bytes is not driven either. -/
theorem stdDataFrame_not_drives :
    ¬ Drives {} stdDataFrame.toCanphyTrans (bitStreamValues stdDataFrame.toCanphyTrans)
      (crcValues (bitStreamValues stdDataFrame.toCanphyTrans) stdDataFrame.fdf) := by
  intro h
  exact absurd h.values (by decide +kernel)

/-- A standard FD frame with twenty payload bytes. -/
def longFdFrame : FrameTrans where
  frameType := .canfdStd
  canId := 0x123
  dlc := 11
  fdf := true
  data := List.replicate 20 (some 0x5A)
  dataOrRemote := rfl
  consistent := by decide +kernel
  sized := by decide
  known := by simp

theorem longFdFrame_not_drives :
    ¬ Drives {} longFdFrame.toCanphyTrans (bitStreamValues longFdFrame.toCanphyTrans)
      (crcValues (bitStreamValues longFdFrame.toCanphyTrans) true) :=
  not_drives {} longFdFrame rfl _ _

end Testbench.Canphy
