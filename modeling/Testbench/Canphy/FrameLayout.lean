import Testbench.Canphy.Driver
import Testbench.Canphy.Monitor

/-!
The bit layouts of the serializer and of the field parser.

The two walks agree on extended FD frames, except that the parser writes the low
identifier bits over the high ones. They disagree on the reserved bits of the
other three shapes: the parser takes the reserved bit of a standard frame for
FDF, and skips one bit where the serializer has sent DLC bits already.
`roundTrips_iff` states exactly which frames survive anyway: those whose DLC and
payload repeat under the shift.
-/

namespace Testbench.Canphy

open Testbench.Lib

/-- What the field parser has to report about a frame. -/
structure Reports (tr fr : CanphyTrans) : Prop where
  frameType : fr.frameType = tr.frameType
  canId : fr.canId = tr.canId
  ide : fr.ide = tr.ide
  rtr : fr.rtr = tr.rtr
  fdf : fr.fdf = tr.fdf
  dlc : fr.dlc = tr.dlc
  data : fr.data = tr.data
  fd : tr.fdf = true → fr.brs = tr.brs ∧ fr.esi = tr.esi

/-- The values the driver assigns for `tr`, followed by `tail`, are parsed as `tr`. -/
def RoundTrips (dir : CanDirection) (tr : CanphyTrans) (tail : List Bool) : Prop :=
  ∃ fr, parseFields dir (bitStreamValues tr ++ tail) = some fr ∧ Reports tr fr

/-- The frames on which the two layouts give the same reading, by shape. `tail` is
what follows the data field on the bus. -/
def LayoutsAgree (tr : CanphyTrans) (tail : List Bool) : Prop :=
  if tr.fdf then
    tr.ide = true ∧ tr.canId.toNat < 2 ^ 18
  else if tr.ide then
    tr.canId.toNat < 2 ^ 18 ∧
      (tr.dlc = 0 ∧ tail[0]?.getD false = false ∧ tail[1]?.getD false = false ∨
        tr.dlc = 5 ∧ tail[0]? = some false ∧ tail[1]? = some true ∧
          ∀ b ∈ tr.data, b = some 0x55)
  else
    tr.dlc = 0 ∧ tail[0]? = some false ∨ tr.dlc = 15 ∧ tail[0]? = some true

/-! ### Arbitration field -/

/-- A standard identifier, RTR and IDE are read as sent; the reserved bit is left
for the control field. -/
theorem parseArbitration_std {canId : BitVec 29} (hid : canId.toNat < 0x800) (rtr : Bool)
    (rest : List Bool) :
    parseArbitration (bitsDown canId 0 11 ++ ([rtr, false, false] ++ rest)) =
      (canId, rtr, false, false :: rest) := by
  set stream := [rtr, false, false] ++ rest
  have hread : readBits 11 (0 : BitVec 29) (bitsDown canId 0 11 ++ stream) = (canId, stream) := by
    refine Prod.ext ?_ (readBits_bitsDown_rest 0 canId 0 11 stream)
    apply BitVec.eq_of_getLsbD_eq
    intro i hi
    rw [getLsbD_readBits_bitsDown 0 canId 0 11 stream hi]
    by_cases h : i < 11
    · simp [h]
    · have hlow : canId.toNat < 2 ^ i :=
        lt_of_lt_of_le hid (Nat.pow_le_pow_right (n := 2) (by decide) (by omega : 11 ≤ i))
      simp [h, BitVec.getLsbD, Nat.testBit_lt_two_pow hlow]
  unfold parseArbitration
  rw [hread]
  simp [stream, nextBit]

/-- The identifier the parser assembles for an extended frame. -/
def overwrittenId (canId : BitVec 29) : BitVec 29 := (canId.setWidth 18).setWidth 29

theorem overwrittenId_eq_iff (canId : BitVec 29) :
    overwrittenId canId = canId ↔ canId.toNat < 2 ^ 18 := by
  unfold overwrittenId
  rw [← BitVec.toNat_inj, BitVec.toNat_setWidth, BitVec.toNat_setWidth]
  have := canId.isLt
  omega

/-- Of an extended identifier only the low part survives: the second loop assigns
`can_id[17:0]` again. RTR and IDE are read as sent. -/
theorem parseArbitration_ext (canId : BitVec 29) (rtr : Bool) (rest : List Bool) :
    parseArbitration (bitsDown canId 18 11 ++ ([true, true] ++
        (bitsDown canId 0 18 ++ ([rtr, false, false] ++ rest)))) =
      (overwrittenId canId, rtr, true, rest) := by
  set low := bitsDown canId 0 18 ++ ([rtr, false, false] ++ rest)
  set stream := [rtr, false, false] ++ rest
  obtain ⟨high, hhigh⟩ : ∃ high, readBits 11 (0 : BitVec 29)
      (bitsDown canId 18 11 ++ ([true, true] ++ low)) = (high, [true, true] ++ low) :=
    ⟨_, Prod.ext rfl (readBits_bitsDown_rest 0 canId 18 11 ([true, true] ++ low))⟩
  have hfst : (readBits 11 (0 : BitVec 29)
      (bitsDown canId 18 11 ++ ([true, true] ++ low))).1 = high := congrArg Prod.fst hhigh
  have hlow : readBits 18 high low = (overwrittenId canId, stream) := by
    refine Prod.ext ?_ (readBits_bitsDown_rest high canId 0 18 stream)
    apply BitVec.eq_of_getLsbD_eq
    intro i hi
    rw [getLsbD_readBits_bitsDown high canId 0 18 stream hi, ← hfst,
      getLsbD_readBits_bitsDown 0 canId 18 11 _ hi]
    unfold overwrittenId
    by_cases h : i < 18
    · simp [h, hi]
    · have h11 : ¬ i < 11 := by omega
      simp [h, h11]
  unfold parseArbitration
  rw [hhigh]
  simp [nextBit, hlow, stream]

/-! ### DLC -/

/-- Four bits as a DLC, most significant first. -/
def nibble (a b c d : Bool) : BitVec 4 := setBit (setBit (setBit (setBit 0 3 a) 2 b) 1 c) 0 d

/-- Positions the stream no longer reaches stay zero. -/
theorem readBits_dlc_two (a b : Bool) (rest : List Bool) :
    readBits 4 (0 : BitVec 4) (a :: b :: rest) =
      (nibble a b (rest[0]?.getD false) (rest[1]?.getD false), rest.drop 2) := by
  match rest with
  | [] => cases a <;> cases b <;> rfl
  | [c] => cases a <;> cases b <;> cases c <;> rfl
  | c :: d :: rest => rfl

theorem readBits_dlc_three (a b c : Bool) (rest : List Bool) :
    readBits 4 (0 : BitVec 4) (a :: b :: c :: rest) =
      (nibble a b c (rest[0]?.getD false), rest.drop 1) := by
  match rest with
  | [] => cases a <;> cases b <;> cases c <;> rfl
  | d :: rest => rfl

/-- A DLC read one bit late is the DLC itself only if all five bits are equal. -/
theorem nibble_shift_one (d : BitVec 4) (x : Bool) :
    nibble (d.getLsbD 2) (d.getLsbD 1) (d.getLsbD 0) x = d ↔
      d = 0 ∧ x = false ∨ d = 15 ∧ x = true := by
  revert d x; decide

/-- A DLC read two bits late is the DLC itself only if it is 0 or 5, extended with
period two. -/
theorem nibble_shift_two (d : BitVec 4) (x y : Bool) (h : d.getLsbD 3 = false) :
    nibble (d.getLsbD 1) (d.getLsbD 0) x y = d ↔
      d = 0 ∧ x = false ∧ y = false ∨ d = 5 ∧ x = false ∧ y = true := by
  revert d x y; decide

/-! ### Payload -/

/-- Read where it starts, a payload of known bytes comes back unchanged. -/
theorem readBytes_byteValues (data : List LogicByte) (known : ∀ b ∈ data, b ≠ none)
    (tail : List Bool) : readBytes data.length (byteValues data ++ tail) = data := by
  induction data with
  | nil => rfl
  | cons b data ih =>
    obtain ⟨x, rfl⟩ := Option.ne_none_iff_exists'.mp (known b List.mem_cons_self)
    have hsplit : byteValues (some x :: data) ++ tail =
        bitsDown x 0 8 ++ (byteValues data ++ tail) := by
      rw [← List.append_assoc]; rfl
    have hlen : 7 < (bitsDown x 0 8 ++ (byteValues data ++ tail)).length := by
      simp only [List.length_append, length_bitsDown]
      omega
    have hdrop : (bitsDown x 0 8 ++ (byteValues data ++ tail)).drop 8 = byteValues data ++ tail :=
      List.drop_left' (length_bitsDown x 0 8)
    rw [List.length_cons, hsplit]
    simp only [readBytes, hlen, if_true, readBits_bitsDown, hdrop]
    rw [ih fun b hb => known b (List.mem_cons_of_mem _ hb)]

/-- A byte that starts `01` and is read two bits late is the byte itself only if it
is `0x55` and the next bits are `01` again. -/
theorem shifted_byte_iff (a : BitVec 8) (x y : Bool) (rest : List Bool)
    (h7 : a.getLsbD 7 = false) (h6 : a.getLsbD 6 = true) :
    (readBits 8 (0 : BitVec 8) (bitsDown a 0 6 ++ x :: y :: rest)).1 = a ↔
      a = 0x55 ∧ x = false ∧ y = true := by
  simp only [bitsDown, List.cons_append, List.nil_append, readBits]
  revert a x y
  decide +kernel

/-- The payload stream without its first two bits. -/
theorem byteValues_cons_drop_two (a : BitVec 8) (data : List LogicByte) (tail : List Bool) :
    (byteValues (some a :: data) ++ tail).drop 2 =
      bitsDown a 0 6 ++ (byteValues data ++ tail) := by
  have hsplit : byteValues (some a :: data) ++ tail =
      bitsDown a 0 8 ++ (byteValues data ++ tail) := by
    rw [← List.append_assoc]; rfl
  rw [hsplit]
  rfl

/-- When fewer than two bits follow, the last byte is not complete and stays x. -/
theorem readBytes_shifted_last (a : BitVec 8) (n : Nat) {rest : List Bool} (h : rest.length < 2) :
    readBytes (n + 1) (bitsDown a 0 6 ++ rest) = List.replicate (n + 1) none := by
  have hshort : ¬ 7 < (bitsDown a 0 6 ++ rest).length := by
    rw [List.length_append, length_bitsDown]
    omega
  rw [readBytes, if_neg hshort]

/-- Otherwise it takes the first two of them. -/
theorem readBytes_shifted_cons (a : BitVec 8) (n : Nat) (x y : Bool) (rest : List Bool) :
    readBytes (n + 1) (bitsDown a 0 6 ++ x :: y :: rest) =
      some (readBits 8 (0 : BitVec 8) (bitsDown a 0 6 ++ x :: y :: rest)).1 ::
        readBytes n rest := by
  have hlong : 7 < (bitsDown a 0 6 ++ x :: y :: rest).length := by
    simp only [List.length_append, length_bitsDown, List.length_cons]
    omega
  rw [readBytes, if_pos hlong]
  rfl

/-- A payload of `0x55` bytes before `01` starts with `01`. -/
theorem repeats_head {data : List LogicByte} {tail : List Bool} (hall : ∀ b ∈ data, b = some 0x55)
    (h0 : tail[0]? = some false) (h1 : tail[1]? = some true) :
    (byteValues data ++ tail)[0]? = some false ∧ (byteValues data ++ tail)[1]? = some true := by
  cases data with
  | nil => exact ⟨h0, h1⟩
  | cons b data =>
    rw [hall b List.mem_cons_self]
    exact ⟨rfl, rfl⟩

/-- Read two bits late, a payload whose first bits are `01` comes back unchanged
only if it is `0x55` throughout and `01` follows it. -/
theorem readBytes_shifted_iff (data : List LogicByte) (known : ∀ b ∈ data, b ≠ none)
    (tail : List Bool) (h0 : (byteValues data ++ tail)[0]? = some false)
    (h1 : (byteValues data ++ tail)[1]? = some true) :
    readBytes data.length ((byteValues data ++ tail).drop 2) = data ↔
      (∀ b ∈ data, b = some 0x55) ∧ tail[0]? = some false ∧ tail[1]? = some true := by
  induction data with
  | nil =>
    have hnil : byteValues [] = [] := rfl
    rw [hnil, List.nil_append] at h0 h1
    simp [readBytes, h0, h1]
  | cons b data ih =>
    obtain ⟨a, rfl⟩ := Option.ne_none_iff_exists'.mp (known b List.mem_cons_self)
    have ih := ih fun b hb => known b (List.mem_cons_of_mem _ hb)
    have h7 : a.getLsbD 7 = false := Option.some.inj h0
    have h6 : a.getLsbD 6 = true := Option.some.inj h1
    rw [byteValues_cons_drop_two, List.length_cons]
    rcases hnext : byteValues data ++ tail with _ | ⟨x, _ | ⟨y, rest⟩⟩
    case cons.cons =>
      have hread := shifted_byte_iff a x y rest h7 h6
      rw [readBytes_shifted_cons, List.cons.injEq, Option.some.injEq, hread,
        List.forall_mem_cons, Option.some.injEq]
      rw [hnext] at ih
      constructor
      · rintro ⟨⟨ha, rfl, rfl⟩, hrest⟩
        obtain ⟨hall, htail⟩ := (ih rfl rfl).mp hrest
        exact ⟨⟨ha, hall⟩, htail⟩
      · rintro ⟨⟨ha, hall⟩, htail⟩
        obtain ⟨hx, hy⟩ := repeats_head hall htail.1 htail.2
        rw [hnext] at hx hy
        obtain rfl : x = false := Option.some.inj hx
        obtain rfl : y = true := Option.some.inj hy
        exact ⟨⟨ha, rfl, rfl⟩, (ih rfl rfl).mpr ⟨hall, htail⟩⟩
    all_goals
      -- the payload ends here: its last byte stays x, and no `01` follows it
      have hshort : (byteValues data ++ tail).length < 2 := by
        rw [hnext]
        simp
      rw [← hnext, readBytes_shifted_last a _ hshort, List.replicate_succ]
      rw [List.length_append] at hshort
      have htail : tail[1]? = none := List.getElem?_eq_none (by omega)
      simp [htail]

/-! ### The round trip -/

/-- What the parser reports after the SOF bit, given how its three stages read the
stream. -/
theorem parseFields_eq (dir : CanDirection) (sof : Bool) {bits rest rest' rest'' : List Bool}
    {canId : BitVec 29} {rtr ide fdf brs esi : Bool} {dlc : BitVec 4}
    (harb : parseArbitration bits = (canId, rtr, ide, rest))
    (hctl : parseControl rest = (fdf, brs, esi, rest'))
    (hdlc : readBits 4 (0 : BitVec 4) rest' = (dlc, rest'')) :
    parseFields dir (sof :: bits) = if (sof :: bits).length < 20 then none else some {
      frameType := frameTypeOf fdf rtr ide
      canId, dlc, brs, esi, ide, rtr, fdf
      data := if !rtr && decide (0 < dlcToBytes dlc) then readBytes (dlcToBytes dlc) rest'' else []
      direction := dir
      bitCount := (sof :: bits).length } := by
  simp only [parseFields, List.drop_succ_cons, List.drop_zero, harb, hctl, hdlc]

/-- A stream long enough is parsed; what remains is to compare the report. -/
theorem roundTrips_of_parse {dir : CanDirection} {tr fr : CanphyTrans} {tail bits : List Bool}
    (hstream : bitStreamValues tr ++ tail = bits)
    (hparse : parseFields dir bits = if bits.length < 20 then none else some fr) :
    RoundTrips dir tr tail ↔ 20 ≤ bits.length ∧ Reports tr fr := by
  unfold RoundTrips
  rw [hstream, hparse]
  split
  · simp only [reduceCtorEq, false_and, exists_false, false_iff, not_and]
    omega
  · simp only [Option.some.injEq, exists_eq_left', iff_and_self]
    omega

section Shapes

variable (dir : CanDirection) (tr : FrameTrans) (tail : List Bool)

/-- When the kind of frame is read as it is, three fields remain to compare. -/
theorem roundTrips_iff_fields {bits rest rest' rest'' : List Bool} {canId : BitVec 29}
    {ide fdf brs esi : Bool} {dlc : BitVec 4}
    (hstream : bitStreamValues tr.toCanphyTrans ++ tail = false :: bits)
    (harb : parseArbitration bits = (canId, tr.rtr, ide, rest))
    (hctl : parseControl rest = (fdf, brs, esi, rest'))
    (hdlc : readBits 4 (0 : BitVec 4) rest' = (dlc, rest''))
    (hide : tr.ide = ide) (hfdf : tr.fdf = fdf)
    (hfd : tr.fdf = true → brs = tr.brs ∧ esi = tr.esi) :
    RoundTrips dir tr.toCanphyTrans tail ↔ 20 ≤ (false :: bits).length ∧ canId = tr.canId ∧
      dlc = tr.dlc ∧ (if !tr.rtr && decide (0 < dlcToBytes dlc)
        then readBytes (dlcToBytes dlc) rest'' else []) = tr.data := by
  rw [roundTrips_of_parse hstream (parseFields_eq dir false harb hctl hdlc)]
  refine and_congr_right fun _ => ⟨fun hrep => ⟨hrep.canId, hrep.dlc, hrep.data⟩, ?_⟩
  rintro ⟨hid, hread, hdata⟩
  exact { frameType := by rw [tr.frameType_eq, hfdf, hide]
          canId := hid, ide := hide.symm, rtr := rfl, fdf := hfdf.symm, dlc := hread
          data := hdata, fd := hfd }

/-- A frame without payload sends no data field, and none is read for its DLC. -/
theorem no_dataField (h : tr.data = []) :
    dataValues tr.toCanphyTrans = [] ∧ (!tr.rtr && decide (0 < dlcToBytes tr.dlc)) = false := by
  constructor
  · unfold dataValues
    rw [h]
    split <;> rfl
  · cases hr : tr.rtr with
    | true => rfl
    | false =>
      have hlen := tr.length_data hr
      rw [h] at hlen
      simp [← hlen]

/-- Classic frames with DLC 0, or with a DLC over 8, have no payload. -/
theorem data_of_dlc (hfdf : tr.fdf = false) (h : tr.dlc = 0 ∨ ¬ tr.dlc ≤ 8) : tr.data = [] := by
  cases hr : tr.rtr with
  | true => exact tr.data_of_rtr hr
  | false =>
    rcases h with h | h
    · exact List.length_eq_zero_iff.mp (by rw [tr.length_data hr, h]; rfl)
    · exact absurd (tr.dlc_le hfdf hr) h

/-- A classic frame sends nothing between its control bits and the DLC. -/
theorem fdValues_classic (hfdf : tr.fdf = false) : fdValues tr.toCanphyTrans = [] := by
  simp [fdValues, hfdf]

/-! ### Standard frames -/

/-- The stream of a standard frame, field by field. -/
theorem bitStreamValues_std (hide : tr.ide = false) :
    bitStreamValues tr.toCanphyTrans ++ tail = false :: (bitsDown tr.canId 0 11 ++
      ([tr.rtr, false, false] ++ (fdValues tr.toCanphyTrans ++ (bitsDown tr.dlc 0 4 ++
        (dataValues tr.toCanphyTrans ++ tail))))) := by
  simp [bitStreamValues, arbitrationValues, hide]

/-- The parser takes `r0` for FDF: an FD frame is reported as a classic one. -/
theorem not_roundTrips_std_fd (hide : tr.ide = false) (hfdf : tr.fdf = true) :
    ¬ RoundTrips dir tr.toCanphyTrans tail := by
  have harb := parseArbitration_std (tr.canId_lt hide) tr.rtr
    (fdValues tr.toCanphyTrans ++ (bitsDown tr.dlc 0 4 ++ (dataValues tr.toCanphyTrans ++ tail)))
  rw [roundTrips_of_parse (bitStreamValues_std tr tail hide) (parseFields_eq dir false harb rfl rfl)]
  rintro ⟨-, hrep⟩
  have hfd : false = true := hrep.fdf.trans hfdf
  cases hfd

/-- A classic frame has its first DLC bit skipped: it survives iff the DLC and the bit
after it are five equal bits. -/
theorem roundTrips_std_classic (hide : tr.ide = false) (hfdf : tr.fdf = false) :
    RoundTrips dir tr.toCanphyTrans tail ↔
      tr.dlc = 0 ∧ tail[0]? = some false ∨ tr.dlc = 15 ∧ tail[0]? = some true := by
  have hstream := bitStreamValues_std tr tail hide
  set payload := dataValues tr.toCanphyTrans ++ tail with hpayload
  rw [fdValues_classic tr hfdf, List.nil_append] at hstream
  have harb := parseArbitration_std (tr.canId_lt hide) tr.rtr (bitsDown tr.dlc 0 4 ++ payload)
  have hdlc := readBits_dlc_three (tr.dlc.getLsbD 2) (tr.dlc.getLsbD 1) (tr.dlc.getLsbD 0) payload
  have hlen : (false :: (bitsDown tr.canId 0 11 ++ ([tr.rtr, false, false] ++
      (bitsDown tr.dlc 0 4 ++ payload)))).length = 19 + payload.length := by
    simp only [List.length_cons, List.length_append, length_bitsDown, List.length_nil]
    omega
  have hclassic : tr.fdf ≠ true := by rw [hfdf]; exact Bool.false_ne_true
  rw [roundTrips_iff_fields dir tr tail hstream harb rfl hdlc hide hfdf (absurd · hclassic), hlen]
  have hshift := nibble_shift_one tr.dlc (payload[0]?.getD false)
  -- neither DLC comes with a payload, so the next bit is the first of the tail
  have hnone : tr.dlc = 0 ∨ tr.dlc = 15 → tr.data = [] := fun h =>
    data_of_dlc tr hfdf (h.imp_right fun h15 => by rw [h15]; decide)
  constructor
  · rintro ⟨h20, -, hread, -⟩
    have hcase := hshift.mp hread
    have hdata := hnone (hcase.imp And.left And.left)
    rw [(no_dataField tr hdata).1, List.nil_append] at hpayload
    rw [hpayload] at hcase h20
    cases htail : tail with
    | nil =>
      rw [htail] at h20
      simp at h20
    | cons x tail => simpa [htail] using hcase
  · intro hcase
    have hdata := hnone (hcase.imp And.left And.left)
    rw [(no_dataField tr hdata).1, List.nil_append] at hpayload
    have htail : tail ≠ [] := by
      rintro rfl
      simp at hcase
    have hpos : 0 < payload.length := by
      rw [hpayload]
      exact List.length_pos_iff.mpr htail
    have hread : nibble (tr.dlc.getLsbD 2) (tr.dlc.getLsbD 1) (tr.dlc.getLsbD 0)
        (payload[0]?.getD false) = tr.dlc := by
      rw [hshift, hpayload]
      exact hcase.imp (And.imp_right fun h => by rw [h]; rfl) (And.imp_right fun h => by rw [h]; rfl)
    rw [hread, (no_dataField tr hdata).2]
    exact ⟨by omega, rfl, rfl, hdata.symm⟩

/-! ### Extended frames -/

/-- `[0, 1]` at the head of a stream, with positions past its end read as 0. -/
theorem getD_zero_one_iff (bits : List Bool) :
    bits[0]?.getD false = false ∧ bits[1]?.getD false = true ↔
      bits[0]? = some false ∧ bits[1]? = some true := by
  match bits with
  | [] => simp
  | [_] => simp
  | _ :: _ :: _ => simp

/-- With DLC 5 the shifted reading returns the payload exactly when the payload and
the two bits after it repeat `01`. -/
theorem shifted_dataField_iff (h5 : tr.dlc = 5) :
    (dataValues tr.toCanphyTrans ++ tail)[0]?.getD false = false ∧
      (dataValues tr.toCanphyTrans ++ tail)[1]?.getD false = true ∧
      (if !tr.rtr && decide (0 < dlcToBytes tr.dlc)
        then readBytes (dlcToBytes tr.dlc) ((dataValues tr.toCanphyTrans ++ tail).drop 2)
        else []) = tr.data ↔
    tail[0]? = some false ∧ tail[1]? = some true ∧ ∀ b ∈ tr.data, b = some 0x55 := by
  rw [← and_assoc, getD_zero_one_iff]
  cases hr : tr.rtr with
  | true =>
    have hdata := tr.data_of_rtr hr
    have hsent : dataValues tr.toCanphyTrans = [] := by simp [dataValues, hr]
    simp [hdata, hsent]
  | false =>
    have hsent : dataValues tr.toCanphyTrans = byteValues tr.data := by simp [dataValues, hr]
    have hlen := tr.length_data hr
    have hpos : decide (0 < dlcToBytes tr.dlc) = true := by rw [h5]; rfl
    rw [hsent, ← hlen] at *
    simp only [Bool.not_false, Bool.true_and, hpos, if_true]
    constructor
    · rintro ⟨⟨h0, h1⟩, hread⟩
      have := (readBytes_shifted_iff tr.data tr.known tail h0 h1).mp hread
      exact ⟨this.2.1, this.2.2, this.1⟩
    · rintro ⟨h0, h1, hall⟩
      have hhead := repeats_head hall h0 h1
      exact ⟨hhead, (readBytes_shifted_iff tr.data tr.known tail hhead.1 hhead.2).mpr
        ⟨hall, h0, h1⟩⟩

/-- The stream of an extended frame, field by field. -/
theorem bitStreamValues_ext (hide : tr.ide = true) :
    bitStreamValues tr.toCanphyTrans ++ tail = false :: (bitsDown tr.canId 18 11 ++
      ([true, true] ++ (bitsDown tr.canId 0 18 ++ ([tr.rtr, false, false] ++
        (fdValues tr.toCanphyTrans ++ (bitsDown tr.dlc 0 4 ++
          (dataValues tr.toCanphyTrans ++ tail))))))) := by
  simp [bitStreamValues, arbitrationValues, hide]

/-- Every extended frame is long enough to be parsed. -/
theorem length_bitStreamValues_ext (hide : tr.ide = true) :
    20 ≤ (bitStreamValues tr.toCanphyTrans ++ tail).length := by
  rw [bitStreamValues_ext tr tail hide]
  simp only [List.length_cons, List.length_append, length_bitsDown, List.length_nil]
  omega

/-- The fields of an FD frame are in their place; only the high identifier bits are
lost. -/
theorem roundTrips_ext_fd (hide : tr.ide = true) (hfdf : tr.fdf = true) :
    RoundTrips dir tr.toCanphyTrans tail ↔ tr.canId.toNat < 2 ^ 18 := by
  have hstream := bitStreamValues_ext tr tail hide
  have h20 := length_bitStreamValues_ext tr tail hide
  have hrtr := tr.rtr_of_fdf hfdf
  set payload := dataValues tr.toCanphyTrans ++ tail with hpayload
  have harb := parseArbitration_ext tr.canId tr.rtr
    (fdValues tr.toCanphyTrans ++ (bitsDown tr.dlc 0 4 ++ payload))
  have hctl : parseControl (fdValues tr.toCanphyTrans ++ (bitsDown tr.dlc 0 4 ++ payload)) =
      (true, tr.brs, tr.esi, bitsDown tr.dlc 0 4 ++ payload) := by
    simp [fdValues, hfdf, parseControl, nextBit]
  have hdlc := readBits_bitsDown 0 tr.dlc payload
  rw [hstream] at h20
  rw [roundTrips_iff_fields dir tr tail hstream harb hctl hdlc hide hfdf fun _ => ⟨rfl, rfl⟩,
    ← overwrittenId_eq_iff]
  constructor
  · exact fun h => h.2.1
  · intro hid
    have hdata : (if !tr.rtr && decide (0 < dlcToBytes tr.dlc)
        then readBytes (dlcToBytes tr.dlc) payload else []) = tr.data := by
      have hsent : payload = byteValues tr.data ++ tail := by
        simp [payload, dataValues, hrtr]
      rw [← tr.length_data hrtr, hsent, readBytes_byteValues tr.data tr.known tail, hrtr]
      cases tr.data <;> simp
    exact ⟨h20, hid, rfl, hdata⟩

/-- The parser reads FDF where a classic frame has its first DLC bit. -/
theorem parseControl_dlc (d : BitVec 4) (rest : List Bool) :
    parseControl (bitsDown d 0 4 ++ rest) =
      if d.getLsbD 3 then (true, d.getLsbD 2, d.getLsbD 1, d.getLsbD 0 :: rest)
      else (false, false, false, d.getLsbD 1 :: d.getLsbD 0 :: rest) := by
  show parseControl (d.getLsbD 3 :: d.getLsbD 2 :: d.getLsbD 1 :: d.getLsbD 0 :: rest) = _
  cases d.getLsbD 3 with
  | true => rfl
  | false => rfl

/-- A classic frame with a DLC over 7 has its first DLC bit taken for FDF. -/
theorem not_roundTrips_ext_of_dlc (hide : tr.ide = true) (hfdf : tr.fdf = false)
    (h3 : tr.dlc.getLsbD 3 = true) : ¬ RoundTrips dir tr.toCanphyTrans tail := by
  have hstream := bitStreamValues_ext tr tail hide
  set payload := dataValues tr.toCanphyTrans ++ tail with hpayload
  rw [fdValues_classic tr hfdf, List.nil_append] at hstream
  have harb := parseArbitration_ext tr.canId tr.rtr (bitsDown tr.dlc 0 4 ++ payload)
  have hctl : parseControl (bitsDown tr.dlc 0 4 ++ payload) =
      (true, tr.dlc.getLsbD 2, tr.dlc.getLsbD 1, tr.dlc.getLsbD 0 :: payload) := by
    rw [parseControl_dlc, if_pos h3]
  rw [roundTrips_of_parse hstream (parseFields_eq dir false harb hctl rfl)]
  rintro ⟨-, hrep⟩
  have hfd' : true = false := hrep.fdf.trans hfdf
  cases hfd'

/-- Any other classic frame has its first DLC bit taken for FDF = 0 and the second one
skipped. -/
theorem roundTrips_ext_classic (hide : tr.ide = true) (hfdf : tr.fdf = false)
    (h3 : tr.dlc.getLsbD 3 = false) :
    RoundTrips dir tr.toCanphyTrans tail ↔
      tr.canId.toNat < 2 ^ 18 ∧
        (tr.dlc = 0 ∧ tail[0]?.getD false = false ∧ tail[1]?.getD false = false ∨
          tr.dlc = 5 ∧ tail[0]? = some false ∧ tail[1]? = some true ∧
            ∀ b ∈ tr.data, b = some 0x55) := by
  have hstream := bitStreamValues_ext tr tail hide
  have h20 := length_bitStreamValues_ext tr tail hide
  set payload := dataValues tr.toCanphyTrans ++ tail with hpayload
  rw [fdValues_classic tr hfdf, List.nil_append] at hstream
  have harb := parseArbitration_ext tr.canId tr.rtr (bitsDown tr.dlc 0 4 ++ payload)
  have hctl : parseControl (bitsDown tr.dlc 0 4 ++ payload) =
      (false, false, false, tr.dlc.getLsbD 1 :: tr.dlc.getLsbD 0 :: payload) := by
    rw [parseControl_dlc, h3, if_neg Bool.false_ne_true]
  have hdlc := readBits_dlc_two (tr.dlc.getLsbD 1) (tr.dlc.getLsbD 0) payload
  rw [hstream] at h20
  have hclassic : tr.fdf ≠ true := by rw [hfdf]; exact Bool.false_ne_true
  rw [roundTrips_iff_fields dir tr tail hstream harb hctl hdlc hide hfdf (absurd · hclassic),
    ← overwrittenId_eq_iff]
  have hshift := nibble_shift_two tr.dlc (payload[0]?.getD false) (payload[1]?.getD false) h3
  have hnone : tr.dlc = 0 → tr.data = [] := fun h => data_of_dlc tr hfdf (Or.inl h)
  constructor
  · rintro ⟨-, hid, hread, hdata⟩
    rw [hread] at hdata
    refine ⟨hid, ?_⟩
    rcases hshift.mp hread with ⟨h0, hx, hy⟩ | ⟨h5, hx, hy⟩
    · left
      rw [hpayload, (no_dataField tr (hnone h0)).1, List.nil_append] at hx hy
      exact ⟨h0, hx, hy⟩
    · right
      exact ⟨h5, (shifted_dataField_iff tr tail h5).mp ⟨hx, hy, hdata⟩⟩
  · rintro ⟨hid, hcase⟩
    have hread : (tr.dlc = 0 ∧ payload[0]?.getD false = false ∧ payload[1]?.getD false = false ∨
          tr.dlc = 5 ∧ payload[0]?.getD false = false ∧ payload[1]?.getD false = true) ∧
        (if !tr.rtr && decide (0 < dlcToBytes tr.dlc)
          then readBytes (dlcToBytes tr.dlc) (payload.drop 2) else []) = tr.data := by
      rcases hcase with ⟨h0, hx, hy⟩ | ⟨h5, htail⟩
      · have hsent := no_dataField tr (hnone h0)
        rw [hpayload, hsent.1, List.nil_append, hsent.2, hnone h0]
        exact ⟨Or.inl ⟨h0, hx, hy⟩, rfl⟩
      · have hsent := (shifted_dataField_iff tr tail h5).mpr htail
        exact ⟨Or.inr ⟨h5, hsent.1, hsent.2.1⟩, hsent.2.2⟩
    rw [hshift.mpr hread.1]
    exact ⟨h20, hid, rfl, hread.2⟩

/-- **Exactly the frames whose layouts agree survive the round trip.** -/
theorem roundTrips_iff :
    RoundTrips dir tr.toCanphyTrans tail ↔ LayoutsAgree tr.toCanphyTrans tail := by
  unfold LayoutsAgree
  cases hfdf : tr.fdf with
  | true =>
    cases hide : tr.ide with
    | false =>
      have hfail := not_roundTrips_std_fd dir tr tail hide hfdf
      simp [hfail]
    | true =>
      have hext := roundTrips_ext_fd dir tr tail hide hfdf
      simp [hext]
  | false =>
    cases hide : tr.ide with
    | false =>
      have hstd := roundTrips_std_classic dir tr tail hide hfdf
      simpa using hstd
    | true =>
      cases h3 : tr.dlc.getLsbD 3 with
      | false =>
        have hext := roundTrips_ext_classic dir tr tail hide hfdf h3
        simpa using hext
      | true =>
        have hfail := not_roundTrips_ext_of_dlc dir tr tail hide hfdf h3
        simp only [Bool.false_eq_true, if_false, if_true]
        refine iff_of_false hfail ?_
        rintro ⟨-, ⟨h0, -⟩ | ⟨h5, -⟩⟩
        · rw [h0] at h3
          cases h3
        · rw [h5] at h3
          cases h3

end Shapes

/-- A standard data frame with two payload bytes. -/
def stdDataFrame : FrameTrans where
  canId := 0x123
  dlc := 2
  data := [some 0x11, some 0x22]
  dataOrRemote := rfl
  consistent := by decide +kernel
  sized := by decide
  known := by simp

/-- Its DLC is read one bit late, as 4. -/
theorem stdDataFrame_not_roundTrips :
    ¬ RoundTrips .canDirRx stdDataFrame.toCanphyTrans
      (List.replicate 15 false ++ List.replicate 10 true) := by
  rintro ⟨fr, hparse, hrep⟩
  have hread : (parseFields .canDirRx (bitStreamValues stdDataFrame.toCanphyTrans ++
      (List.replicate 15 false ++ List.replicate 10 true))).map (·.dlc) = some 4 := by decide +kernel
  rw [hparse, Option.map_some, hrep.dlc] at hread
  exact absurd hread (by decide)

end Testbench.Canphy
