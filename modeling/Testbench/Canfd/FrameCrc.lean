import Testbench.Canphy.DriveFrame

/-!
`calc_frame_crc` of the reference model (`canfd/env/canfd_ref_model.sv`) and the CRC the
driver sends.

Both are the shift register of `Lib.Crc` kept in a wider word (`calcCrc_eq`,
`calcFrameCrc_eq`). They choose the register from different inputs: the driver from the
FD flag, the model also from the payload length. `crc_agree_iff` says on which frames
that makes no difference.
-/

namespace Testbench.Canfd

open Testbench.Lib Testbench.Canphy

/-- `CRC15_POLY`. -/
def crc15Poly : BitVec 15 := 0x4599

/-- `CRC17_POLY`. -/
def crc17Poly : BitVec 17 := 0x1685B

/-- `CRC21_POLY`. -/
def crc21Poly : BitVec 21 := 0x102899

/-- `crc_width` of `calc_frame_crc`. -/
def frameCrcWidth (isFd : Bool) (dataLen : Nat) : Nat :=
  if !isFd then 15 else if dataLen ≤ 16 then 17 else 21

/-- The `case` over `crc_width`: what a feedback bit subtracts. -/
def frameCrcPoly (width : Nat) : BitVec 21 :=
  match width with
  | 15 => crc15Poly.setWidth 21
  | 17 => crc17Poly.setWidth 21
  | 21 => crc21Poly
  | _ => 0

/-- One iteration of the loop of `calc_frame_crc`. -/
def calcFrameCrcStep (width : Nat) (crc : BitVec 21) (b : Bool) : BitVec 21 :=
  let feed := b ^^ crc.getLsbD (width - 1)
  let crc := ((crc.setWidth 32 <<< 1) &&& ((1#32 <<< width) - 1#32)).setWidth 21
  if feed then crc ^^^ frameCrcPoly width else crc

/-- `calc_frame_crc`. -/
def calcFrameCrc (bitStream : List Bool) (isFd : Bool) (dataLen : Nat) : BitVec 21 :=
  bitStream.foldl (calcFrameCrcStep (frameCrcWidth isFd dataLen)) 0

/-- The CRC bits the reference model prescribes, most significant first. -/
def frameCrcValues (bitStream : List Bool) (isFd : Bool) (dataLen : Nat) : List Bool :=
  bitsDown (calcFrameCrc bitStream isFd dataLen) 0 (frameCrcWidth isFd dataLen)

/-! ### Both are the same register -/

theorem calcCrcStep_setWidth {n : Nat} (hn : n ≤ 17) (poly x : BitVec n) (b : Bool) :
    calcCrcStep n (poly.setWidth 17) (x.setWidth 17) b = (crcStep poly x b).setWidth 17 := by
  have htop : (x.setWidth 17).getLsbD (n - 1) = x.getLsbD (n - 1) := by
    rw [BitVec.getLsbD_setWidth, decide_eq_true (by omega), Bool.true_and]
  unfold calcCrcStep crcStep
  rw [htop]
  split
  · exact wide_shift_xor hn (by omega) x poly
  · exact wide_shift hn (by omega) x

theorem calcFrameCrcStep_setWidth {n : Nat} (hn : n ≤ 21) {poly : BitVec n}
    (hpoly : frameCrcPoly n = poly.setWidth 21) (x : BitVec n) (b : Bool) :
    calcFrameCrcStep n (x.setWidth 21) b = (crcStep poly x b).setWidth 21 := by
  have htop : (x.setWidth 21).getLsbD (n - 1) = x.getLsbD (n - 1) := by
    rw [BitVec.getLsbD_setWidth, decide_eq_true (by omega), Bool.true_and]
  have hshift := wide_shift (v := 32) hn (by omega) x
  simp only [calcFrameCrcStep, crcStep, htop, hpoly, hshift]
  split
  · rw [BitVec.setWidth_xor]
  · rfl

/-- The bits the driver sends are the remainder for its choice of generator. -/
theorem crcValues_eq (bits : List Bool) (fdf : Bool) :
    crcValues bits fdf =
      if fdf then bitsDown (crc crc17Poly bits) 0 17 else bitsDown (crc crc15Poly bits) 0 15 := by
  cases fdf with
  | false =>
    have hfold := foldl_setWidth (calcCrcStep_setWidth (n := 15) (by decide) crc15Poly) bits
    exact (congrArg (bitsDown · 0 15) hfold).trans (bitsDown_setWidth _ (by decide))
  | true =>
    have hfold := foldl_setWidth (calcCrcStep_setWidth (n := 17) (by decide) crc17Poly) bits
    exact (congrArg (bitsDown · 0 17) hfold).trans (bitsDown_setWidth _ (by decide))

/-- The bits the reference model asks for are the remainder for its choice. -/
theorem frameCrcValues_eq (bits : List Bool) (fdf : Bool) (dataLen : Nat) :
    frameCrcValues bits fdf dataLen =
      if !fdf then bitsDown (crc crc15Poly bits) 0 15
      else if dataLen ≤ 16 then bitsDown (crc crc17Poly bits) 0 17
      else bitsDown (crc crc21Poly bits) 0 21 := by
  have hregister : ∀ {n : Nat} (poly : BitVec n), n ≤ 21 → frameCrcPoly n = poly.setWidth 21 →
      bitsDown (bits.foldl (calcFrameCrcStep n) 0) 0 n = bitsDown (crc poly bits) 0 n := by
    intro n poly hn hpoly
    rw [foldl_setWidth (calcFrameCrcStep_setWidth hn hpoly) bits]
    exact bitsDown_setWidth _ (by omega)
  unfold frameCrcValues calcFrameCrc frameCrcWidth
  cases fdf with
  | false => exact hregister crc15Poly (by decide) rfl
  | true =>
    by_cases hlen : dataLen ≤ 16
    · simpa [hlen] using hregister crc17Poly (by decide) rfl
    · simpa [hlen] using hregister crc21Poly (by decide) rfl

/-! ### Agreement -/

/-- **The driver sends the CRC the reference model prescribes exactly for classic frames
and for FD frames with at most 16 payload bytes**, whatever bits it is computed over. -/
theorem crc_agree_iff (tr : FrameTrans) (bits : List Bool) :
    crcValues bits tr.fdf = frameCrcValues bits tr.fdf tr.data.length ↔
      tr.fdf = false ∨ tr.data.length ≤ 16 := by
  rw [crcValues_eq, frameCrcValues_eq]
  cases hfdf : tr.fdf with
  | false => simp
  | true =>
    by_cases hlen : tr.data.length ≤ 16
    · simp [hlen]
    · refine iff_of_false ?_ (by simp [hlen])
      intro heq
      have hlength := congrArg List.length heq
      simp [hlen] at hlength

/-- With twenty payload bytes the driver sends 17 bits of CRC instead of 21. -/
theorem longFdFrame_crc :
    crcValues (bitStreamValues longFdFrame.toCanphyTrans) longFdFrame.fdf ≠
      frameCrcValues (bitStreamValues longFdFrame.toCanphyTrans) longFdFrame.fdf
        longFdFrame.data.length := by
  intro h
  have hlength := congrArg List.length h
  exact absurd hlength (by decide +kernel)

end Testbench.Canfd
