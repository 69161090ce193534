import Testbench.Lib.CrcPolynomial
import Testbench.Canfd.FrameCrc

/-!
`calc_frame_crc` of the reference model and `calc_crc` of the driver as division by the
generator polynomials `X ^ 15 + CRC15_POLY`, `X ^ 17 + CRC17_POLY` and
`X ^ 21 + CRC21_POLY`.
-/

namespace Testbench.Canfd

open Testbench.Lib Testbench.Canphy

variable {v w : Nat}

/-- `compute` returns the remainder of a message moved up by `w` modulo `X ^ w + poly`, in
a word that may be wider. -/
structure DividesBy (compute : List Bool → BitVec v) (poly : BitVec w) : Prop where
  remainder : ∀ b, regPoly (compute b) =
    (messagePoly b * Polynomial.X ^ w) %ₘ (Polynomial.X ^ w + regPoly poly)
  above : ∀ b i, w ≤ i → (compute b).getLsbD i = false
  linear : ∀ a b, a.length = b.length →
    compute (List.zipWith xor a b) = compute a ^^^ compute b
  check : ∀ b, compute (b ++ bitsDown (compute b) 0 w) = 0

/-- A copy of the register in a wider word divides as the register does. -/
theorem DividesBy.of_setWidth {compute : List Bool → BitVec v} {poly : BitVec w} (hw : 0 < w)
    (hle : w ≤ v) (h : ∀ b, compute b = (crc poly b).setWidth v) : DividesBy compute poly where
  remainder b := by
    rw [h, regPoly_setWidth hle]
    exact regPoly_crc hw poly b
  above b i hi := by
    rw [h, BitVec.getLsbD_setWidth, BitVec.getLsbD_of_ge _ i hi, Bool.and_false]
  linear a b hlen := by
    rw [h, h, h, crc_zipWith_xor hw poly hlen, BitVec.setWidth_xor]
  check b := by
    have hbits : bitsDown ((crc poly b).setWidth v) 0 w = bitsDown (crc poly b) 0 w :=
      bitsDown_setWidth _ (by omega)
    rw [h b, hbits, h, crc_append_self hw]
    exact BitVec.setWidth_zero v w

theorem calcFrameCrc_dividesBy {poly : BitVec w} (hw : 0 < w) (hle : w ≤ 21)
    (hpoly : frameCrcPoly w = poly.setWidth 21) {isFd : Bool} {dataLen : Nat}
    (hwidth : frameCrcWidth isFd dataLen = w) :
    DividesBy (calcFrameCrc · isFd dataLen) poly := by
  apply DividesBy.of_setWidth hw hle
  intro b
  rw [calcFrameCrc, hwidth]
  exact foldl_setWidth (calcFrameCrcStep_setWidth hle hpoly) b

/-- **Both CRC functions are division by their generator**, at every width and for every
message. -/
theorem crc_divides :
    (∀ dataLen, DividesBy (calcFrameCrc · false dataLen) crc15Poly) ∧
    (∀ dataLen, dataLen ≤ 16 → DividesBy (calcFrameCrc · true dataLen) crc17Poly) ∧
    (∀ dataLen, 16 < dataLen → DividesBy (calcFrameCrc · true dataLen) crc21Poly) ∧
    DividesBy (calcCrc · false) crc15Poly ∧ DividesBy (calcCrc · true) crc17Poly := by
  refine ⟨?_, ?_, ?_, ?_, ?_⟩
  · intro dataLen
    exact calcFrameCrc_dividesBy (by decide) (by decide) rfl rfl
  · intro dataLen hlen
    apply calcFrameCrc_dividesBy (by decide) (by decide) rfl
    simp [frameCrcWidth, hlen]
  · intro dataLen hlen
    apply calcFrameCrc_dividesBy (by decide) (by decide) rfl
    simp [frameCrcWidth, Nat.not_le.mpr hlen]
  · apply DividesBy.of_setWidth (by decide) (by decide)
    exact foldl_setWidth (calcCrcStep_setWidth (by decide) crc15Poly)
  · apply DividesBy.of_setWidth (by decide) (by decide)
    exact foldl_setWidth (calcCrcStep_setWidth (by decide) crc17Poly)

end Testbench.Canfd
