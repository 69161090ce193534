import Mathlib

/-!
Cyclic redundancy checks.

`crcStep` is the shift register that divides a message by a generator polynomial, most
significant bit first, and `crc` the remainder it ends with. A program keeps the register
in a word of its own, shifts it at the width of the machine and masks it afterwards:
`wide_shift` and `wide_shift_xor` bring such a step back to the register, and
`foldl_setWidth` lifts that to messages.
-/

namespace Testbench.Lib

variable {n m v : Nat}

/-- One message bit: shift, and subtract the generator if the bit that leaves the
register differs from the message bit. -/
def crcStep (poly crc : BitVec n) (b : Bool) : BitVec n :=
  if b ^^ crc.getLsbD (n - 1) then (crc <<< 1) ^^^ poly else crc <<< 1

/-- The remainder of a message. -/
def crc (poly : BitVec n) (bits : List Bool) : BitVec n := bits.foldl (crcStep poly) 0

/-- A register kept in a wider word, fed the same message. -/
theorem foldl_setWidth {step : BitVec m → Bool → BitVec m} {poly : BitVec n}
    (hstep : ∀ x b, step (x.setWidth m) b = (crcStep poly x b).setWidth m) (bits : List Bool) :
    bits.foldl step 0 = (crc poly bits).setWidth m := by
  have hzero : (0 : BitVec n).setWidth m = 0 := BitVec.setWidth_zero m n
  have hfold : bits.foldl step ((0 : BitVec n).setWidth m) = (crc poly bits).setWidth m :=
    List.foldl_hom (BitVec.setWidth m) hstep
  rwa [hzero] at hfold

/-! ### One step in wider words -/

/-- The mask `(1 << n) - 1` has the low `n` bits. -/
theorem getLsbD_mask (h : n < v) (i : Nat) :
    ((1#v <<< n) - 1#v).getLsbD i = decide (i < n) := by
  have hlt : 1 < 2 ^ v := Nat.one_lt_two_pow (by omega)
  have hone : (1#v).toNat = 1 := by rw [BitVec.toNat_ofNat, Nat.mod_eq_of_lt hlt]
  have hshift : (1#v <<< n).toNat = 2 ^ n := by
    rw [BitVec.toNat_shiftLeft, hone, Nat.one_shiftLeft]
    exact Nat.mod_eq_of_lt (Nat.pow_lt_pow_right (by decide) h)
  have hle : 1#v ≤ 1#v <<< n := by
    rw [BitVec.le_def, hshift, hone]
    exact Nat.one_le_two_pow
  rw [BitVec.getLsbD, BitVec.toNat_sub_of_le hle, hshift, hone]
  exact Nat.testBit_two_pow_sub_one n i

/-- Masking a word to `n` bits keeps its low `n` bits and clears the others. -/
theorem and_mask (h : n < v) (x : BitVec v) :
    (x &&& ((1#v <<< n) - 1#v)).setWidth m = (x.setWidth n).setWidth m := by
  apply BitVec.eq_of_getLsbD_eq
  intro i hi
  by_cases hlow : i < n
  · have hi' : i < v := by omega
    simp [hi, hlow, getLsbD_mask h]
  · simp [hlow, getLsbD_mask h]

section Wide

variable (hm : n ≤ m) (h : n < v)
include hm h

/-- A shift at width `v` of a register kept in `m` bits, masked to its own `n` bits. -/
theorem wide_shift (x : BitVec n) :
    (((x.setWidth m).setWidth v <<< 1) &&& ((1#v <<< n) - 1#v)).setWidth m =
      (x <<< 1).setWidth m := by
  rw [and_mask h]
  congr 1
  apply BitVec.eq_of_getLsbD_eq
  intro i hi
  have hin : i - 1 < n := by omega
  have him : i - 1 < m := by omega
  have hiv : i < v := by omega
  simp [hi, him, hiv, BitVec.getLsbD_eq_getElem hin]

/-- The same shift with the generator subtracted before masking. -/
theorem wide_shift_xor (x poly : BitVec n) :
    ((((x.setWidth m).setWidth v <<< 1) ^^^ (poly.setWidth m).setWidth v) &&&
      ((1#v <<< n) - 1#v)).setWidth m = ((x <<< 1) ^^^ poly).setWidth m := by
  have hpoly : ((poly.setWidth m).setWidth v).setWidth n = poly := by
    rw [BitVec.setWidth_setWidth (by omega), BitVec.setWidth_setWidth (by omega),
      BitVec.setWidth_eq]
  have hshift := wide_shift hm h x
  rw [and_mask h] at hshift
  rw [and_mask h, BitVec.setWidth_xor, hpoly, BitVec.setWidth_xor, hshift, BitVec.setWidth_xor]

end Wide

end Testbench.Lib
