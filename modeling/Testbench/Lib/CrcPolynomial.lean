import Testbench.Lib.Bits
import Testbench.Lib.Crc

/-!
The shift register as polynomial division over GF(2).

`regPoly` reads a register as a polynomial of degree below its width, `messagePoly` a
message, first bit highest. One step of the register multiplies by `X` and adds the
message bit at the top, modulo the generator (`dvd_regPoly_crcStep`); `regPoly_crc` lifts
that to messages: the register ends with the remainder. Linearity and the check of a
message against its own CRC are facts about remainders.
-/

namespace Testbench.Lib

open Polynomial

variable {n : Nat}

/-- A bit as a constant polynomial. -/
noncomputable def bitPoly (b : Bool) : (ZMod 2)[X] := if b then 1 else 0

/-- A register, bit `i` the coefficient of `X ^ i`. -/
noncomputable def regPoly (x : BitVec n) : (ZMod 2)[X] :=
  ∑ i ∈ Finset.range n, bitPoly (x.getLsbD i) * X ^ i

/-- A message, its first bit the highest coefficient. -/
noncomputable def messagePoly (bits : List Bool) : (ZMod 2)[X] :=
  bits.foldl (fun p b => p * X + bitPoly b) 0

/-- The generator whose coefficients below the leading one are `poly`. -/
noncomputable def generator (poly : BitVec n) : (ZMod 2)[X] := X ^ n + regPoly poly

/-! ### Bits and registers -/

@[simp] theorem bitPoly_false : bitPoly false = 0 := rfl

@[simp] theorem bitPoly_true : bitPoly true = 1 := rfl

/-- Characteristic two. -/
theorem add_self_poly (p : (ZMod 2)[X]) : p + p = 0 := CharTwo.add_self_eq_zero p

theorem bitPoly_xor (a b : Bool) : bitPoly (a ^^ b) = bitPoly a + bitPoly b := by
  cases a <;> cases b <;> simp [add_self_poly]

theorem coeff_bitPoly_mul_X_pow (b : Bool) (i j : Nat) :
    (bitPoly b * X ^ i).coeff j = if j = i ∧ b = true then 1 else 0 := by
  cases b with
  | false => simp
  | true => simp [coeff_X_pow]

theorem coeff_regPoly (x : BitVec n) (i : Nat) :
    (regPoly x).coeff i = if x.getLsbD i = true then 1 else 0 := by
  unfold regPoly
  rw [finsetSum_coeff]
  simp only [coeff_bitPoly_mul_X_pow]
  by_cases hi : i < n
  · rw [Finset.sum_eq_single i]
    · simp
    · intro j _ hj
      rw [if_neg]
      exact fun h => hj h.1.symm
    · exact fun h => absurd (Finset.mem_range.mpr hi) h
  · rw [BitVec.getLsbD_of_ge x i (by omega), if_neg Bool.false_ne_true]
    apply Finset.sum_eq_zero
    intro j hj
    rw [if_neg]
    exact fun h => hi (h.1 ▸ Finset.mem_range.mp hj)

theorem degree_regPoly_lt (x : BitVec n) : (regPoly x).degree < n := by
  rw [degree_lt_iff_coeff_zero]
  intro i hi
  rw [coeff_regPoly, BitVec.getLsbD_of_ge x i hi, if_neg Bool.false_ne_true]

theorem regPoly_injective : Function.Injective (regPoly (n := n)) := by
  intro x y h
  apply BitVec.eq_of_getLsbD_eq
  intro i _
  have hcoeff := congrArg (fun p => p.coeff i) h
  simp only [coeff_regPoly] at hcoeff
  cases hx : x.getLsbD i <;> cases hy : y.getLsbD i <;> simp_all

@[simp] theorem regPoly_zero : regPoly 0#n = 0 := by
  ext i
  simp [coeff_regPoly]

theorem regPoly_xor (x y : BitVec n) : regPoly (x ^^^ y) = regPoly x + regPoly y := by
  ext i
  rw [coeff_add, coeff_regPoly, coeff_regPoly, coeff_regPoly, BitVec.getLsbD_xor]
  cases x.getLsbD i <;> cases y.getLsbD i <;> decide

/-- A wider copy of a register is the same polynomial. -/
theorem regPoly_setWidth {m : Nat} (h : n ≤ m) (x : BitVec n) :
    regPoly (x.setWidth m) = regPoly x := by
  ext i
  rw [coeff_regPoly, coeff_regPoly, BitVec.getLsbD_setWidth]
  by_cases hi : i < m
  · simp [hi]
  · simp [hi, BitVec.getLsbD_of_ge x i (by omega)]

theorem monic_generator (poly : BitVec n) : (generator poly).Monic :=
  monic_X_pow_add (degree_regPoly_lt poly)

theorem degree_generator (poly : BitVec n) : (generator poly).degree = n := by
  unfold generator
  rw [degree_add_eq_left_of_degree_lt] <;> rw [degree_X_pow]
  exact degree_regPoly_lt poly

/-! ### Messages -/

@[simp] theorem messagePoly_nil : messagePoly [] = 0 := rfl

theorem messagePoly_concat (bits : List Bool) (b : Bool) :
    messagePoly (bits ++ [b]) = messagePoly bits * X + bitPoly b := by
  rw [messagePoly, List.foldl_append]
  rfl

theorem messagePoly_append (a b : List Bool) :
    messagePoly (a ++ b) = messagePoly a * X ^ b.length + messagePoly b := by
  induction b using List.reverseRecOn with
  | nil => simp
  | append_singleton b bit ih =>
    rw [← List.append_assoc, messagePoly_concat, ih, messagePoly_concat, List.length_append,
      List.length_singleton]
    ring

/-- The bits of a register, most significant first, are the message it stands for. -/
theorem messagePoly_bitsDown (x : BitVec n) : messagePoly (bitsDown x 0 n) = regPoly x := by
  have hlow : ∀ k, messagePoly (bitsDown x 0 k) =
      ∑ i ∈ Finset.range k, bitPoly (x.getLsbD i) * X ^ i := by
    intro k
    induction k with
    | zero => rfl
    | succ k ih =>
      have hcons : bitsDown x 0 (k + 1) = [x.getLsbD k] ++ bitsDown x 0 k := by
        rw [bitsDown, Nat.zero_add, List.singleton_append]
      have hbit : messagePoly [x.getLsbD k] = bitPoly (x.getLsbD k) := by
        simp [messagePoly]
      rw [hcons, messagePoly_append, ih, hbit, length_bitsDown, Finset.sum_range_succ, add_comm]
  exact hlow n

theorem messagePoly_zipWith_xor {a b : List Bool} (h : a.length = b.length) :
    messagePoly (List.zipWith xor a b) = messagePoly a + messagePoly b := by
  induction a using List.reverseRecOn generalizing b with
  | nil =>
    rw [List.length_nil] at h
    rw [List.length_eq_zero_iff.mp h.symm]
    simp
  | append_singleton a bit ih =>
    obtain ⟨b, bit', rfl⟩ : ∃ c d, b = c ++ [d] := by
      rw [← List.concat_eq_append] at h
      refine ⟨b.dropLast, b.getLast ?_, (List.dropLast_append_getLast _).symm⟩
      rintro rfl
      simp at h
    have hlen : a.length = b.length := by simpa using h
    rw [List.zipWith_append hlen, List.zipWith_cons_cons, List.zipWith_nil_left,
      messagePoly_concat, messagePoly_concat, messagePoly_concat, ih hlen, bitPoly_xor]
    ring

/-! ### Division -/

/-- A shift moves every coefficient up and drops the highest. -/
theorem X_mul_regPoly (hn : 0 < n) (x : BitVec n) :
    regPoly x * X = regPoly (x <<< 1) + bitPoly (x.getLsbD (n - 1)) * X ^ n := by
  ext i
  rw [coeff_add, coeff_regPoly, coeff_bitPoly_mul_X_pow, BitVec.getLsbD_shiftLeft]
  cases i with
  | zero =>
    have hne : ¬ (0 = n ∧ x.getLsbD (n - 1) = true) := fun h => absurd h.1 (by omega)
    simp [hne]
  | succ i =>
    rw [coeff_mul_X, coeff_regPoly]
    by_cases htop : i + 1 = n
    · subst htop
      simp
    · by_cases hlt : i + 1 < n
      · simp [hlt, htop]
      · simp [hlt, htop, BitVec.getLsbD_of_ge x i (by omega)]

/-- One step is multiplication by `X` with the message bit entering at the top, up to a
multiple of the generator. -/
theorem dvd_regPoly_crcStep (hn : 0 < n) (poly x : BitVec n) (b : Bool) :
    generator poly ∣ regPoly (crcStep poly x b) - (regPoly x * X + bitPoly b * X ^ n) := by
  refine ⟨bitPoly (b ^^ x.getLsbD (n - 1)), ?_⟩
  have hstep : regPoly (crcStep poly x b) =
      regPoly (x <<< 1) + bitPoly (b ^^ x.getLsbD (n - 1)) * regPoly poly := by
    unfold crcStep
    cases b ^^ x.getLsbD (n - 1) with
    | false => simp
    | true => simp [regPoly_xor]
  rw [hstep, X_mul_regPoly hn, CharTwo.sub_eq_add, generator, bitPoly_xor]
  linear_combination add_self_poly (regPoly (x <<< 1))

theorem dvd_regPoly_crc (hn : 0 < n) (poly : BitVec n) (bits : List Bool) :
    generator poly ∣ regPoly (crc poly bits) - messagePoly bits * X ^ n := by
  induction bits using List.reverseRecOn with
  | nil => simp [crc]
  | append_singleton bits b ih =>
    have hcrc : crc poly (bits ++ [b]) = crcStep poly (crc poly bits) b := by
      rw [crc, List.foldl_append]
      rfl
    have hstep := dvd_regPoly_crcStep hn poly (crc poly bits) b
    -- the difference of the whole message: one step, and `X` times the difference so far
    have hsplit : regPoly (crcStep poly (crc poly bits) b) -
        messagePoly (bits ++ [b]) * X ^ n =
        (regPoly (crcStep poly (crc poly bits) b) -
          (regPoly (crc poly bits) * X + bitPoly b * X ^ n)) +
        (regPoly (crc poly bits) - messagePoly bits * X ^ n) * X := by
      rw [messagePoly_concat]
      ring
    rw [hcrc, hsplit]
    exact dvd_add hstep (ih.mul_right X)

/-- **The register ends with the remainder** of the message moved up by its width. -/
theorem regPoly_crc (hn : 0 < n) (poly : BitVec n) (bits : List Bool) :
    regPoly (crc poly bits) = (messagePoly bits * X ^ n) %ₘ generator poly := by
  obtain ⟨q, hq⟩ := dvd_regPoly_crc hn poly bits
  have hmessage : regPoly (crc poly bits) + generator poly * q = messagePoly bits * X ^ n := by
    rw [← hq, CharTwo.sub_eq_add, ← add_assoc, add_self_poly, zero_add]
  have hdegree : (regPoly (crc poly bits)).degree < (generator poly).degree := by
    rw [degree_generator]
    exact degree_regPoly_lt _
  exact (div_modByMonic_unique q _ (monic_generator poly) ⟨hmessage, hdegree⟩).2.symm

/-- Remainders add, so the register is linear in the message. -/
theorem crc_zipWith_xor (hn : 0 < n) (poly : BitVec n) {a b : List Bool}
    (h : a.length = b.length) :
    crc poly (List.zipWith xor a b) = crc poly a ^^^ crc poly b := by
  apply regPoly_injective
  rw [regPoly_xor, regPoly_crc hn, regPoly_crc hn, regPoly_crc hn, messagePoly_zipWith_xor h,
    add_mul, add_modByMonic]

/-- A message followed by its own CRC is a multiple of the generator. -/
theorem crc_append_self (hn : 0 < n) (poly : BitVec n) (bits : List Bool) :
    crc poly (bits ++ bitsDown (crc poly bits) 0 n) = 0#n := by
  apply regPoly_injective
  rw [regPoly_crc hn, regPoly_zero, modByMonic_eq_zero_iff_dvd (monic_generator poly),
    messagePoly_append, messagePoly_bitsDown, length_bitsDown]
  apply Dvd.dvd.mul_right
  rw [← CharTwo.sub_eq_add, dvd_sub_comm]
  exact dvd_regPoly_crc hn poly bits

end Testbench.Lib
