import Mathlib
import Testbench.Printf.Ntoa

/-!
The `#` flag of the integer conversions (`_ntoa_format` of
`mpsoc/testcase/sw/lib/newlib_wrap/printf.c`).

Where the digits fill the width, one or two of them are taken back to make room for the
prefix, on the assumption that they are padding. `ntoaLong_hash_iff` says when they are.
-/

namespace Testbench.Printf

/-- The prefix the `#` flag asks for. -/
def hashPrefix (base : Nat) (flags : Flags) : List Char :=
  if base = 16 then ['0', if flags.uppercase then 'X' else 'x'] else ['0']

theorem length_hashPrefix_pos (base : Nat) (flags : Flags) :
    0 < (hashPrefix base flags).length := by
  unfold hashPrefix
  split_ifs <;> simp

/-- Characters that have room. -/
theorem foldl_push_of_room {cs buf : List Char} (hroom : buf.length + cs.length ≤ ntoaBufferSize) :
    cs.foldl (fun buf c => push c buf) buf = buf ++ cs := by
  induction cs generalizing buf with
  | nil => simp
  | cons c cs ih =>
    simp only [List.length_cons] at hroom
    have hpush : push c buf = buf ++ [c] := if_pos (by omega)
    rw [List.foldl_cons, hpush, ih (by simp; omega), List.append_assoc, List.singleton_append]

/-- Characters that have none. -/
theorem foldl_push_of_full {buf : List Char} (hfull : ntoaBufferSize ≤ buf.length)
    (cs : List Char) : cs.foldl (fun buf c => push c buf) buf = buf := by
  induction cs with
  | nil => rfl
  | cons c cs ih => rw [List.foldl_cons, push, if_neg (by omega), ih]

section Prefix

variable {flags : Flags} (hhash : flags.hash = true) (hprecision : flags.precision = false)
  {base : Nat} (hbase : base = 8 ∨ base = 16)
include hhash hprecision hbase

/-- The characters that fill the width give way to the prefix. -/
theorem pushHash_eq {buf : List Char} (hne : buf ≠ []) (width : Nat) :
    pushHash buf base 0 width flags =
      (hashPrefix base flags).reverse.foldl (fun buf c => push c buf)
        (if buf.length = width then buf.take (buf.length - (hashPrefix base flags).length)
          else buf) := by
  have hlength : buf.length ≠ 0 := by simpa using hne
  by_cases hwidth : buf.length = width
  · subst hwidth
    rcases hbase with rfl | rfl
    · simp [pushHash, hashPrefix, hhash, hprecision, hne, List.dropLast_eq_take]
    · -- a single digit has no second one to give
      have hdrop : (if buf.length - 1 = 0 then buf.dropLast else buf.dropLast.dropLast) =
          buf.take (buf.length - 2) := by
        split_ifs with h
        · have hzero : buf.length - 2 = 0 := by omega
          simp [List.dropLast_eq_take, h, hzero]
        · simp [List.dropLast_eq_take, List.take_take]
          omega
      simp [pushHash, hashPrefix, hhash, hprecision, hne, ← hdrop]
  · rcases hbase with rfl | rfl <;>
      simp [pushHash, hashPrefix, hhash, hprecision, hne, hwidth]

end Prefix

/-! ### Lengths -/

theorem length_outRev (buf : List Char) (width : Nat) (flags : Flags) :
    (outRev buf width flags).length =
      if flags.zeropad && !flags.left then buf.length else max width buf.length := by
  unfold outRev
  cases flags.left <;> cases flags.zeropad <;> simp <;> omega

theorem length_isoText (digits sign : List Char) (width : Nat) (left zeropad : Bool) :
    (isoText digits sign 0 width left zeropad).length =
      max width (sign.length + digits.length) := by
  unfold isoText
  cases left <;> cases zeropad <;> simp <;> omega

/-! ### Numbers with a prefix -/

section Unsigned

variable {flags : Flags} (hplus : flags.plus = false) (hspace : flags.space = false)
include hplus hspace

/-- The zeros of a number that has neither sign nor precision. -/
theorem padLeading_unsigned (buf : List Char) (width : Nat) :
    padLeading buf false 0 width flags =
      (if flags.zeropad && !flags.left then padZeros width buf else buf, width) := by
  unfold padLeading
  cases hleft : flags.left <;> cases hz : flags.zeropad <;> simp [hplus, hspace, padZeros]

theorem ntoaFormat_unsigned (buf : List Char) (base width : Nat) :
    ntoaFormat buf false base 0 width flags =
      outRev (pushHash (if flags.zeropad && !flags.left then padZeros width buf else buf)
        base 0 width flags) width flags := by
  unfold ntoaFormat
  simp [padLeading_unsigned hplus hspace, sign, hplus, hspace]

variable (hhash : flags.hash = true) (hprecision : flags.precision = false)
  {base : Nat} (hbase : base = 8 ∨ base = 16) {digits : List Char}
include hhash hprecision hbase

/-- A number that is not filled up with zeros keeps its digits unless they fill the width. -/
theorem ntoaFormat_hash_iff (hfill : (flags.zeropad && !flags.left) = false) (hne : digits ≠ [])
    (hroom : digits.length + (hashPrefix base flags).length ≤ ntoaBufferSize) (width : Nat) :
    ntoaFormat digits.reverse false base 0 width flags =
        isoText digits (hashPrefix base flags) 0 width flags.left flags.zeropad ↔
      digits.length ≠ width := by
  have hne' : digits.reverse ≠ [] := by simpa using hne
  have hpos := length_hashPrefix_pos base flags
  have hdigits : 0 < digits.length := List.length_pos_iff.mpr hne
  rw [ntoaFormat_unsigned hplus hspace, hfill, if_neg Bool.false_ne_true,
    pushHash_eq hhash hprecision hbase hne', List.length_reverse]
  by_cases hwidth : digits.length = width
  · -- digits are lost, so the text is too short
    refine iff_of_false (fun h => ?_) (not_not.mpr hwidth)
    have hlengths := congrArg List.length h
    rw [if_pos hwidth, foldl_push_of_room (by simp; omega), length_outRev,
      length_isoText] at hlengths
    simp [hfill] at hlengths
    omega
  · refine iff_of_true ?_ hwidth
    rw [if_neg hwidth, foldl_push_of_room (by simpa using hroom)]
    unfold outRev isoText
    cases hleft : flags.left <;> cases hz : flags.zeropad <;> simp_all [Nat.add_comm]

/-- A number that is filled up with zeros keeps its digits if there is room for the prefix. -/
theorem ntoaFormat_hash_zeropad_iff (hfill : (flags.zeropad && !flags.left) = true)
    (hne : digits ≠ [])
    (hroom : digits.length + (hashPrefix base flags).length ≤ ntoaBufferSize) (width : Nat) :
    ntoaFormat digits.reverse false base 0 width flags =
        isoText digits (hashPrefix base flags) 0 width flags.left flags.zeropad ↔
      width < digits.length ∨
        digits.length + (hashPrefix base flags).length ≤ width ∧ width ≤ ntoaBufferSize := by
  have hpos := length_hashPrefix_pos base flags
  have hdigits : 0 < digits.length := List.length_pos_iff.mpr hne
  have hne' : padZeros width digits.reverse ≠ [] := by
    intro h
    simpa [padZeros, hne] using congrArg List.length h
  have hlength : (padZeros width digits.reverse).length =
      max (min width ntoaBufferSize) digits.length := by
    simp [padZeros]
    omega
  rw [ntoaFormat_unsigned hplus hspace, hfill, if_pos rfl,
    pushHash_eq hhash hprecision hbase hne', hlength]
  obtain ⟨hz, hleft⟩ : flags.zeropad = true ∧ flags.left = false := by simpa using hfill
  rcases Nat.lt_or_ge width digits.length with hlt | hge
  · -- there are no zeros
    have hpad : padZeros width digits.reverse = digits.reverse := by
      simp [padZeros]
      omega
    refine iff_of_true ?_ (.inl hlt)
    rw [if_neg (by omega), hpad, foldl_push_of_room (by simpa using hroom)]
    have hfill : width - ((hashPrefix base flags).length + digits.length) = 0 := by omega
    simp [outRev, isoText, hz, hleft, hfill]
  rcases Nat.lt_or_ge ntoaBufferSize width with hlong | hshort
  · -- the zeros fill the buffer, which then takes no prefix
    refine iff_of_false (fun h => ?_) (by omega)
    have hlengths := congrArg List.length h
    rw [if_neg (by omega), foldl_push_of_full (by omega), length_outRev, length_isoText, hfill,
      if_pos rfl] at hlengths
    omega
  by_cases hfits : digits.length + (hashPrefix base flags).length ≤ width
  · -- the prefix replaces zeros
    refine iff_of_true ?_ (.inr ⟨hfits, hshort⟩)
    have hmin : max (min width ntoaBufferSize) digits.length = width := by omega
    have htake : (padZeros width digits.reverse).take (width - (hashPrefix base flags).length) =
        digits.reverse ++
          List.replicate (width - ((hashPrefix base flags).length + digits.length)) '0' := by
      rw [padZeros, Nat.min_eq_left hshort, List.take_append,
        List.take_of_length_le (by rw [List.length_reverse]; omega), List.take_replicate]
      congr 2
      rw [List.length_reverse]
      omega
    rw [if_pos hmin, hmin, htake, foldl_push_of_room (by simp; omega)]
    simp [outRev, isoText, hz, hleft]
  · -- the prefix replaces digits
    refine iff_of_false (fun h => ?_) (by omega)
    have hmin : max (min width ntoaBufferSize) digits.length = width := by omega
    have hlengths := congrArg List.length h
    rw [if_pos hmin, hmin, foldl_push_of_room (by simp; omega), length_outRev, length_isoText,
      hfill, if_pos rfl] at hlengths
    simp at hlengths
    omega

/-- **A prefix is printed as the standard has it** unless the digits fill the width, or come so
close to it that there are fewer zeros in front of them than the prefix takes, or the zeros fill
the buffer. -/
theorem ntoaLong_hash_iff {value : Nat} (hvalue : value ≠ 0) (hfits : value < 2 ^ 64)
    (width : Nat) :
    ntoaLong value false base 0 width flags =
        isoText (isoDigits value base flags) (hashPrefix base flags) 0 width flags.left
          flags.zeropad ↔
      if flags.zeropad && !flags.left then
        width < (isoDigits value base flags).length ∨
          (isoDigits value base flags).length + (hashPrefix base flags).length ≤ width ∧
            width ≤ ntoaBufferSize
      else (isoDigits value base flags).length ≠ width := by
  have htwo : 2 ≤ base := by rcases hbase with rfl | rfl <;> decide
  have hpow : value < base ^ 22 := by
    rcases hbase with rfl | rfl
    · exact hfits.trans (by norm_num)
    · exact hfits.trans (by norm_num)
  have hprefix : (hashPrefix base flags).length ≤ 2 := by
    unfold hashPrefix
    split_ifs <;> simp
  have hsize : ntoaBufferSize = 32 := rfl
  have hlength := length_isoDigits_le htwo (by omega) hpow flags
  have hdigits := ntoaDigits_eq htwo
    (hpow.trans_le (Nat.pow_le_pow_right (by omega) (by omega))) flags
  have hne : isoDigits value base flags ≠ [] := by
    unfold isoDigits
    rw [if_neg hvalue]
    simpa [Nat.digits_eq_nil_iff_eq_zero] using hvalue
  unfold ntoaLong
  dsimp only
  rw [if_neg hvalue, hdigits]
  split_ifs with hfill
  · exact ntoaFormat_hash_zeropad_iff hplus hspace hhash hprecision hbase hfill hne
      (by omega) width
  · exact ntoaFormat_hash_iff hplus hspace hhash hprecision hbase (by simpa using hfill) hne
      (by omega) width

end Unsigned

/-- `%#4x` of 0x1234 loses two digits. -/
theorem ntoaLong_hash_lost :
    ntoaLong 0x1234 false 16 0 4 { hash := true } ≠ ['0', 'x', '1', '2', '3', '4'] := by
  have hiso : isoText (isoDigits 0x1234 16 { hash := true }) (hashPrefix 16 { hash := true }) 0 4
      false false = ['0', 'x', '1', '2', '3', '4'] := by decide
  rw [← hiso]
  intro h
  exact (ntoaLong_hash_iff rfl rfl rfl rfl (.inr rfl) (by decide) (by decide) 4).mp h (by decide)

end Testbench.Printf
