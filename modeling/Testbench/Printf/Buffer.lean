import Mathlib
import Testbench.Printf.Format

/-!
The output functions of the formatter and the wrappers around it (`_out_buffer`, `_out_char`,
`snprintf`, `printf` of `mpsoc/testcase/sw/lib/newlib_wrap/printf.c`).

A buffer is given by the memory behind its address, as far as it goes. `snprintf_read`: a
buffer of `count` characters holds the first `count - 1` characters of the text and a null
character behind them, nothing else is written, and the result is the length of the whole text.
-/

namespace Testbench.Printf

/-- The memory behind an address. -/
abbrev Memory := Nat → Char

/-- The null character. -/
def null : Char := Char.ofNat 0

/-! ### Output functions -/

/-- `_out_buffer` -/
def outBuffer (maxlen : Nat) (buffer : Memory) (character : Char) (idx : Nat) : Memory :=
  if idx < maxlen then Function.update buffer idx character else buffer

section Output

variable {σ : Type*} (out : σ → Char → Nat → σ)

/-- The calls of an output function for the characters of a text, from an index on. -/
def outText (sink : σ) (idx : Nat) : List Char → σ
  | [] => sink
  | c :: text => outText (out sink c idx) (idx + 1) text

/-- What `_vsnprintf` does with the text: it is put out, and a null character in the end. -/
def terminated (sink : σ) (maxlen : Nat) (text : List Char) : σ :=
  out (outText out sink 0 text) null (if text.length < maxlen then text.length else maxlen - 1)

end Output

/-- `(int)idx` -/
def toInt (idx : Nat) : Int := (BitVec.ofNat 32 idx).toInt

section Wrappers

variable {target : Target}

/-- `vsnprintf` and `snprintf`: the buffer and the result. Without a buffer `_out_null` takes
the characters. -/
def snprintf (buffer : Option Memory) (count : Nat) (format : List Char)
    (args : List (Arg target)) : Option (Option Memory × Int) :=
  (vsnprintf format args).map fun text =>
    (buffer.map fun buffer => terminated (outBuffer count) buffer count text, toInt text.length)

/-- `_out_char`, on the characters that were put out. -/
def outChar (screen : List Char) (character : Char) (_ : Nat) : List Char :=
  if character ≠ null then screen ++ [character] else screen

/-- `printf`: what is put out, and the result. -/
def printf (format : List Char) (args : List (Arg target)) : Option (List Char × Int) :=
  (vsnprintf format args).map fun text =>
    (terminated outChar [] (2 ^ target.long - 1) text, toInt text.length)

end Wrappers

/-! ### What is in the buffer -/

/-- The characters that are put out from an index on. -/
theorem outText_outBuffer (maxlen : Nat) (buffer : Memory) (idx : Nat) (text : List Char)
    (i : Nat) :
    outText (outBuffer maxlen) buffer idx text i =
      if idx ≤ i ∧ i < maxlen then (text[i - idx]?).getD (buffer i) else buffer i := by
  induction text generalizing buffer idx with
  | nil => simp [outText]
  | cons c text ih =>
    rw [outText, ih]
    rcases Nat.lt_trichotomy i idx with hlt | rfl | hgt
    · have hne : i ≠ idx := by omega
      rw [if_neg (by omega), if_neg (by omega)]
      unfold outBuffer
      split_ifs <;> simp [hne]
    · rw [if_neg (by omega)]
      unfold outBuffer
      split_ifs <;> simp_all
    · have hne : i ≠ idx := by omega
      have hindex : i - idx = i - (idx + 1) + 1 := by omega
      have hbuffer : outBuffer maxlen buffer c idx i = buffer i := by
        unfold outBuffer
        split_ifs <;> simp [hne]
      rw [hbuffer, hindex, List.getElem?_cons_succ]
      exact if_congr (by omega) rfl rfl

/-- What a character of the buffer is in the end. -/
theorem terminated_outBuffer (count : Nat) (buffer : Memory) (text : List Char) (i : Nat) :
    terminated (outBuffer count) buffer count text i =
      if i < min text.length (count - 1) then (text[i]?).getD null
      else if i = min text.length (count - 1) ∧ 0 < count then null
      else buffer i := by
  have hlast : (if text.length < count then text.length else count - 1) =
      min text.length (count - 1) := by
    split_ifs <;> omega
  have hout : ∀ buffer idx, outBuffer count buffer null idx i =
      if i = idx ∧ idx < count then null else buffer i := by
    intro buffer idx
    unfold outBuffer
    split_ifs <;> simp_all
  rw [terminated, hlast, hout]
  rcases Nat.lt_trichotomy i (min text.length (count - 1)) with hlt | heq | hgt
  · have hi : i < text.length := by omega
    rw [if_neg (by omega), if_pos hlt, outText_outBuffer, if_pos (by omega), Nat.sub_zero,
      List.getElem?_eq_getElem hi, Option.getD_some, Option.getD_some]
  · rw [if_neg (by omega : ¬ i < min text.length (count - 1)), outText_outBuffer]
    have hcount : min text.length (count - 1) < count ↔ 0 < count := by omega
    by_cases hpos : 0 < count
    · rw [if_pos ⟨heq, hcount.mpr hpos⟩, if_pos ⟨heq, hpos⟩]
    · rw [if_neg (by omega), if_neg (by omega), if_neg (by omega)]
  · rw [if_neg (by omega), if_neg (by omega), if_neg (by omega), outText_outBuffer]
    split_ifs with h
    · rw [Nat.sub_zero, List.getElem?_eq_none (by omega), Option.getD_none]
    · rfl

/-- The string at an address, in a buffer of this many characters. -/
def cString (buffer : Memory) (size : Nat) : List Char :=
  ((List.range size).map buffer).takeWhile (· ≠ null)

/-- A string ends with a null character. -/
theorem cString_of_null {memory : Memory} {n size : Nat} (hn : n < size)
    (hnull : memory n = null) :
    cString memory size = ((List.range n).map memory).takeWhile (· ≠ null) := by
  obtain ⟨k, rfl⟩ := Nat.exists_eq_add_of_lt hn
  unfold cString
  rw [Nat.add_assoc, List.range_add, List.range_succ_eq_map, List.map_append, List.map_cons,
    List.map_cons, Nat.add_zero, hnull, List.takeWhile_append]
  split_ifs with hall
  · rw [List.takeWhile_cons_of_neg (by simp), List.append_nil]
    exact (List.takeWhile_prefix _).eq_of_length hall |>.symm
  · rfl

/-- A buffer reads as the part of the text it has room for. -/
theorem cString_terminated {count : Nat} (hcount : 0 < count) (buffer : Memory)
    (text : List Char) :
    cString (terminated (outBuffer count) buffer count text) count =
      (text.take (count - 1)).takeWhile (· ≠ null) := by
  have hnull : terminated (outBuffer count) buffer count text (min text.length (count - 1)) =
      null := by
    rw [terminated_outBuffer, if_neg (lt_irrefl _), if_pos ⟨rfl, hcount⟩]
  rw [cString_of_null (by omega) hnull]
  congr 1
  refine List.ext_getElem (by simp [Nat.min_comm]) fun i hi _ => ?_
  simp only [List.length_map, List.length_range] at hi
  simp [terminated_outBuffer, hi, Nat.lt_of_lt_of_le hi (Nat.min_le_left _ _)]

theorem outText_outChar (screen : List Char) (idx : Nat) (text : List Char) :
    outText outChar screen idx text = screen ++ text.filter (· ≠ null) := by
  induction text generalizing screen idx with
  | nil => simp [outText]
  | cons c text ih =>
    rw [outText, ih]
    by_cases hc : c = null <;> simp [outChar, hc]

section Wrappers

variable {target : Target} {format : List Char} {args : List (Arg target)} {text : List Char}
  (h : vsnprintf format args = some text)
include h

/-- **A buffer holds what it has room for, and nothing behind it is written**; the result is the
length of the whole text, with a buffer, without one and on the screen. -/
theorem snprintf_read (buffer : Memory) (count : Nat) :
    ∃ memory,
      snprintf (some buffer) count format args = some (some memory, toInt text.length) ∧
      snprintf none count format args = some (none, toInt text.length) ∧
      printf format args = some (text.filter (· ≠ null), toInt text.length) ∧
      (0 < count → cString memory count = (text.take (count - 1)).takeWhile (· ≠ null)) ∧
      ∀ i, count ≤ i ∨ text.length < i → memory i = buffer i := by
  refine ⟨terminated (outBuffer count) buffer count text, ?_, ?_, ?_, ?_, ?_⟩
  · simp [snprintf, h]
  · simp [snprintf, h]
  · simp [printf, h, terminated, outText_outChar, outChar]
  · exact fun hcount => cString_terminated hcount buffer text
  · intro i hi
    rw [terminated_outBuffer, if_neg (by omega), if_neg (by omega)]

end Wrappers

/-- A target of 32 bits without floating point numbers. -/
def target32 : Target where
  long := 32
  charSigned := false
  double := Empty
  ftoa := fun _ _ _ _ => []
  etoa := fun _ _ _ _ => []

/-- `-70` in three characters reads `-7`. -/
theorem snprintf_cut :
    ∃ memory, snprintf (some fun _ => 'z') 3 ['%', 'd'] [(.int (-70) : Arg target32)] =
        some (some memory, 3) ∧ cString memory 3 = ['-', '7'] ∧ memory 3 = 'z' := by
  have htext : vsnprintf ['%', 'd'] [(.int (-70) : Arg target32)] = some ['-', '7', '0'] := by
    decide
  obtain ⟨memory, hsnprintf, _, _, hread, hrest⟩ := snprintf_read htext (fun _ => 'z') 3
  refine ⟨memory, hsnprintf, ?_, hrest 3 (.inl le_rfl)⟩
  rw [hread (by decide)]
  decide

end Testbench.Printf
