import Testbench.Lib.Json

/-!
Numerals: digits of a base, with underscores between them that do not count.

`numeralValue_append` is the value of two numerals written as one. The decimal numeral of a
number has its value (`numeralValue_toDigits`).
-/

namespace Testbench.Lib

open Json

/-- A digit of the base. -/
def isDigit (base : Nat) (c : Char) : Bool := (hexVal c).any (· < base)

/-- A digit, then digits and underscores. -/
def IsNumeral (base : Nat) (s : Str) : Prop :=
  (∃ c ∈ s.head?, isDigit base c) ∧ ∀ c ∈ s, isDigit base c ∨ c = '_'

/-- Each underscore is between two digits. -/
def Spaced (s : Str) : Prop := ¬ ['_', '_'] <:+: s ∧ s.getLast? ≠ some '_'

/-- Digits only. -/
def IsDigits (base : Nat) (s : Str) : Prop := s ≠ [] ∧ ∀ c ∈ s, isDigit base c

instance (base : Nat) (s : Str) : Decidable (IsNumeral base s) :=
  decidable_of_iff (s.head?.any (isDigit base) ∧ s.all fun c => isDigit base c || c == '_')
    (by simp [IsNumeral, Option.any_eq_true])

instance (s : Str) : Decidable (Spaced s) := inferInstanceAs (Decidable (_ ∧ _))

instance (base : Nat) (s : Str) : Decidable (IsDigits base s) :=
  decidable_of_iff (s ≠ [] ∧ s.all (isDigit base)) (by simp [IsDigits])

/-- The number a numeral is for. -/
def numeralValue (base : Nat) (s : Str) : Nat := Nat.ofDigits base (s.filterMap hexVal).reverse

section Numeral

variable {base : Nat} {s a b : Str} {c : Char}

theorem isDigit_mono {base' : Nat} (hle : base ≤ base') (h : isDigit base c) :
    isDigit base' c := by
  rw [isDigit, Option.any_eq_true] at h ⊢
  obtain ⟨d, hd, hlt⟩ := h
  exact ⟨d, hd, by simpa using lt_of_lt_of_le (by simpa using hlt) hle⟩

/-- A character that is no digit and no underscore is not in a numeral. -/
theorem IsNumeral.notMem (h : IsNumeral base s) (hc : hexVal c = none) (hne : c ≠ '_') :
    c ∉ s := by
  intro hmem
  rcases h.2 c hmem with hdigit | hunder
  · rw [isDigit, hc] at hdigit
    cases hdigit
  · exact hne hunder

theorem IsNumeral.ne_nil (h : IsNumeral base s) : s ≠ [] := by
  rintro rfl
  obtain ⟨c, hc, -⟩ := h.1
  cases hc

theorem IsNumeral.mono {base' : Nat} (hle : base ≤ base') (h : IsNumeral base s) :
    IsNumeral base' s := by
  obtain ⟨⟨c, hc, hdigit⟩, hall⟩ := h
  exact ⟨⟨c, hc, isDigit_mono hle hdigit⟩, fun c hc => (hall c hc).imp_left (isDigit_mono hle)⟩

/-- Two numerals written as one. -/
theorem IsNumeral.append (ha : IsNumeral base a) (hb : IsNumeral base b) :
    IsNumeral base (a ++ b) := by
  obtain ⟨c, hc, hdigit⟩ := ha.1
  refine ⟨⟨c, List.mem_head?_append_of_mem_head? hc, hdigit⟩, fun c hc => ?_⟩
  rcases List.mem_append.mp hc with hc | hc
  · exact ha.2 c hc
  · exact hb.2 c hc

theorem IsDigits.isNumeral (h : IsDigits base s) : IsNumeral base s := by
  obtain ⟨c, rest, rfl⟩ := List.exists_cons_of_ne_nil h.1
  exact ⟨⟨c, rfl, h.2 c List.mem_cons_self⟩, fun c hc => .inl (h.2 c hc)⟩

/-- What keeps a numeral from being digits only is an underscore. -/
theorem IsNumeral.isDigits_iff (h : IsNumeral base s) : IsDigits base s ↔ '_' ∉ s := by
  constructor
  · rintro hdigits hunder
    have hfalse : isDigit base '_' := hdigits.2 _ hunder
    cases hfalse
  · intro hunder
    refine ⟨h.ne_nil, fun c hc => ?_⟩
    exact (h.2 c hc).resolve_right fun heq => hunder (heq ▸ hc)

theorem numeralValue_append (base : Nat) (a b : Str) :
    numeralValue base (a ++ b) =
      numeralValue base b + base ^ (b.filterMap hexVal).length * numeralValue base a := by
  rw [numeralValue, List.filterMap_append, List.reverse_append, Nat.ofDigits_append,
    List.length_reverse, numeralValue, numeralValue]

theorem numeralValue_singleton {d : Nat} (h : hexVal c = some d) : numeralValue base [c] = d := by
  rw [numeralValue, List.filterMap_cons_some h, List.filterMap_nil, List.reverse_singleton,
    Nat.ofDigits_singleton]

/-- Digits have a value below the power of their number. -/
theorem IsDigits.value_lt (hbase : 1 < base) (h : IsDigits base s) :
    numeralValue base s < base ^ s.length := by
  have hdigit : ∀ d ∈ (s.filterMap hexVal).reverse, d < base := by
    intro d hd
    obtain ⟨c, hc, hval⟩ := List.mem_filterMap.mp (List.mem_reverse.mp hd)
    have hc := h.2 c hc
    rw [isDigit, hval, Option.any_some, decide_eq_true_eq] at hc
    exact hc
  calc numeralValue base s < base ^ (s.filterMap hexVal).reverse.length :=
        Nat.ofDigits_lt_base_pow_length hbase hdigit
    _ ≤ base ^ s.length := by
        rw [List.length_reverse]
        exact Nat.pow_le_pow_right (by omega) (List.length_filterMap_le _ _)

/-- A number of its own in front makes the value larger. -/
theorem numeralValue_lt_append (hbase : 0 < base) (h : numeralValue base a ≠ 0) :
    numeralValue base b < numeralValue base (a ++ b) := by
  rw [numeralValue_append]
  have hpos : 0 < base ^ (b.filterMap hexVal).length * numeralValue base a :=
    Nat.mul_pos (Nat.pow_pos hbase) (Nat.pos_of_ne_zero h)
  omega

/-- Only `0` has no value among the digits. -/
theorem eq_of_hexVal_zero (h : hexVal c = some 0) : c = '0' := by
  rw [hexVal] at h
  split_ifs at h with hdec hlower hupper
  · have hle : 48 ≤ c.toNat := hdec.1
    rw [Option.some.injEq] at h
    exact Char.toNat_inj.mp (by simp only [Char.reduceToNat]; omega)
  · have hle : 97 ≤ c.toNat := hlower.1
    rw [Option.some.injEq] at h
    omega
  · have hle : 65 ≤ c.toNat := hupper.1
    rw [Option.some.injEq] at h
    omega

/-- A numeral that begins with another digit than `0` is not for 0, in no base. -/
theorem IsNumeral.value_ne_zero {base' : Nat} (hbase : 0 < base') (h : IsNumeral base s)
    (hzero : s.head? ≠ some '0') : numeralValue base' s ≠ 0 := by
  obtain ⟨⟨c, hc, hdigit⟩, -⟩ := h
  obtain ⟨rest, rfl⟩ := List.head?_eq_some_iff.mp hc
  rw [isDigit, Option.any_eq_true] at hdigit
  obtain ⟨d, hd, -⟩ := hdigit
  have hne : d ≠ 0 := by
    rintro rfl
    exact hzero (congrArg some (eq_of_hexVal_zero hd))
  rw [← List.singleton_append, numeralValue_append, numeralValue_singleton hd]
  have hpos : 0 < base' ^ (rest.filterMap hexVal).length * d :=
    Nat.mul_pos (Nat.pow_pos hbase) (Nat.pos_of_ne_zero hne)
  omega

theorem hexVal_digitChar {d : Nat} (h : d < 10) : hexVal d.digitChar = some d := by
  have hall : ∀ d < 10, hexVal (Nat.digitChar d) = some d := by decide
  exact hall d h

theorem isDigits_toDigits (n : Nat) : IsDigits 10 (Nat.toDigits 10 n) := by
  refine ⟨Nat.toDigits_ne_nil, fun c hc => ?_⟩
  have hdigit : c.isDigit := Nat.isDigit_of_mem_toDigits (by decide) (by decide) hc
  rw [Char.isDigit, Bool.and_eq_true, decide_eq_true_eq, decide_eq_true_eq] at hdigit
  have hval : hexVal c = some (c.toNat - 48) := if_pos hdigit
  have hle : c.toNat ≤ 57 := hdigit.2
  rw [isDigit, hval, Option.any_some, decide_eq_true_eq]
  omega

/-- **A number is the value of its decimal numeral.** -/
theorem numeralValue_toDigits (n : Nat) : numeralValue 10 (Nat.toDigits 10 n) = n := by
  induction n using Nat.strong_induction_on with
  | _ n ih =>
    rw [Nat.toDigits_eq_if (by decide)]
    split_ifs with hlt
    · exact numeralValue_singleton (hexVal_digitChar hlt)
    · have hdigit : hexVal (n % 10).digitChar = some (n % 10) :=
        hexVal_digitChar (Nat.mod_lt n (by decide))
      rw [numeralValue_append, numeralValue_singleton hdigit, ih (n / 10) (by omega),
        List.filterMap_cons_some hdigit, List.filterMap_nil, List.length_singleton, pow_one]
      omega

end Numeral

end Testbench.Lib
