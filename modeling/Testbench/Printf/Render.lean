import Mathlib
import Testbench.Printf.Format

/-!
Formats by their directives.

A `Directive` has the fields of `%[flags][width][.precision][length]` and a specifier,
`render` writes it out, and `text` is what the fields mean, whatever the order and number of
the flags. `vsnprintf_render`: the formatter finds the fields of every directive of a format,
and its text is that of the pieces in their order.
-/

namespace Testbench.Printf

/-- A number, or an argument for it. -/
inductive Field where
  | number (n : Nat)
  | star

/-- The length field. -/
inductive Length where
  | none | h | hh | l | ll | t | j | z

/-- The characters of flags. -/
def flagChars : List Char := ['0', '-', '+', ' ', '#']

/-- The specifiers. -/
def specifiers : List Char :=
  ['d', 'i', 'u', 'x', 'X', 'o', 'b', 'f', 'F', 'e', 'E', 'g', 'G', 'c', 's', 'p', '%']

/-- A directive. A width of zero would be read as a flag. -/
structure Directive where
  flags : List Char
  flags_mem : ∀ c ∈ flags, c ∈ flagChars
  width : Option Field
  width_ne : width ≠ some (.number 0)
  precision : Option (Option Field)
  length : Length
  specifier : Char
  specifier_mem : specifier ∈ specifiers

/-- A piece of a format. -/
inductive Piece where
  | char (c : Char) (h : c ≠ '%')
  | directive (d : Directive)

/-! ### Writing a format -/

def Field.render : Field → List Char
  | .number n => Nat.toDigits 10 n
  | .star => ['*']

def Length.render : Length → List Char
  | .none => []
  | .h => ['h']
  | .hh => ['h', 'h']
  | .l => ['l']
  | .ll => ['l', 'l']
  | .t => ['t']
  | .j => ['j']
  | .z => ['z']

def renderField (field : Option Field) : List Char := (field.map Field.render).getD []

def Directive.render (d : Directive) : List Char :=
  '%' :: (d.flags ++ renderField d.width ++
    (d.precision.map fun field => '.' :: renderField field).getD [] ++ d.length.render ++
    [d.specifier])

def Piece.render : Piece → List Char
  | .char c _ => [c]
  | .directive d => d.render

/-! ### What a format means -/

/-- The flags that are there. -/
def flagsOf (cs : List Char) : Flags :=
  { zeropad := '0' ∈ cs, left := '-' ∈ cs, plus := '+' ∈ cs, space := ' ' ∈ cs, hash := '#' ∈ cs }

section Meaning

variable {target : Target}

/-- The value of a field, zero where there is none. -/
def fieldValue : Option Field → List (Arg target) → Option (Int × List (Arg target))
  | none, args => some (0, args)
  | some (.number n), args => some ((n % 2 ^ 32 : Nat), args)
  | some .star, args => (vaInt args).map fun (value, args) => (value.toInt, args)

/-- The flags of a length. -/
def Length.flags (target : Target) (flags : Flags) : Length → Flags
  | .none => flags
  | .h => { flags with short := true }
  | .hh => { flags with short := true, char := true }
  | .l | .t | .z => { flags with long := true }
  | .ll => { flags with long := true, longLong := true }
  | .j => if target.long = 64 then { flags with long := true } else { flags with longLong := true }

/-- The text of a directive. A negative width sets to the left. -/
def Directive.text (d : Directive) (args : List (Arg target)) :
    Option (List Char × List (Arg target)) := do
  let (width, args) ← fieldValue d.width args
  let (precision, args) ← fieldValue (d.precision.getD none) args
  let flags := flagsOf d.flags
  let flags := { flags with
    left := flags.left || width < 0
    precision := d.precision.isSome }
  Printf.specifier (d.length.flags target flags) width.natAbs precision.toNat d.specifier args

/-- The text of pieces one after the other. -/
def texts : List Piece → List (Arg target) → Option (List Char)
  | [], _ => some []
  | .char c _ :: pieces, args => (c :: ·) <$> texts pieces args
  | .directive d :: pieces, args => do
      let (text, args) ← d.text args
      (text ++ ·) <$> texts pieces args

end Meaning

/-! ### Reading the fields -/

/-- A text that does not go on with a digit. -/
def NoDigit (format : List Char) : Prop := ∀ c ∈ format.head?, isDigit c = false

theorem isDigit_digitChar {n : Nat} (hn : n < 10) : isDigit n.digitChar = true := by
  interval_cases n <;> rfl

theorem atoi_append_digit {n : Nat} (hn : n < 10) (i : Nat) (format : List Char) :
    atoi i (n.digitChar :: format) = atoi ((i * 10 + n) % 2 ^ 32) format := by
  have hvalue : n.digitChar.toNat - '0'.toNat = n := Nat.toNat_digitChar_sub_48_of_lt_ten hn
  rw [atoi, if_pos (isDigit_digitChar hn), hvalue]

theorem atoi_of_noDigit {format : List Char} (h : NoDigit format) (i : Nat) :
    atoi i format = (i, format) := by
  cases format with
  | nil => rfl
  | cons c format => simp [atoi, h c rfl]

/-- A numeral in front goes into the number, as far as 32 bits hold it. -/
theorem atoi_toDigits (n : Nat) (format : List Char) :
    atoi 0 (Nat.toDigits 10 n ++ format) = atoi (n % 2 ^ 32) format := by
  induction n using Nat.strong_induction_on generalizing format with
  | _ n ih =>
    rcases Nat.lt_or_ge n 10 with hlt | hge
    · rw [Nat.toDigits_of_lt_base hlt, List.singleton_append, atoi_append_digit hlt, Nat.zero_mul,
        Nat.zero_add]
    · rw [Nat.toDigits_of_base_le (by decide) hge, List.append_assoc, ih _ (by omega),
        List.singleton_append, atoi_append_digit (Nat.mod_lt _ (by decide))]
      congr 1
      omega

theorem head_toDigits (n : Nat) :
    ∃ d rest, Nat.toDigits 10 n = Nat.digitChar d :: rest ∧ d < 10 ∧ (n ≠ 0 → d ≠ 0) := by
  induction n using Nat.strong_induction_on with
  | _ n ih =>
    rcases Nat.lt_or_ge n 10 with hlt | hge
    · exact ⟨n, [], Nat.toDigits_of_lt_base hlt, hlt, id⟩
    · obtain ⟨d, rest, hdigits, hd, hne⟩ := ih (n / 10) (by omega)
      refine ⟨d, rest ++ [(n % 10).digitChar], ?_, hd, fun _ => hne (by omega)⟩
      rw [Nat.toDigits_of_base_le (by decide) hge, hdigits, List.cons_append]

/-- **All flags are found**, in whatever order. -/
theorem flagsLoop_append {cs format : List Char} (hcs : ∀ c ∈ cs, c ∈ flagChars)
    (hformat : ∀ c ∈ format.head?, c ∉ flagChars) (flags : Flags) :
    flagsLoop flags (cs ++ format) =
      ({ flags with
        zeropad := flags.zeropad || '0' ∈ cs
        left := flags.left || '-' ∈ cs
        plus := flags.plus || '+' ∈ cs
        space := flags.space || ' ' ∈ cs
        hash := flags.hash || '#' ∈ cs }, format) := by
  induction cs generalizing flags with
  | nil =>
    cases format with
    | nil => simp [flagsLoop]
    | cons c format =>
      have hc := hformat c rfl
      simp only [flagChars, List.mem_cons, List.not_mem_nil, or_false, not_or] at hc
      simp [flagsLoop, hc]
  | cons c cs ih =>
    have ih := ih fun c hc => hcs c (List.mem_cons_of_mem _ hc)
    have hc := hcs c List.mem_cons_self
    simp only [flagChars, List.mem_cons, List.not_mem_nil, or_false] at hc
    rcases hc with rfl | rfl | rfl | rfl | rfl <;> simp [flagsLoop, ih]

section Fields

variable {target : Target}

/-- A text that starts with a character which is in no field. -/
def Follows (format : List Char) : Prop :=
  ∃ c rest, format = c :: rest ∧ isDigit c = false ∧ c ≠ '*' ∧ c ∉ flagChars

theorem Follows.noDigit {format : List Char} (h : Follows format) : NoDigit format := by
  obtain ⟨c, rest, rfl, hc, _⟩ := h
  rintro c' ⟨⟩
  exact hc

theorem atoi_field {format : List Char} (h : Follows format) (n : Nat) :
    atoi 0 (Nat.toDigits 10 n ++ format) = (n % 2 ^ 32, format) := by
  rw [atoi_toDigits, atoi_of_noDigit h.noDigit]

theorem toNat_neg_of_neg {w : BitVec 32} (h : w.toInt < 0) : (-w).toNat = w.toInt.natAbs := by
  rw [BitVec.toNat_neg, BitVec.toInt_eq_toNat_cond] at *
  split_ifs at * <;> omega

theorem toNat_of_nonneg {w : BitVec 32} (h : ¬ w.toInt < 0) : w.toNat = w.toInt.natAbs := by
  rw [BitVec.toInt_eq_toNat_cond] at *
  split_ifs at * <;> omega

/-- The width is found. -/
theorem widthField_render {format : List Char} (hformat : Follows format) (field : Option Field)
    (flags : Flags) (args : List (Arg target)) :
    widthField flags (renderField field ++ format) args =
      (fieldValue field args).map fun (width, args) =>
        ({ flags with left := flags.left || width < 0 }, width.natAbs, format, args) := by
  match field with
  | none =>
    obtain ⟨c, rest, rfl, hdigit, hstar, _⟩ := hformat
    simp [renderField, fieldValue, widthField, hdigit, hstar]
  | some (.number n) =>
    obtain ⟨d, rest, hdigits, hd, _⟩ := head_toDigits n
    have hatoi := atoi_field hformat n
    rw [hdigits, List.cons_append] at hatoi
    have hwidth : widthField flags (renderField (some (.number n)) ++ format) args =
        some (flags, n % 2 ^ 32, format, args) := by
      simp [renderField, Field.render, widthField, hdigits, isDigit_digitChar hd, hatoi]
    have hsign : decide (((n % 2 ^ 32 : Nat) : Int) < 0) = false := by
      simp only [decide_eq_false_iff_not, not_lt]
      exact Int.natCast_nonneg _
    simp only [hwidth, fieldValue, Option.map_some, hsign, Bool.or_false, Int.natAbs_natCast]
  | some .star =>
    have hstar : isDigit '*' = false := rfl
    simp only [renderField, Field.render, Option.map_some, Option.getD_some, List.singleton_append,
      widthField, hstar, Bool.false_eq_true, if_false, if_true, fieldValue, Option.map_map]
    cases vaInt args with
    | none => rfl
    | some value =>
      obtain ⟨w, args⟩ := value
      by_cases hw : w.toInt < 0
      · simpa [hw] using toNat_neg_of_neg hw
      · simpa [hw] using toNat_of_nonneg hw

/-- The precision is found. -/
theorem precisionField_render {format : List Char} (hformat : Follows format)
    (hdot : '.' ∉ format.head?) (precision : Option (Option Field)) (flags : Flags)
    (args : List (Arg target)) :
    precisionField flags
        ((precision.map fun field => '.' :: renderField field).getD [] ++ format) args =
      (fieldValue (precision.getD none) args).map fun (value, args) =>
        ({ flags with precision := flags.precision || precision.isSome }, value.toNat, format,
          args) := by
  match precision with
  | none =>
    obtain ⟨c, rest, rfl, _⟩ := hformat
    have hc : c ≠ '.' := fun h => hdot (h ▸ rfl)
    simp [fieldValue, precisionField, hc]
  | some none =>
    obtain ⟨c, rest, rfl, hdigit, hstar, _⟩ := hformat
    simp [renderField, fieldValue, precisionField, hdigit, hstar]
  | some (some (.number n)) =>
    obtain ⟨d, rest, hdigits, hd, _⟩ := head_toDigits n
    have hatoi := atoi_field hformat n
    rw [hdigits, List.cons_append] at hatoi
    have hprecision : precisionField flags ('.' :: renderField (some (.number n)) ++ format) args =
        some ({ flags with precision := true }, n % 2 ^ 32, format, args) := by
      simp [renderField, Field.render, precisionField, hdigits, isDigit_digitChar hd, hatoi]
    simp only [Option.map_some, Option.getD_some, hprecision, fieldValue, Option.isSome_some,
      Bool.or_true, Int.toNat_natCast]
  | some (some .star) =>
    have hstar : isDigit '*' = false := rfl
    cases h : vaInt args with
    | none => simp [renderField, Field.render, fieldValue, precisionField, hstar, h]
    | some value => simp [renderField, Field.render, fieldValue, precisionField, hstar, h]

theorem lengthField_render (length : Length) {c : Char} (hc : c ∈ specifiers) (flags : Flags)
    (format : List Char) :
    lengthField target flags (length.render ++ c :: format) =
      (length.flags target flags, c :: format) := by
  have hne : ∀ c ∈ specifiers, c ≠ 'h' ∧ c ≠ 'l' ∧ c ≠ 't' ∧ c ≠ 'j' ∧ c ≠ 'z' := by
    simp [specifiers]
  have hne := hne c hc
  cases length <;> simp [lengthField, Length.render, Length.flags, hne]

/-! ### Reading a format -/

theorem follows_length (length : Length) {c : Char} (hc : c ∈ specifiers) (format : List Char) :
    Follows (length.render ++ c :: format) ∧ '.' ∉ (length.render ++ c :: format).head? := by
  have hhead : ∀ b ∈ ['h', 'l', 't', 'j', 'z'] ++ specifiers,
      isDigit b = false ∧ b ≠ '*' ∧ b ∉ flagChars ∧ b ≠ '.' := by
    simp [specifiers, flagChars, isDigit]
  obtain ⟨b, rest, hformat, hb⟩ : ∃ b rest, length.render ++ c :: format = b :: rest ∧
      b ∈ ['h', 'l', 't', 'j', 'z'] ++ specifiers := by
    cases length
    case none => exact ⟨c, format, rfl, List.mem_append_right _ hc⟩
    all_goals exact ⟨_, _, rfl, by decide⟩
  obtain ⟨hdigit, hstar, hflag, hdot⟩ := hhead b hb
  rw [hformat]
  exact ⟨⟨b, rest, rfl, hdigit, hstar, hflag⟩, by simpa using hdot⟩

theorem follows_precision (precision : Option (Option Field)) {format : List Char}
    (hformat : Follows format) :
    Follows ((precision.map fun field => '.' :: renderField field).getD [] ++ format) := by
  cases precision with
  | none => exact hformat
  | some field => exact ⟨'.', _, rfl, rfl, by decide, by decide⟩

theorem width_noFlag {width : Option Field} (hwidth : width ≠ some (.number 0))
    {format : List Char} (hformat : Follows format) :
    ∀ c ∈ (renderField width ++ format).head?, c ∉ flagChars := by
  match width with
  | none =>
    obtain ⟨c, rest, rfl, _, _, hflag⟩ := hformat
    rintro _ ⟨⟩
    exact hflag
  | some (.number n) =>
    obtain ⟨d, rest, hdigits, hd, hne⟩ := head_toDigits n
    have hd0 : d ≠ 0 := hne fun h => hwidth (h ▸ rfl)
    have hflag : d.digitChar ∉ flagChars := by
      interval_cases d <;> simp_all [flagChars, Nat.digitChar]
    simpa [renderField, Field.render, hdigits] using hflag
  | some .star =>
    rintro _ ⟨⟩
    decide

/-- **The fields of a directive are found.** -/
theorem directive_render (d : Directive) (format : List Char) (args : List (Arg target)) :
    directive (d.render.tail ++ format) args =
      (d.text args).map fun (text, args) => (text, format, args) := by
  obtain ⟨hfollows, hdot⟩ := follows_length d.length d.specifier_mem format
  have hprecision := follows_precision d.precision hfollows
  have hflags := flagsLoop_append d.flags_mem (width_noFlag d.width_ne hprecision) {}
  have hrender : d.render.tail ++ format =
      d.flags ++ (renderField d.width ++
        ((d.precision.map fun field => '.' :: renderField field).getD [] ++
          (d.length.render ++ d.specifier :: format))) := by
    simp [Directive.render]
  unfold directive Directive.text
  rw [hrender, hflags]
  simp only [widthField_render hprecision]
  cases fieldValue d.width args with
  | none => rfl
  | some value =>
    obtain ⟨width, args⟩ := value
    simp only [Option.map_some, Option.bind_some, Option.bind_eq_bind,
      precisionField_render hfollows hdot]
    cases fieldValue (d.precision.getD none) args with
    | none => rfl
    | some value =>
      obtain ⟨precision, args⟩ := value
      simp only [Option.map_some, Option.bind_some, lengthField_render d.length d.specifier_mem]
      simp only [flagsOf, Bool.false_or, Option.map_eq_bind]
      rfl

/-- A rendered directive is a percent sign and its fields. -/
theorem Directive.render_eq (d : Directive) : d.render = '%' :: d.render.tail := rfl

theorem formatLoop_render (pieces : List Piece) {fuel : Nat}
    (hfuel : (pieces.flatMap Piece.render).length ≤ fuel) (args : List (Arg target)) :
    formatLoop fuel (pieces.flatMap Piece.render) args = texts pieces args := by
  induction pieces generalizing fuel args with
  | nil => cases fuel <;> rfl
  | cons piece pieces ih =>
    cases piece with
    | char c hc =>
      rw [List.flatMap_cons, Piece.render, List.singleton_append] at hfuel ⊢
      obtain ⟨fuel, rfl⟩ := Nat.exists_eq_add_one_of_ne_zero (n := fuel) (by
        rintro rfl
        simp at hfuel)
      rw [formatLoop, if_pos hc, ih (by simpa using hfuel), texts]
    | directive d =>
      rw [List.flatMap_cons, Piece.render, d.render_eq, List.cons_append] at hfuel ⊢
      obtain ⟨fuel, rfl⟩ := Nat.exists_eq_add_one_of_ne_zero (n := fuel) (by
        rintro rfl
        simp at hfuel)
      have hfuel : (pieces.flatMap Piece.render).length ≤ fuel := by
        simp only [List.length_cons, List.length_append] at hfuel
        omega
      rw [formatLoop, if_neg (by simp), directive_render, texts]
      cases d.text args with
      | none => rfl
      | some value =>
        obtain ⟨text, args⟩ := value
        simp [ih hfuel]

/-- **The text of a format is that of its pieces**: every directive is read as it was written,
whatever its fields, and takes its arguments after those of the directives before it. -/
theorem vsnprintf_render (pieces : List Piece) (args : List (Arg target)) :
    vsnprintf (pieces.flatMap Piece.render) args = texts pieces args :=
  formatLoop_render pieces le_rfl args

end Fields

end Testbench.Printf
