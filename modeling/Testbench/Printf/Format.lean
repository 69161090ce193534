import Mathlib
import Testbench.Printf.Ntoa

/-!
The format strings of `_vsnprintf` (`mpsoc/testcase/sw/lib/newlib_wrap/printf.c`).

The formatter is modelled by the text it hands to its output function. It has none where the
format ends inside a directive, which the source reads past, and where the arguments are not
of the types the format asks for. The text of a floating point number is the target's.
-/

namespace Testbench.Printf

/-- What the formatter is compiled for. -/
structure Target where
  /-- The bits of a `long`, a `size_t`, a `ptrdiff_t` and a pointer. -/
  long : Nat
  charSigned : Bool
  double : Type
  /-- `_ftoa`, from the number, the precision and the width. -/
  ftoa : double → Nat → Nat → Flags → List Char
  /-- `_etoa` -/
  etoa : double → Nat → Nat → Flags → List Char

/-- The arguments of a call. A string has no null character. -/
inductive Arg (target : Target) where
  | int (value : BitVec 32)
  | long (value : BitVec target.long)
  | longLong (value : BitVec 64)
  | double (value : target.double)
  | str (text : List Char)
  | ptr (value : BitVec target.long)

/-! ### The fields of a directive -/

/-- `_is_digit` -/
def isDigit (c : Char) : Bool := '0' ≤ c && c ≤ '9'

/-- `_atoi` -/
def atoi : Nat → List Char → Nat × List Char
  | i, [] => (i, [])
  | i, c :: format =>
      if isDigit c then atoi ((i * 10 + (c.toNat - '0'.toNat)) % 2 ^ 32) format
      else (i, c :: format)

/-- The loop over the flags. -/
def flagsLoop : Flags → List Char → Flags × List Char
  | flags, [] => (flags, [])
  | flags, c :: format =>
      if c = '0' then flagsLoop { flags with zeropad := true } format
      else if c = '-' then flagsLoop { flags with left := true } format
      else if c = '+' then flagsLoop { flags with plus := true } format
      else if c = ' ' then flagsLoop { flags with space := true } format
      else if c = '#' then flagsLoop { flags with hash := true } format
      else (flags, c :: format)

section Fields

variable {target : Target}

/-- `va_arg(va, int)` -/
def vaInt : List (Arg target) → Option (BitVec 32 × List (Arg target))
  | .int value :: args => some (value, args)
  | _ => none

/-- The width field. -/
def widthField (flags : Flags) (format : List Char) (args : List (Arg target)) :
    Option (Flags × Nat × List Char × List (Arg target)) :=
  match format with
  | [] => some (flags, 0, [], args)
  | c :: rest =>
      if isDigit c then
        let (width, format) := atoi 0 format
        some (flags, width, format, args)
      else if c = '*' then do
        let (w, args) ← vaInt args
        if w.toInt < 0 then some ({ flags with left := true }, (-w).toNat, rest, args)
        else some (flags, w.toNat, rest, args)
      else some (flags, 0, format, args)

/-- The precision field. -/
def precisionField (flags : Flags) (format : List Char) (args : List (Arg target)) :
    Option (Flags × Nat × List Char × List (Arg target)) :=
  match format with
  | '.' :: format =>
      let flags := { flags with precision := true }
      match format with
      | [] => some (flags, 0, [], args)
      | c :: rest =>
          if isDigit c then
            let (precision, format) := atoi 0 format
            some (flags, precision, format, args)
          else if c = '*' then do
            let (prec, args) ← vaInt args
            some (flags, prec.toInt.toNat, rest, args)
          else some (flags, 0, format, args)
  | format => some (flags, 0, format, args)

/-- The length field. -/
def lengthField (target : Target) (flags : Flags) : List Char → Flags × List Char
  | 'l' :: 'l' :: format => ({ flags with long := true, longLong := true }, format)
  | 'l' :: format => ({ flags with long := true }, format)
  | 'h' :: 'h' :: format => ({ flags with short := true, char := true }, format)
  | 'h' :: format => ({ flags with short := true }, format)
  | 't' :: format => ({ flags with long := true }, format)
  | 'j' :: format =>
      (if target.long = 64 then { flags with long := true } else { flags with longLong := true },
        format)
  | 'z' :: format => ({ flags with long := true }, format)
  | format => (flags, format)

/-! ### The specifiers -/

/-- A value is written by its size and its sign. -/
def magnitude (value : Int) : Nat × Bool := (value.natAbs, decide (value < 0))

/-- The argument of `d` and `i`. -/
def vaSigned (flags : Flags) : List (Arg target) → Option ((Nat × Bool) × List (Arg target))
  | .longLong value :: args => if flags.longLong then some (magnitude value.toInt, args) else none
  | .long value :: args =>
      if flags.long && !flags.longLong then some (magnitude value.toInt, args) else none
  | .int value :: args =>
      if flags.longLong || flags.long then none
      else if flags.char then
        let char := value.truncate 8
        some (magnitude (if target.charSigned then char.toInt else char.toNat), args)
      else if flags.short then some (magnitude (value.truncate 16).toInt, args)
      else some (magnitude value.toInt, args)
  | _ => none

/-- The argument of `u`, `x`, `X`, `o` and `b`. -/
def vaUnsigned (flags : Flags) : List (Arg target) → Option ((Nat × Bool) × List (Arg target))
  | .longLong value :: args => if flags.longLong then some ((value.toNat, false), args) else none
  | .long value :: args =>
      if flags.long && !flags.longLong then some ((value.toNat, false), args) else none
  | .int value :: args =>
      if flags.longLong || flags.long then none
      else if flags.char then some (((value.truncate 8).toNat, false), args)
      else if flags.short then some (((value.truncate 16).toNat, false), args)
      else some ((value.toNat, false), args)
  | _ => none

/-- The base of a specifier. -/
def baseOf (c : Char) : Nat :=
  if c = 'x' || c = 'X' then 16 else if c = 'o' then 8 else if c = 'b' then 2 else 10

/-- The flags an integer is converted with. -/
def integerFlags (c : Char) (flags : Flags) : Flags :=
  let flags := if baseOf c = 10 then { flags with hash := false } else flags
  let flags := if c = 'X' then { flags with uppercase := true } else flags
  let flags := if c ≠ 'i' && c ≠ 'd' then { flags with plus := false, space := false } else flags
  if flags.precision then { flags with zeropad := false } else flags

/-- Spaces around a text. -/
def padded (text : List Char) (width : Nat) (flags : Flags) : List Char :=
  if flags.left then text ++ List.replicate (width - text.length) ' '
  else List.replicate (width - text.length) ' ' ++ text

/-- The conversion of a specifier: the text and the arguments that are left. -/
def specifier (flags : Flags) (width precision : Nat) (c : Char) (args : List (Arg target)) :
    Option (List Char × List (Arg target)) :=
  if c ∈ ['d', 'i', 'u', 'x', 'X', 'o', 'b'] then do
    let flags := integerFlags c flags
    let ((value, negative), args) ←
      if c = 'i' || c = 'd' then vaSigned flags args else vaUnsigned flags args
    some (ntoaLong value negative (baseOf c) precision width flags, args)
  else if c ∈ ['f', 'F'] then
    match args with
    | .double value :: args =>
        let flags := if c = 'F' then { flags with uppercase := true } else flags
        some (target.ftoa value precision width flags, args)
    | _ => none
  else if c ∈ ['e', 'E', 'g', 'G'] then
    match args with
    | .double value :: args =>
        let flags := if c = 'g' || c = 'G' then { flags with adaptExp := true } else flags
        let flags := if c = 'E' || c = 'G' then { flags with uppercase := true } else flags
        some (target.etoa value precision width flags, args)
    | _ => none
  else if c = 'c' then do
    let (value, args) ← vaInt args
    some (padded [Char.ofNat (value.truncate 8).toNat] width flags, args)
  else if c = 's' then
    match args with
    | .str text :: args =>
        some (padded (if flags.precision then text.take precision else text) width flags, args)
    | _ => none
  else if c = 'p' then
    match args with
    | .ptr value :: args =>
        let flags := { flags with zeropad := true, uppercase := true }
        some (ntoaLong value.toNat false 16 precision (target.long / 8 * 2) flags, args)
    | _ => none
  else some ([c], args)

/-! ### The format -/

/-- One directive, behind its `%`: the text, the rest of the format, the arguments left. -/
def directive (format : List Char) (args : List (Arg target)) :
    Option (List Char × List Char × List (Arg target)) := do
  let (flags, format) := flagsLoop {} format
  let (flags, width, format, args) ← widthField flags format args
  let (flags, precision, format, args) ← precisionField flags format args
  match lengthField target flags format with
  | (_, []) => none
  | (flags, c :: format) =>
      let (text, args) ← specifier flags width precision c args
      some (text, format, args)

/-- The loop of `_vsnprintf` over at most this many characters and directives. -/
def formatLoop : Nat → List Char → List (Arg target) → Option (List Char)
  | _, [], _ => some []
  | 0, _ :: _, _ => none
  | fuel + 1, c :: format, args =>
      if c ≠ '%' then (c :: ·) <$> formatLoop fuel format args
      else do
        let (text, format, args) ← directive format args
        (text ++ ·) <$> formatLoop fuel format args

/-- The text `_vsnprintf` writes. Every turn takes a character at least. -/
def vsnprintf (format : List Char) (args : List (Arg target)) : Option (List Char) :=
  formatLoop format.length format args

end Fields

end Testbench.Printf
