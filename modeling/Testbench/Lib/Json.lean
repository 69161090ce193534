import Testbench.Lib.Replace
import Testbench.Lib.Run

/-!
JSON texts of objects and strings.

Strings are written in ASCII (`escape`, as `json.dumps` does) and read by a lexer that keeps
where it is in a text (`Shape`) apart from what it has read. That makes it easy to say what
becomes of a text in which characters are inserted: between tokens blanks are ignored, in a
string a line end is an error (`run_inserts`).
-/

namespace Testbench.Lib.Json

/-- A character string. -/
abbrev Str := List Char

/-! ### Writing -/

/-- The code units of a character. -/
def utf16 (c : Char) : List Nat :=
  if c.toNat < 0x10000 then [c.toNat]
  else [0xD800 + (c.toNat - 0x10000) / 0x400, 0xDC00 + (c.toNat - 0x10000) % 0x400]

def hexDigits : Str :=
  ['0', '1', '2', '3', '4', '5', '6', '7', '8', '9', 'a', 'b', 'c', 'd', 'e', 'f']

def hexDigit (n : Nat) : Char := hexDigits.getD n '0'

/-- Four digits. -/
def hex4 (n : Nat) : Str :=
  [hexDigit (n / 4096 % 16), hexDigit (n / 256 % 16), hexDigit (n / 16 % 16), hexDigit (n % 16)]

/-- The second character of an escape of two. -/
def shortEscape : Char → Option Char
  | '"' => some '"'
  | '\\' => some '\\'
  | '\n' => some 'n'
  | '\r' => some 'r'
  | '\t' => some 't'
  | '\x08' => some 'b'
  | '\x0c' => some 'f'
  | _ => none

/-- Printed as it is. -/
def printable (c : Char) : Bool := ' ' ≤ c && c ≤ '~'

/-- A character in a string. -/
def escapeChar (c : Char) : Str :=
  match shortEscape c with
  | some e => ['\\', e]
  | none => if printable c then [c] else (utf16 c).flatMap fun u => '\\' :: 'u' :: hex4 u

/-- The text of a string between its quotes. -/
def escape (s : Str) : Str := s.flatMap escapeChar

/-- A string with its quotes. -/
def quote (s : Str) : Str := '"' :: escape s ++ ['"']

/-! ### Reading -/

inductive Token where
  | lbrace
  | rbrace
  | colon
  | comma
  | str (s : Str)
  deriving DecidableEq

/-- Where a text is: between tokens, in a string, behind a backslash, in an escape with `k`
digits so far, or beyond an error. -/
inductive Shape where
  | out
  | str
  | esc
  | hex (k : Nat)
  | bad
  deriving DecidableEq

def hexVal (c : Char) : Option Nat :=
  if '0' ≤ c ∧ c ≤ '9' then some (c.toNat - 48)
  else if 'a' ≤ c ∧ c ≤ 'f' then some (c.toNat - 87)
  else if 'A' ≤ c ∧ c ≤ 'F' then some (c.toNat - 55)
  else none

/-- The character of an escape of two. -/
def unescape : Char → Option Char
  | '"' => some '"'
  | '\\' => some '\\'
  | '/' => some '/'
  | 'n' => some '\n'
  | 'r' => some '\r'
  | 't' => some '\t'
  | 'b' => some '\x08'
  | 'f' => some '\x0c'
  | _ => none

def blank (c : Char) : Bool := c = ' ' || c = '\n' || c = '\t' || c = '\r'

def punctuation (c : Char) : Option Token :=
  if c = '{' then some .lbrace
  else if c = '}' then some .rbrace
  else if c = ':' then some .colon
  else if c = ',' then some .comma
  else none

def Shape.step : Shape → Char → Shape
  | .out, c =>
      if c = '"' then .str else if blank c ∨ (punctuation c).isSome then .out else .bad
  | .str, c => if c = '"' then .out else if c = '\\' then .esc else if c < ' ' then .bad else .str
  | .esc, c => if c = 'u' then .hex 0 else if (unescape c).isSome then .str else .bad
  | .hex k, c => if (hexVal c).isSome then (if k = 3 then .str else .hex (k + 1)) else .bad
  | .bad, _ => .bad

/-- The string of some code units. A surrogate without its partner, which is no character, is
read as 0. -/
def decodeUnits : List Nat → Str
  | [] => []
  | [u] => [Char.ofNat u]
  | hi :: lo :: units =>
      if 0xD800 ≤ hi ∧ hi < 0xDC00 ∧ 0xDC00 ≤ lo ∧ lo < 0xE000 then
        Char.ofNat (0x10000 + (hi - 0xD800) * 0x400 + (lo - 0xDC00)) :: decodeUnits units
      else Char.ofNat hi :: decodeUnits (lo :: units)

/-- The lexer: the code units of the string and the digits of the escape it is in. -/
structure Lexer where
  shape : Shape
  units : List Nat
  digits : Nat
  tokens : List Token

def Lexer.start : Lexer := ⟨.out, [], 0, []⟩

def Lexer.step (l : Lexer) (c : Char) : Lexer :=
  match l.shape with
  | .out =>
      ⟨l.shape.step c, [], 0,
        match punctuation c with
        | some token => l.tokens ++ [token]
        | none => l.tokens⟩
  | .str =>
      if c = '"' then ⟨l.shape.step c, [], 0, l.tokens ++ [.str (decodeUnits l.units)]⟩
      else if c = '\\' then { l with shape := l.shape.step c }
      else { l with shape := l.shape.step c, units := l.units ++ [c.toNat] }
  | .esc =>
      match unescape c with
      | some u => { l with shape := l.shape.step c, units := l.units ++ [u.toNat] }
      | none => { l with shape := l.shape.step c, digits := 0 }
  | .hex k =>
      let digits := 16 * l.digits + (hexVal c).getD 0
      if k = 3 then { l with shape := l.shape.step c, units := l.units ++ [digits] }
      else { l with shape := l.shape.step c, digits := digits }
  | .bad => l

/-- The tokens of a text. -/
def lex (text : Str) : Option (List Token) :=
  let l := run Lexer.step .start text
  if l.shape = .out then some l.tokens else none

inductive Value where
  | str (s : Str)
  | obj (members : List (Str × Value))

mutual

/-- A value at the front of the tokens. -/
def parseValue : Nat → List Token → Option (Value × List Token)
  | 0, _ => none
  | _ + 1, .str s :: rest => some (.str s, rest)
  | _ + 1, .lbrace :: .rbrace :: rest => some (.obj [], rest)
  | n + 1, .lbrace :: rest =>
      match parseMembers n rest with
      | some (members, rest) => some (.obj members, rest)
      | none => none
  | _, _ => none

/-- The members of an object, up to its end. -/
def parseMembers : Nat → List Token → Option (List (Str × Value) × List Token)
  | n + 1, .str key :: .colon :: rest =>
      match parseValue n rest with
      | some (value, .rbrace :: rest) => some ([(key, value)], rest)
      | some (value, .comma :: rest) =>
          match parseMembers n rest with
          | some (members, rest) => some ((key, value) :: members, rest)
          | none => none
      | _ => none
  | _, _ => none

end

/-- `json.loads`. -/
def loads (text : Str) : Option Value :=
  match lex text with
  | some tokens =>
      match parseValue (tokens.length + 1) tokens with
      | some (value, []) => some value
      | _ => none
  | none => none

/-- The value of a key: the last one, as in a `dict`. -/
def get (members : List (Str × Value)) (key : Str) : Option Value := members.reverse.lookup key

/-! ### Escapes -/

section Escape

theorem unescape_shortEscape {c e : Char} (h : shortEscape c = some e) :
    unescape e = some c ∧ e ≠ 'u' := by
  unfold shortEscape at h
  split at h <;> first | contradiction | (cases h; decide)

theorem hexVal_hexDigit {n : Nat} (h : n < 16) : hexVal (hexDigit n) = some n := by
  have hall : ∀ n < 16, hexVal (hexDigit n) = some n := by decide
  exact hall n h

/-- The characters of an escape. -/
def escapeAlphabet : Str := ['\\', '"', 'n', 'r', 't', 'b', 'f', 'u'] ++ hexDigits

theorem hexDigit_mem (n : Nat) : hexDigit n ∈ hexDigits := by
  unfold hexDigit
  by_cases h : n < hexDigits.length
  · rw [List.getD_eq_getElem _ _ h]
    exact List.getElem_mem h
  · rw [List.getD_eq_default _ _ (Nat.le_of_not_lt h)]
    decide

/-- A character is printed as it is, or as an escape. -/
theorem escapeChar_cases (c : Char) :
    (escapeChar c = [c] ∧ printable c = true ∧ shortEscape c = none) ∨
      (∃ t, escapeChar c = '\\' :: t) ∧ ∀ y ∈ escapeChar c, y ∈ escapeAlphabet := by
  unfold escapeChar
  cases hshort : shortEscape c with
  | some e =>
    refine .inr ⟨⟨[e], rfl⟩, ?_⟩
    have he : e ∈ escapeAlphabet := by
      unfold shortEscape at hshort
      split at hshort <;> first | contradiction | (cases hshort; decide)
    simp only [List.forall_mem_cons]
    exact ⟨by decide, he, by simp⟩
  | none =>
    dsimp only
    by_cases hprint : printable c
    · exact .inl ⟨if_pos hprint, hprint, rfl⟩
    · rw [if_neg hprint]
      refine .inr ⟨?_, ?_⟩
      · unfold utf16
        split_ifs
        · exact ⟨_, rfl⟩
        · exact ⟨_, rfl⟩
      · intro y hy
        obtain ⟨u, -, hy⟩ := List.mem_flatMap.mp hy
        have hhex : ∀ n, hexDigit n ∈ escapeAlphabet := fun n =>
          List.mem_append_right _ (hexDigit_mem n)
        rw [List.mem_cons, List.mem_cons] at hy
        rcases hy with rfl | rfl | hy
        · decide
        · decide
        · simp only [hex4, List.mem_cons, List.not_mem_nil, or_false] at hy
          rcases hy with rfl | rfl | rfl | rfl <;> exact hhex _

theorem escapeChar_ne_nil (c : Char) : escapeChar c ≠ [] := by
  unfold escapeChar
  split
  · simp
  · split_ifs
    · simp
    · unfold utf16
      split_ifs <;> simp

/-- A character that stands for itself, and is in no escape. -/
def Safe (c : Char) : Prop := escapeChar c = [c] ∧ c ∉ escapeAlphabet

instance (c : Char) : Decidable (Safe c) := inferInstanceAs (Decidable (_ ∧ _))

/-- A text of such characters. -/
def SafeText (s : Str) : Prop := s ≠ [] ∧ s.all fun c => Safe c

instance (s : Str) : Decidable (SafeText s) := inferInstanceAs (Decidable (_ ∧ _))

theorem SafeText.safe {s : Str} (h : SafeText s) : ∀ c ∈ s, Safe c := by
  simpa using h.2

theorem Safe.notMem {c x : Char} (h : Safe c) (hne : x ≠ c) : c ∉ escapeChar x := by
  rcases escapeChar_cases x with ⟨hx, -, -⟩ | ⟨-, hx⟩
  · rw [hx, List.mem_singleton]
    exact hne.symm
  · exact fun hmem => h.2 (hx c hmem)

@[simp] theorem escape_nil : escape [] = [] := rfl

theorem escape_cons (c : Char) (s : Str) : escape (c :: s) = escapeChar c ++ escape s :=
  List.flatMap_cons

theorem escape_append (s s' : Str) : escape (s ++ s') = escape s ++ escape s' :=
  List.flatMap_append

/-- A text without escapes. -/
theorem escape_eq_self {s : Str} (h : ∀ c ∈ s, escapeChar c = [c]) : escape s = s := by
  induction s with
  | nil => rfl
  | cons c s ih =>
    rw [List.forall_mem_cons] at h
    rw [escape_cons, h.1, ih h.2, List.singleton_append]

/-- Without a backslash in the text there are no escapes in it. -/
theorem eq_of_escape {s t : Str} (h : escape s = t) (hback : '\\' ∉ t) : s = t := by
  refine (escape_eq_self fun c hc => ?_).symm.trans h
  rcases escapeChar_cases c with ⟨hplain, -, -⟩ | ⟨⟨t, ht⟩, -⟩
  · exact hplain
  · refine absurd ?_ hback
    rw [← h]
    exact List.mem_flatMap.mpr ⟨c, hc, by rw [ht]; exact List.mem_cons_self⟩

theorem quote_notMem_escapeChar {c : Char} (h : c ≠ '"') : '"' ∉ escapeChar c := by
  unfold escapeChar
  cases hshort : shortEscape c with
  | some e =>
    have he : e ≠ '"' := by
      rintro rfl
      have hread := (unescape_shortEscape hshort).1
      exact h (Option.some.inj hread).symm
    simpa using he.symm
  | none =>
    dsimp only
    split_ifs
    · simpa using h.symm
    · have hhex : ∀ n, '"' ≠ hexDigit n := by
        intro n hn
        have hmem := hexDigit_mem n
        rw [← hn] at hmem
        exact absurd hmem (by decide)
      simp [hex4, hhex]

/-- A quotation mark in the text is behind a backslash, and stands for one. -/
theorem escape_eq_append_quote {s u v : Str} (h : escape s = u ++ '"' :: v) :
    ∃ s₀ s₁, s = s₀ ++ '"' :: s₁ ∧ u = escape s₀ ++ ['\\'] ∧ v = escape s₁ := by
  induction s generalizing u with
  | nil => simp at h
  | cons c s ih =>
    rw [escape_cons] at h
    by_cases hc : c = '"'
    · subst hc
      change '\\' :: '"' :: escape s = u ++ '"' :: v at h
      cases u with
      | nil => simp at h
      | cons x u =>
        rw [List.cons_append, List.cons.injEq] at h
        obtain ⟨rfl, h⟩ := h
        cases u with
        | nil =>
          rw [List.nil_append, List.cons.injEq] at h
          exact ⟨[], s, rfl, rfl, h.2.symm⟩
        | cons y u =>
          rw [List.cons_append, List.cons.injEq] at h
          obtain ⟨rfl, h⟩ := h
          obtain ⟨s₀, s₁, rfl, rfl, rfl⟩ := ih h
          exact ⟨'"' :: s₀, s₁, rfl, rfl, rfl⟩
    · rcases List.append_eq_append_iff.mp h with ⟨a, rfl, ha⟩ | ⟨a, ha, ht⟩
      · obtain ⟨s₀, s₁, rfl, rfl, rfl⟩ := ih ha
        exact ⟨c :: s₀, s₁, rfl, by rw [escape_cons, List.append_assoc], rfl⟩
      · cases a with
        | nil =>
          obtain ⟨s₀, s₁, -, hu, -⟩ := ih (u := []) ht.symm
          simp at hu
        | cons y a =>
          rw [List.cons_append, List.cons.injEq] at ht
          refine absurd ?_ (quote_notMem_escapeChar hc)
          rw [ha, ht.1]
          exact List.mem_append_right _ List.mem_cons_self

section Pattern

variable {pat rep s : Str}

theorem prefix_escape (hpat : ∀ c ∈ pat, Safe c) : pat <+: escape s ↔ pat <+: s := by
  induction pat generalizing s with
  | nil => simp
  | cons y pat ih =>
    rw [List.forall_mem_cons] at hpat
    cases s with
    | nil => simp
    | cons x s =>
      by_cases hx : x = y
      · rw [hx, escape_cons, hpat.1.1, List.singleton_append, List.cons_prefix_cons,
          List.cons_prefix_cons, ih hpat.2]
      · rw [List.cons_prefix_cons, escape_cons]
        obtain ⟨z, t, ht⟩ := List.exists_cons_of_ne_nil (escapeChar_ne_nil x)
        have hmem := hpat.1.notMem hx
        rw [ht, List.mem_cons, not_or] at hmem
        rw [ht, List.cons_append, List.cons_prefix_cons]
        exact iff_of_false (fun h => hmem.1 h.1) fun h => hx h.1.symm

/-- **Replacing commutes with escaping**, where the pattern is in no escape. -/
theorem replaceAll_escape (hsafe : SafeText pat) (hrep : escape rep = rep) :
    replaceAll pat rep (escape s) = escape (replaceAll pat rep s) := by
  have hne := hsafe.1
  have hpat := hsafe.safe
  induction s using replaceAll_induction hne with
  | nil => rfl
  | hit s ih =>
    rw [escape_append, escape_eq_self fun c hc => (hpat c hc).1, replaceAll_hit hne,
      replaceAll_hit hne, ih, escape_append, hrep]
  | miss x s hmiss ih =>
    rw [replaceAll_miss hmiss, escape_cons, escape_cons, ← ih]
    obtain ⟨y, p, rfl⟩ := List.exists_cons_of_ne_nil hne
    have hsafe := hpat y List.mem_cons_self
    by_cases hx : x = y
    · subst hx
      have hfirst := mt (prefix_escape (s := x :: s) hpat).mp hmiss
      rw [escape_cons, hsafe.1, List.singleton_append] at hfirst
      rw [hsafe.1, List.singleton_append, List.singleton_append, replaceAll_miss hfirst]
    · exact replaceAll_append_of_notMem (hsafe.notMem hx)

/-- **An occurrence in the text is one in the string**, where the pattern is in no escape. -/
theorem infix_escape (hsafe : SafeText pat) : pat <:+: escape s ↔ pat <:+: s := by
  have hne := hsafe.1
  have hpat := hsafe.safe
  constructor
  · induction s with
    | nil => simp
    | cons x s ih =>
      rintro ⟨u, v, h⟩
      rw [escape_cons, List.append_assoc] at h
      rw [List.infix_cons_iff]
      rcases List.append_eq_append_iff.mp h with ⟨a, ha, hrest⟩ | ⟨a, rfl, ha⟩
      · cases a with
        | nil => exact .inr (ih ⟨[], v, hrest⟩)
        | cons z a =>
          -- the occurrence begins in the escape of `x`, so it begins with `x`
          obtain ⟨y, p, rfl⟩ := List.exists_cons_of_ne_nil hne
          rw [List.cons_append, List.cons_append, List.cons.injEq] at hrest
          have hmem : y ∈ escapeChar x := by
            rw [ha, hrest.1]
            exact List.mem_append_right _ List.mem_cons_self
          have hsafe := hpat y List.mem_cons_self
          have hx : x = y := by
            by_contra hx
            exact hsafe.notMem hx hmem
          have hu : u = [] := by
            rw [hx, hsafe.1] at ha
            cases u with
            | nil => rfl
            | cons w u => simp at ha
          refine .inl ((prefix_escape hpat).mp ⟨v, ?_⟩)
          rw [escape_cons, ← h, hu, List.nil_append]
      · exact .inr (ih ⟨a, v, by rw [List.append_assoc]; exact ha.symm⟩)
  · rintro ⟨u, v, rfl⟩
    refine ⟨escape u, escape v, ?_⟩
    rw [escape_append, escape_append, escape_eq_self fun c hc => (hpat c hc).1]

/-- The same for a pattern that begins with a quotation mark, and a text with its first one. -/
theorem infix_quote_cons (hsafe : SafeText pat) :
    '"' :: pat <:+: '"' :: escape s ↔ '"' :: pat <:+: '"' :: s := by
  have hpat := hsafe.safe
  rw [List.infix_cons_iff, List.infix_cons_iff, List.cons_prefix_cons, List.cons_prefix_cons,
    prefix_escape hpat]
  refine or_congr_right ⟨?_, ?_⟩
  · rintro ⟨u, v, h⟩
    rw [List.append_assoc, List.cons_append] at h
    obtain ⟨s₀, s₁, rfl, -, hv⟩ := escape_eq_append_quote h.symm
    obtain ⟨t, ht⟩ := (prefix_escape hpat).mp ⟨v, hv⟩
    exact ⟨s₀, t, by rw [List.append_assoc, List.cons_append, ht]⟩
  · rintro ⟨u, v, rfl⟩
    refine ⟨escape u ++ ['\\'], escape v, ?_⟩
    rw [escape_append, escape_append, escape_cons, escape_eq_self fun c hc => (hpat c hc).1]
    simp [show escapeChar '"' = ['\\', '"'] from rfl]

/-- Replacements that do not touch the quotation marks. -/
theorem replaceAll_quote (hne : pat ≠ []) (hquote : '"' ∉ pat) :
    replaceAll pat rep (quote s) = '"' :: replaceAll pat rep (escape s) ++ ['"'] := by
  have hone : replaceAll pat rep ['"'] = ['"'] :=
    replaceAll_of_not_infix fun h => by
      obtain ⟨x, p, rfl⟩ := List.exists_cons_of_ne_nil hne
      have hx := h.subset List.mem_cons_self
      rw [List.mem_singleton] at hx
      exact hquote (hx ▸ List.mem_cons_self)
  have hleft : Apart pat ['"'] (escape s ++ ['"']) := by
    rintro x ⟨⟩ y - h
    exact hquote (h.subset List.mem_cons_self)
  have hright : Apart pat (escape s) ['"'] := by
    rintro x - y ⟨⟩ h
    exact hquote (h.subset (List.mem_cons_of_mem _ List.mem_cons_self))
  rw [quote, List.cons_append, ← List.singleton_append, replaceAll_append hne hleft,
    replaceAll_append hne hright, hone, List.singleton_append, List.cons_append]

theorem replaceAll_quote_safe (hsafe : SafeText pat) (hrep : escape rep = rep) :
    replaceAll pat rep (quote s) = quote (replaceAll pat rep s) := by
  have hquote : '"' ∉ pat := fun h => (hsafe.safe _ h).2 (by decide)
  rw [replaceAll_quote hsafe.1 hquote, replaceAll_escape hsafe hrep, quote]

end Pattern

end Escape

/-! ### Insertions -/

section Insert

/-- A text and the same with blanks, line ends or brackets in it. -/
inductive Inserts : Str → Str → Prop
  | nil : Inserts [] []
  | keep {t t' : Str} (c : Char) (h : Inserts t t') : Inserts (c :: t) (c :: t')
  | insert {t t' : Str} {c : Char} (hc : c ∈ [' ', '\n', '[', ']']) (h : Inserts t t') :
      Inserts t (c :: t')

theorem Inserts.refl (t : Str) : Inserts t t := by
  induction t with
  | nil => exact .nil
  | cons c t ih => exact .keep c ih

theorem Inserts.append {a a' b b' : Str} (ha : Inserts a a') (hb : Inserts b b') :
    Inserts (a ++ b) (a' ++ b') := by
  induction ha with
  | nil => exact hb
  | keep c _ ih => exact .keep c ih
  | insert hc _ ih => exact .insert hc ih

theorem inserts_replaceAll {pat rep : Str} (hpat : pat ≠ []) (h : Inserts pat rep) (t : Str) :
    Inserts t (replaceAll pat rep t) := by
  induction t using replaceAll_induction hpat with
  | nil => exact .nil
  | hit t ih =>
    rw [replaceAll_hit hpat]
    exact h.append ih
  | miss c t hmiss ih =>
    rw [replaceAll_miss hmiss]
    exact .keep c ih

theorem inserts_newline {pat : Str} (hpat : pat ≠ []) (t : Str) :
    Inserts t (replaceAll pat (pat ++ ['\n']) t) := by
  have hbehind := (Inserts.refl pat).append (.insert (c := '\n') (by decide) .nil)
  rw [List.append_nil] at hbehind
  exact inserts_replaceAll hpat hbehind t

theorem run_bad (t : Str) : run Shape.step .bad t = .bad := by
  induction t with
  | nil => rfl
  | cons c t ih => exact ih

/-- Such a character is ignored or an error. -/
theorem Shape.step_insert {c : Char} (hc : c ∈ [' ', '\n', '[', ']']) (s : Shape) :
    s.step c = s ∨ s.step c = .bad := by
  simp only [List.mem_cons, List.not_mem_nil, or_false] at hc
  rcases hc with rfl | rfl | rfl | rfl <;> cases s <;> first | exact .inl rfl | exact .inr rfl

/-- **A text with insertions is where the text is, or beyond an error.** -/
theorem run_inserts {t t' : Str} (h : Inserts t t') (s : Shape) :
    run Shape.step s t' = run Shape.step s t ∨ run Shape.step s t' = .bad := by
  induction h generalizing s with
  | nil => exact .inl rfl
  | keep c _ ih => exact ih (s.step c)
  | insert hc _ ih =>
    rw [run_cons]
    rcases s.step_insert hc with hstep | hstep
    · rw [hstep]
      exact ih s
    · rw [hstep, run_bad]
      exact .inr rfl

theorem run_inserts_bad {t t' : Str} (h : Inserts t t') {s : Shape}
    (hbad : run Shape.step s t = .bad) : run Shape.step s t' = .bad := by
  rcases run_inserts h s with heq | heq
  · rw [heq, hbad]
  · exact heq

/-- In a string. -/
def Shape.inside : Shape → Bool
  | .str | .esc | .hex _ => true
  | .out | .bad => false

theorem Shape.step_newline {s : Shape} (h : s.inside = true) : s.step '\n' = .bad := by
  cases s with
  | str => rfl
  | esc => rfl
  | hex k => rfl
  | out => exact absurd h Bool.false_ne_true
  | bad => exact absurd h Bool.false_ne_true

/-- All of a text is in a string, but for where it begins. -/
def Inside (s : Shape) (t : Str) : Prop :=
  ∀ u, u ≠ [] → u <+: t → (run Shape.step s u).inside = true

/-- **A line end behind an occurrence in a string is an error.** -/
theorem run_replaceAll_newline {pat t : Str} {s : Shape} (hpat : pat ≠ []) (h : pat <:+: t)
    (hin : Inside s t) : run Shape.step s (replaceAll pat (pat ++ ['\n']) t) = .bad := by
  induction t using replaceAll_induction hpat generalizing s with
  | nil => exact absurd (List.infix_nil.mp h) hpat
  | hit t _ =>
    have hstep := Shape.step_newline (hin pat hpat (List.prefix_append pat t))
    rw [replaceAll_hit hpat, run_append, run_append, run_cons, hstep, run_nil, run_bad]
  | miss c t hmiss ih =>
    rw [replaceAll_miss hmiss, run_cons]
    refine ih ((List.infix_cons_iff.mp h).resolve_left hmiss) fun u hu hfirst => ?_
    exact hin (c :: u) (List.cons_ne_nil _ _) (List.cons_prefix_cons.mpr ⟨rfl, hfirst⟩)

end Insert

/-! ### Strings in a text -/

section Quote

theorem inside_cons {s : Shape} {c : Char} {t : Str} :
    Inside s (c :: t) ↔ (s.step c).inside = true ∧ Inside (s.step c) t := by
  constructor
  · intro h
    refine ⟨h [c] (List.cons_ne_nil _ _) (by simp), fun u hu hfirst => ?_⟩
    exact h (c :: u) (List.cons_ne_nil _ _) (List.cons_prefix_cons.mpr ⟨rfl, hfirst⟩)
  · rintro ⟨hstep, htail⟩ u hu hfirst
    obtain ⟨x, u, rfl⟩ := List.exists_cons_of_ne_nil hu
    obtain ⟨rfl, htail'⟩ := List.cons_prefix_cons.mp hfirst
    by_cases hnil : u = []
    · rw [hnil]
      exact hstep
    · exact htail u hnil htail'

theorem inside_nil (s : Shape) : Inside s [] := fun _ hu hfirst =>
  absurd (List.prefix_nil.mp hfirst) hu

theorem Inside.append {s : Shape} {a b : Str} (ha : Inside s a)
    (hb : Inside (run Shape.step s a) b) : Inside s (a ++ b) := by
  induction a generalizing s with
  | nil => exact hb
  | cons c a ih =>
    rw [inside_cons] at ha
    exact inside_cons.mpr ⟨ha.1, ih ha.2 hb⟩

theorem Shape.step_digit (k n : Nat) :
    (Shape.hex k).step (hexDigit (n % 16)) = if k = 3 then .str else .hex (k + 1) := by
  rw [Shape.step, hexVal_hexDigit (Nat.mod_lt n (by decide))]
  rfl

/-- The escape of a code unit. -/
theorem inside_unit (u : Nat) : Inside .str ('\\' :: 'u' :: hex4 u) ∧
    run Shape.step .str ('\\' :: 'u' :: hex4 u) = .str := by
  have hesc : Shape.str.step '\\' = .esc := rfl
  have hhex : Shape.esc.step 'u' = .hex 0 := rfl
  have h₀ : ∀ n, (Shape.hex 0).step (hexDigit (n % 16)) = .hex 1 := fun n => Shape.step_digit 0 n
  have h₁ : ∀ n, (Shape.hex 1).step (hexDigit (n % 16)) = .hex 2 := fun n => Shape.step_digit 1 n
  have h₂ : ∀ n, (Shape.hex 2).step (hexDigit (n % 16)) = .hex 3 := fun n => Shape.step_digit 2 n
  have h₃ : ∀ n, (Shape.hex 3).step (hexDigit (n % 16)) = .str := fun n => Shape.step_digit 3 n
  simp only [hex4, inside_cons, run_cons, run_nil, hesc, hhex, h₀, h₁, h₂, h₃]
  exact ⟨⟨rfl, rfl, rfl, rfl, rfl, rfl, inside_nil _⟩, trivial⟩

/-- A printable character is in a string as it is. -/
theorem step_printable {c : Char} (hprint : printable c = true) (hshort : shortEscape c = none) :
    Shape.str.step c = .str ∧ c ≠ '"' ∧ c ≠ '\\' := by
  have hquote : c ≠ '"' := by
    rintro rfl
    exact absurd hshort (by decide)
  have hback : c ≠ '\\' := by
    rintro rfl
    exact absurd hshort (by decide)
  have hge : ¬ c < ' ' := by
    simp only [printable, Bool.and_eq_true, decide_eq_true_eq] at hprint
    exact not_lt.mpr hprint.1
  exact ⟨by simp [Shape.step, hquote, hback, hge], hquote, hback⟩

/-- An escape goes from a string to a string. -/
theorem inside_escapeChar (c : Char) :
    Inside .str (escapeChar c) ∧ run Shape.step .str (escapeChar c) = .str := by
  unfold escapeChar
  cases hshort : shortEscape c with
  | some e =>
    obtain ⟨hread, hu⟩ := unescape_shortEscape hshort
    have hesc : Shape.str.step '\\' = .esc := rfl
    have hstep : Shape.esc.step e = .str := by simp [Shape.step, hu, hread]
    simp only [inside_cons, run_cons, hesc, hstep]
    exact ⟨⟨rfl, rfl, inside_nil _⟩, rfl⟩
  | none =>
    dsimp only
    split_ifs with hprint
    · have hstep := (step_printable hprint hshort).1
      simp only [inside_cons, run_cons, hstep]
      exact ⟨⟨rfl, inside_nil _⟩, rfl⟩
    · unfold utf16
      split_ifs
      · simpa using inside_unit c.toNat
      · have hhi := inside_unit (0xD800 + (c.toNat - 0x10000) / 0x400)
        have hlo := inside_unit (0xDC00 + (c.toNat - 0x10000) % 0x400)
        simp only [List.flatMap_cons, List.flatMap_nil, List.append_nil]
        exact ⟨hhi.1.append (hhi.2.symm ▸ hlo.1), by rw [run_append, hhi.2, hlo.2]⟩

theorem inside_escape (s : Str) :
    Inside .str (escape s) ∧ run Shape.step .str (escape s) = .str := by
  induction s with
  | nil => exact ⟨inside_nil _, rfl⟩
  | cons c s ih =>
    obtain ⟨hin, hrun⟩ := inside_escapeChar c
    rw [escape_cons]
    exact ⟨hin.append (hrun.symm ▸ ih.1), by rw [run_append, hrun, ih.2]⟩

/-- A string up to its end is in the string. -/
theorem inside_quote (s : Str) : Inside .out ('"' :: escape s) :=
  inside_cons.mpr ⟨rfl, (inside_escape s).1⟩

/-- A quotation mark behind the first one is the last one, or one in the string. -/
theorem quote_eq_append_quote {s u v : Str} (h : quote s = u ++ '"' :: v) (hu : u ≠ []) :
    (u = '"' :: escape s ∧ v = []) ∨
      ∃ s₀ s₁, s = s₀ ++ '"' :: s₁ ∧ u = '"' :: escape s₀ ++ ['\\'] ∧ v = escape s₁ ++ ['"'] := by
  obtain ⟨x, u, rfl⟩ := List.exists_cons_of_ne_nil hu
  rw [quote, List.cons_append, List.cons_append, List.cons.injEq] at h
  obtain ⟨rfl, h⟩ := h
  rcases v.eq_nil_or_concat with rfl | ⟨v, z, rfl⟩
  · exact .inl ⟨by rw [List.append_inj_left' h rfl], rfl⟩
  · rw [List.concat_eq_append, ← List.cons_append, ← List.append_assoc] at h
    obtain ⟨hescape, hz⟩ := List.append_inj' h rfl
    obtain ⟨s₀, s₁, rfl, rfl, rfl⟩ := escape_eq_append_quote hescape
    exact .inr ⟨s₀, s₁, rfl, rfl, by rw [List.concat_eq_append, hz]⟩

section Pattern

variable {p rep s key : Str}

/-- A pattern with a quotation mark at its end, and no backslash before it, is at the end. -/
theorem eq_nil_of_quote_eq {u v : Str} (hp : p ≠ []) (hback : '\\' ∉ p)
    (h : quote s = u ++ (p ++ ['"']) ++ v) : v = [] := by
  rw [← List.append_assoc, List.append_assoc, List.singleton_append] at h
  obtain ⟨-, hv⟩ | ⟨s₀, -, -, hu, -⟩ :=
    quote_eq_append_quote h (List.append_ne_nil_of_right_ne_nil u hp)
  · exact hv
  · refine absurd ?_ hback
    obtain ⟨q, x, rfl⟩ : ∃ q x, p = q ++ [x] :=
      ⟨_, _, (List.dropLast_concat_getLast hp).symm⟩
    rw [← List.append_assoc] at hu
    have hx := List.append_inj_right' hu rfl
    rw [hx]
    exact List.mem_append_right _ List.mem_cons_self

theorem replaceAll_quote_end {a : Str} (hp : p ≠ []) (hback : '\\' ∉ p)
    (h : quote s = a ++ (p ++ ['"'])) :
    replaceAll (p ++ ['"']) rep (quote s) = a ++ rep := by
  rw [h]
  refine replaceAll_concat (List.append_ne_nil_of_left_ne_nil hp _) fun u v huv => ?_
  exact eq_nil_of_quote_eq hp hback (h.trans huv)

theorem replaceAll_quote_eq_self (hp : p ≠ []) (hback : '\\' ∉ p)
    (h : ¬ p ++ ['"'] <:+ quote s) : replaceAll (p ++ ['"']) rep (quote s) = quote s := by
  refine replaceAll_of_not_infix ?_
  rintro ⟨u, v, huv⟩
  obtain rfl := eq_nil_of_quote_eq hp hback huv.symm
  exact h ⟨u, by rw [← huv, List.append_nil]⟩

/-- A blank put before a name: at the front of a string that is the name. -/
theorem replaceAll_quote_name (hkey : '\\' ∉ escape key) (h : ¬ '"' :: key <:+ s) :
    replaceAll (quote key) (' ' :: quote key) (quote s) = quote s ∨
      replaceAll (quote key) (' ' :: quote key) (quote s) = ' ' :: quote s := by
  have hback : '\\' ∉ '"' :: escape key := by
    rw [List.mem_cons, not_or]
    exact ⟨by decide, hkey⟩
  by_cases hend : quote key <:+ quote s
  · obtain ⟨a, ha⟩ := hend
    rw [quote, replaceAll_quote_end (List.cons_ne_nil _ _) hback ha.symm, ← quote]
    by_cases hnil : a = []
    · rw [hnil, List.nil_append] at ha
      exact .inr (by rw [hnil, ha, List.nil_append])
    · -- the name with its first quotation mark is the end of the string
      rcases quote_eq_append_quote ha.symm hnil with ⟨-, hv⟩ | ⟨s₀, s₁, rfl, -, hv⟩
      · exact absurd hv (List.append_ne_nil_of_right_ne_nil _ (List.cons_ne_nil _ _))
      · have hescape := List.append_inj_left' hv rfl
        rw [eq_of_escape hescape.symm hkey, ← eq_of_escape rfl hkey] at h
        exact absurd (List.suffix_append s₀ _) h
  · exact .inl (replaceAll_quote_eq_self (List.cons_ne_nil _ _) hback hend)

/-- A blank put before a name at the end of a string is behind a backslash. -/
theorem run_replaceAll_quote_name (hkey : '\\' ∉ escape key) (h : '"' :: key <:+ s) :
    run Shape.step .out (replaceAll (quote key) (' ' :: quote key) (quote s)) = .bad := by
  have hback : '\\' ∉ '"' :: escape key := by
    rw [List.mem_cons, not_or]
    exact ⟨by decide, hkey⟩
  obtain ⟨s₀, rfl⟩ := h
  have hquote : quote (s₀ ++ '"' :: key) = ('"' :: escape s₀ ++ ['\\']) ++ quote key := by
    rw [quote, escape_append, escape_cons, quote]
    simp [show escapeChar '"' = ['\\', '"'] from rfl]
  have hback' : run Shape.step .out ('"' :: escape s₀ ++ ['\\']) = .esc := by
    have hstr : run Shape.step .out ('"' :: escape s₀) = .str := (inside_escape s₀).2
    rw [run_append, hstr]
    rfl
  have hblank : Shape.esc.step ' ' = .bad := rfl
  rw [quote, replaceAll_quote_end (List.cons_ne_nil _ _) hback hquote, ← quote, run_append, hback',
    run_cons, hblank, run_bad]

end Pattern

end Quote

/-! ### Reading what is written -/

section Lex

theorem Lexer.shape_step (l : Lexer) (c : Char) : (l.step c).shape = l.shape.step c := by
  obtain ⟨shape, units, digits, tokens⟩ := l
  cases shape with
  | out => rfl
  | str =>
    simp only [Lexer.step]
    split_ifs <;> rfl
  | esc =>
    simp only [Lexer.step]
    split <;> rfl
  | hex k =>
    simp only [Lexer.step]
    split_ifs <;> rfl
  | bad => rfl

theorem Lexer.shape_run (l : Lexer) (t : Str) :
    (run Lexer.step l t).shape = run Shape.step l.shape t := by
  induction t generalizing l with
  | nil => rfl
  | cons c t ih => rw [run_cons, run_cons, ih, Lexer.shape_step]

/-- The tokens before a text are kept. -/
theorem Lexer.step_tokens (l : Lexer) (ts : List Token) (c : Char) :
    Lexer.step { l with tokens := ts ++ l.tokens } c =
      { l.step c with tokens := ts ++ (l.step c).tokens } := by
  obtain ⟨shape, units, digits, tokens⟩ := l
  cases shape with
  | out =>
    simp only [Lexer.step]
    split <;> simp
  | str =>
    simp only [Lexer.step]
    split_ifs <;> simp
  | esc =>
    simp only [Lexer.step]
    split <;> rfl
  | hex k =>
    simp only [Lexer.step]
    split_ifs <;> rfl
  | bad => rfl

theorem Lexer.run_tokens (l : Lexer) (ts : List Token) (t : Str) :
    run Lexer.step { l with tokens := ts ++ l.tokens } t =
      { run Lexer.step l t with tokens := ts ++ (run Lexer.step l t).tokens } := by
  induction t generalizing l with
  | nil => rfl
  | cons c t ih => rw [run_cons, run_cons, Lexer.step_tokens, ih]

/-- Between tokens. -/
def Lexer.at (ts : List Token) : Lexer := ⟨.out, [], 0, ts⟩

/-- A piece of a text that is read as some tokens, wherever it stands between tokens. -/
def Reads (t : Str) (ts : List Token) : Prop :=
  run Lexer.step .start t = .at ts

theorem Reads.run_at {t : Str} {ts : List Token} (h : Reads t ts) (before : List Token) :
    run Lexer.step (.at before) t = .at (before ++ ts) := by
  have hrun := Lexer.run_tokens .start before t
  rw [show run Lexer.step .start t = .at ts from h] at hrun
  change run Lexer.step ⟨.out, [], 0, before ++ []⟩ t = _ at hrun
  rw [List.append_nil] at hrun
  exact hrun

theorem Reads.append {t t' : Str} {ts ts' : List Token} (h : Reads t ts) (h' : Reads t' ts') :
    Reads (t ++ t') (ts ++ ts') := by
  rw [Reads, run_append, show run Lexer.step .start t = .at ts from h, h'.run_at]

theorem Reads.lex {t : Str} {ts : List Token} (h : Reads t ts) : lex t = some ts := by
  rw [Json.lex, show run Lexer.step .start t = .at ts from h]
  rfl

/-- Such a piece ends between tokens. -/
theorem Reads.run_shape {t : Str} {ts : List Token} (h : Reads t ts) :
    run Shape.step .out t = .out := by
  have hshape := Lexer.shape_run .start t
  rw [show run Lexer.step .start t = .at ts from h] at hshape
  exact hshape.symm

theorem lex_eq_none {t : Str} (h : run Shape.step .out t = .bad) : lex t = none := by
  have hshape := Lexer.shape_run .start t
  rw [show run Shape.step Lexer.start.shape t = .bad from h] at hshape
  rw [lex, if_neg (by rw [hshape]; decide)]

theorem reads_blank {t : Str} (h : ∀ c ∈ t, c = ' ' ∨ c = '\n') : Reads t [] := by
  induction t with
  | nil => rfl
  | cons c t ih =>
    rw [List.forall_mem_cons] at h
    have htail : run Lexer.step .start t = .at [] := ih h.2
    rcases h.1 with rfl | rfl
    · exact htail
    · exact htail

theorem run_unit {u : Nat} (hu : u < 0x10000) (units : List Nat) (digits : Nat)
    (ts : List Token) : ∃ digits',
    run Lexer.step ⟨.str, units, digits, ts⟩ ('\\' :: 'u' :: hex4 u) =
      ⟨.str, units ++ [u], digits', ts⟩ := by
  have hesc : Lexer.step ⟨.str, units, digits, ts⟩ '\\' = ⟨.esc, units, digits, ts⟩ := rfl
  have hhex : Lexer.step ⟨.esc, units, digits, ts⟩ 'u' = ⟨.hex 0, units, 0, ts⟩ := rfl
  have hdigit : ∀ k < 3, ∀ digits n, Lexer.step ⟨.hex k, units, digits, ts⟩ (hexDigit (n % 16)) =
      ⟨.hex (k + 1), units, 16 * digits + n % 16, ts⟩ := by
    intro k hk digits n
    have hne : k ≠ 3 := Nat.ne_of_lt hk
    simp [Lexer.step, Shape.step_digit, hexVal_hexDigit (Nat.mod_lt n (by decide : 0 < 16)), hne]
  have hlast : ∀ digits n, Lexer.step ⟨.hex 3, units, digits, ts⟩ (hexDigit (n % 16)) =
      ⟨.str, units ++ [16 * digits + n % 16], digits, ts⟩ := by
    intro digits n
    simp [Lexer.step, Shape.step_digit, hexVal_hexDigit (Nat.mod_lt n (by decide : 0 < 16))]
  refine ⟨16 * (16 * (16 * 0 + u / 4096 % 16) + u / 256 % 16) + u / 16 % 16, ?_⟩
  rw [hex4, run_cons, hesc, run_cons, hhex, run_cons, hdigit 0 (by decide), run_cons,
    hdigit 1 (by decide), run_cons, hdigit 2 (by decide), run_cons, hlast, run_nil]
  have hvalue : 16 * (16 * (16 * (16 * 0 + u / 4096 % 16) + u / 256 % 16) + u / 16 % 16) +
      u % 16 = u := by omega
  rw [hvalue]

/-- The values of a character. -/
theorem toNat_cases (c : Char) : c.toNat < 0xD800 ∨ 0xDFFF < c.toNat ∧ c.toNat < 0x110000 :=
  c.valid

theorem run_escapeChar (c : Char) (units : List Nat) (digits : Nat) (ts : List Token) :
    ∃ digits', run Lexer.step ⟨.str, units, digits, ts⟩ (escapeChar c) =
      ⟨.str, units ++ utf16 c, digits', ts⟩ := by
  have hsmall : printable c = true ∨ (shortEscape c).isSome → utf16 c = [c.toNat] := by
    intro h
    refine if_pos ?_
    rcases h with h | h
    · simp only [printable, Bool.and_eq_true, decide_eq_true_eq] at h
      have hle : c.toNat ≤ '~'.toNat := h.2
      exact Nat.lt_of_le_of_lt hle (by decide)
    · unfold shortEscape at h
      split at h <;> first | decide | contradiction
  unfold escapeChar
  cases hshort : shortEscape c with
  | some e =>
    obtain ⟨hread, hu⟩ := unescape_shortEscape hshort
    rw [hsmall (.inr (by rw [hshort]; rfl))]
    refine ⟨digits, ?_⟩
    have hesc : Lexer.step ⟨.str, units, digits, ts⟩ '\\' = ⟨.esc, units, digits, ts⟩ := rfl
    have hstep : Lexer.step ⟨.esc, units, digits, ts⟩ e =
        ⟨.str, units ++ [c.toNat], digits, ts⟩ := by
      simp [Lexer.step, hread, Shape.step, hu]
    rw [run_cons, hesc, run_cons, hstep, run_nil]
  | none =>
    dsimp only
    split_ifs with hprint
    · rw [hsmall (.inl hprint)]
      obtain ⟨hstep, hquote, hback⟩ := step_printable hprint hshort
      exact ⟨digits, by simp [run, Lexer.step, hquote, hback, hstep]⟩
    · unfold utf16
      split_ifs with hlt
      · simpa using run_unit hlt units digits ts
      · have hbound := toNat_cases c
        obtain ⟨d, hhi⟩ := run_unit (u := 0xD800 + (c.toNat - 0x10000) / 0x400) (by omega)
          units digits ts
        obtain ⟨d', hlo⟩ := run_unit (u := 0xDC00 + (c.toNat - 0x10000) % 0x400) (by omega)
          (units ++ [0xD800 + (c.toNat - 0x10000) / 0x400]) d ts
        refine ⟨d', ?_⟩
        rw [List.flatMap_cons, List.flatMap_cons, List.flatMap_nil, List.append_nil, run_append,
          hhi, hlo, List.append_assoc]
        rfl

theorem run_escape (s : Str) (units : List Nat) (digits : Nat) (ts : List Token) :
    ∃ digits', run Lexer.step ⟨.str, units, digits, ts⟩ (escape s) =
      ⟨.str, units ++ s.flatMap utf16, digits', ts⟩ := by
  induction s generalizing units digits with
  | nil => exact ⟨digits, by simp⟩
  | cons c s ih =>
    obtain ⟨d, hc⟩ := run_escapeChar c units digits ts
    obtain ⟨d', hs⟩ := ih (units ++ utf16 c) d
    exact ⟨d', by rw [escape_cons, run_append, hc, hs, List.flatMap_cons, List.append_assoc]⟩

theorem decodeUnits_utf16 (c : Char) (units : List Nat) :
    decodeUnits (utf16 c ++ units) = c :: decodeUnits units := by
  have hvalid := toNat_cases c
  unfold utf16
  split_ifs with hlt
  · -- no surrogate
    have hchar : Char.ofNat c.toNat = c := Char.ofNat_toNat c
    cases units with
    | nil => exact congrArg (fun c => [c]) hchar
    | cons lo units =>
      rw [List.singleton_append, decodeUnits, if_neg (by omega), hchar]
  · rw [List.cons_append, List.singleton_append, decodeUnits, if_pos (by omega)]
    have hvalue : 0x10000 + (0xD800 + (c.toNat - 0x10000) / 0x400 - 0xD800) * 0x400 +
        (0xDC00 + (c.toNat - 0x10000) % 0x400 - 0xDC00) = c.toNat := by omega
    rw [hvalue, Char.ofNat_toNat]

theorem decodeUnits_flatMap (s : Str) : decodeUnits (s.flatMap utf16) = s := by
  induction s with
  | nil => rfl
  | cons c s ih => rw [List.flatMap_cons, decodeUnits_utf16, ih]

/-- **A string is read as it was written.** -/
theorem reads_quote (s : Str) : Reads (quote s) [.str s] := by
  obtain ⟨d, hs⟩ := run_escape s [] 0 []
  have hopen : Lexer.step .start '"' = ⟨.str, [], 0, []⟩ := rfl
  rw [Reads, quote, List.cons_append, run_cons, hopen, run_append, hs, List.nil_append]
  change Lexer.mk .out [] 0 [.str (decodeUnits (s.flatMap utf16))] = _
  rw [decodeUnits_flatMap]
  rfl

end Lex

/-! ### Values -/

mutual

/-- The tokens of a value. -/
def Value.tokens : Value → List Token
  | .str s => [.str s]
  | .obj members => .lbrace :: membersTokens members

/-- The tokens of members, up to the end of their object. -/
def membersTokens : List (Str × Value) → List Token
  | [] => [.rbrace]
  | [(key, value)] => .str key :: .colon :: value.tokens ++ [.rbrace]
  | (key, value) :: m :: members =>
      .str key :: .colon :: value.tokens ++ .comma :: membersTokens (m :: members)

end

section Parse

theorem exists_membersTokens (m : Str × Value) (members : List (Str × Value)) :
    ∃ key tokens, membersTokens (m :: members) = .str key :: tokens := by
  cases members with
  | nil => exact ⟨_, _, rfl⟩
  | cons m' members => exact ⟨_, _, rfl⟩

mutual

theorem parseValue_tokens (value : Value) {n : Nat} (h : value.tokens.length < n)
    (rest : List Token) : parseValue n (value.tokens ++ rest) = some (value, rest) := by
  obtain ⟨n, rfl⟩ : ∃ k, n = k + 1 := ⟨n - 1, by omega⟩
  cases value with
  | str s => simp [Value.tokens, parseValue]
  | obj members =>
    cases members with
    | nil => simp [Value.tokens, membersTokens, parseValue]
    | cons m members =>
      rw [Value.tokens, List.length_cons] at h
      have hmembers := parseMembers_tokens m members (n := n) (by omega) rest
      obtain ⟨key, tokens, htokens⟩ := exists_membersTokens m members
      rw [htokens] at hmembers
      rw [Value.tokens, htokens, List.cons_append, List.cons_append, parseValue]
      · rw [← List.cons_append, hmembers]
      · simp

theorem parseMembers_tokens (m : Str × Value) (members : List (Str × Value)) {n : Nat}
    (h : (membersTokens (m :: members)).length ≤ n) (rest : List Token) :
    parseMembers n (membersTokens (m :: members) ++ rest) = some (m :: members, rest) := by
  obtain ⟨key, value⟩ := m
  cases members with
  | nil =>
    simp only [membersTokens, List.length_append, List.length_cons] at h
    obtain ⟨n, rfl⟩ : ∃ k, n = k + 1 := ⟨n - 1, by omega⟩
    have hvalue := parseValue_tokens value (n := n) (by omega) (.rbrace :: rest)
    simp [membersTokens, parseMembers, hvalue]
  | cons m members =>
    simp only [membersTokens, List.length_append, List.length_cons] at h
    obtain ⟨n, rfl⟩ : ∃ k, n = k + 1 := ⟨n - 1, by omega⟩
    have hvalue := parseValue_tokens value (n := n) (by omega)
      (.comma :: (membersTokens (m :: members) ++ rest))
    have hmembers := parseMembers_tokens m members (n := n) (by omega) rest
    simp [membersTokens, parseMembers, hvalue, hmembers]

end

/-- **A text of a value's tokens is loaded as the value.** -/
theorem loads_eq_some {t : Str} {value : Value} (h : Reads t value.tokens) :
    loads t = some value := by
  have hparse := parseValue_tokens value (Nat.lt_succ_self _) []
  rw [List.append_nil] at hparse
  rw [loads, h.lex]
  simp only [hparse]

theorem loads_eq_none {t : Str} (h : run Shape.step .out t = .bad) : loads t = none := by
  rw [loads, lex_eq_none h]

theorem mem_of_get {members : List (Str × Value)} {key : Str} {value : Value}
    (h : get members key = some value) : (key, value) ∈ members := by
  obtain ⟨front, back, heq, -⟩ := List.lookup_eq_some_iff.mp h
  rw [← List.mem_reverse, heq]
  exact List.mem_append_right _ List.mem_cons_self

theorem get_of_mem {members : List (Str × Value)} {key : Str} {value : Value}
    (hnodup : (members.map Prod.fst).Nodup) (h : (key, value) ∈ members) :
    get members key = some value := by
  rw [← List.mem_reverse] at h
  obtain ⟨front, back, heq⟩ := List.append_of_mem h
  refine List.lookup_eq_some_iff.mpr ⟨front, back, heq, fun p hp => ?_⟩
  rw [← List.nodup_reverse, ← List.map_reverse, heq, List.map_append, List.map_cons] at hnodup
  have hne := List.disjoint_of_nodup_append hnodup (List.mem_map_of_mem hp)
  rw [bne_iff_ne]
  rintro rfl
  exact hne List.mem_cons_self

end Parse

end Testbench.Lib.Json
