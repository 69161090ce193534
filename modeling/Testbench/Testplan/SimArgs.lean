import Testbench.Lib.Numeral
import Testbench.Testplan.ExcelToJson

/-!
`process_to_json` (`canfd/json/excel_to_json.py`) on the settings of a cell.

The options are put one behind the other without a blank, and the sequencer and the name are
joined in three ways. `translates_iff` says for which settings and which joining the options are
right all the same: for one setting at most.
-/

namespace Testbench.Testplan

open Testbench.Lib Testbench.Lib.Json

/-! ### Numbers in SystemVerilog -/

/-- The base of a literal. -/
def baseOf : Char → Option Nat
  | 'b' | 'B' => some 2
  | 'o' | 'O' => some 8
  | 'd' | 'D' => some 10
  | 'h' | 'H' => some 16
  | _ => none

/-- The size of a literal, which may be absent and is not 0. -/
def IsSize (size : Str) : Prop := size = [] ∨ IsNumeral 10 size ∧ size.head? ≠ some '0'

/-- The bits of a literal: as many as it has, and at least 32, if no size says it. -/
def literalBits (size : Str) (n : Nat) : Nat :=
  if size = [] then max 32 (n.log2 + 1) else numeralValue 10 size

/-- A text is a number, with its value. -/
inductive SvNumber : Str → Int → Prop
  | decimal {digits : Str} : IsNumeral 10 digits → SvNumber digits (numeralValue 10 digits)
  | negative {digits : Str} : IsNumeral 10 digits →
      SvNumber ('-' :: digits) (-numeralValue 10 digits)
  | literal {size digits : Str} {letter : Char} {base : Nat} : IsSize size →
      baseOf letter = some base → IsNumeral base digits →
      SvNumber (size ++ '\'' :: letter :: digits)
        (numeralValue base digits % 2 ^ literalBits size (numeralValue base digits) : Nat)
  | signedLiteral {size digits : Str} {s letter : Char} {base : Nat} : IsSize size →
      s = 's' ∨ s = 'S' → baseOf letter = some base → IsNumeral base digits →
      SvNumber (size ++ '\'' :: s :: letter :: digits)
        (Int.bmod (numeralValue base digits)
          (2 ^ literalBits size (numeralValue base digits)))

/-- A decimal numeral with its value. -/
def Denotes (numeral : Str) (n : Int) : Prop :=
  IsDigits 10 numeral ∧ n = numeralValue 10 numeral ∨
    ∃ digits, numeral = '-' :: digits ∧ IsDigits 10 digits ∧ n = -numeralValue 10 digits

/-! ### Settings and options -/

/-- A setting of a cell. What cannot be between quotation marks is not in it. -/
structure Setting where
  name : Str
  value : Str
  /-- The line ends in `;`. -/
  ended : Bool
  inName : name ≠ [] ∧ ∀ c ∈ name, c ∉ ['"', '\\', '\n', '=', ';']
  inValue : ∀ c ∈ value, c ∉ ['"', '\\', '\n']
  valueEnd : value.getLast? ≠ some ';'

def Setting.line (s : Setting) : Str :=
  s.name ++ '=' :: s.value ++ if s.ended then [';'] else []

/-- The cell, one setting to a line. All lines but the first are indented. -/
def cellText (indent : Nat) (settings : List Setting) : Str :=
  ('\n' :: List.replicate indent ' ').intercalate (settings.map Setting.line)

inductive ConfigKind where
  | int
  | string
  deriving DecidableEq

def ConfigKind.text : ConfigKind → Str
  | int => "+uvm_set_config_int=".toList
  | string => "+uvm_set_config_string=".toList

/-- An option of the simulator. -/
def configOption (kind : ConfigKind) (body : Str) : Str := kind.text ++ ('"' :: body ++ ['"'])

/-- What is between the quotation marks. -/
def configBody (sqr join name value : Str) : Str := sqr ++ (join ++ (name ++ ',' :: value))

/-- The option a setting asks for. -/
def Setting.Asks (s : Setting) (sqr join arg : Str) : Prop :=
  (∃ n numeral, SvNumber s.value n ∧ Denotes numeral n ∧
    arg = configOption .int (configBody sqr join s.name numeral)) ∨
  (∀ n, ¬ SvNumber s.value n) ∧ arg = configOption .string (configBody sqr join s.name s.value)

/-- The arguments of a shell command, with blanks between them. -/
def Separated : List Str → Str → Prop
  | [], text => text = []
  | [arg], text => text = arg
  | arg :: args, text => ∃ blanks rest, blanks ≠ [] ∧ (∀ c ∈ blanks, c = ' ' ∨ c = '\t') ∧
      Separated args rest ∧ text = arg ++ (blanks ++ rest)

namespace Flow

variable (flow : Flow)

/-- **The options of a cell are those its settings ask for, in order and separated**, with this
joining of the sequencer and the name. -/
def Translates (join : Str) (indent : Nat) (settings : List Setting) : Prop :=
  ∃ text args, flow.simArgs (cellText indent settings) = some text ∧
    List.Forall₂ (fun s arg => s.Asks flow.sqr join arg) settings args ∧ Separated args text

/-- `str.isdigit` and `int` on the characters of numerals. -/
structure ReadsNumerals : Prop where
  isdigit_digits : ∀ s, IsDigits 10 s → flow.isdigit s = true
  isdigit_other : ∀ s, ∀ c ∈ s, c.toNat < 128 → ¬ isDigit 10 c → flow.isdigit s = false
  int_numeral : ∀ base s, base = 2 ∨ base = 16 → IsNumeral (max base 10) s →
    flow.int base s = if IsNumeral base s ∧ Spaced s then some (numeralValue base s : Int) else none

/-- A value that an option gets right, with this joining. -/
def Carries (join value : Str) : Prop :=
  IsDigits 10 value ∧ join = [','] ∨
  (∃ digits, value = '\'' :: 'b' :: digits ∧ IsNumeral 2 digits ∧ Spaced digits) ∧ join = [] ∨
  (∃ digits, value = '\'' :: 'h' :: digits ∧ IsNumeral 16 digits ∧ Spaced digits) ∧
    join = ['.'] ∨
  ((∀ n, ¬ SvNumber value n) ∧ '=' ∉ value ∧ ';' ∉ value ∧ ¬ ['\'', 'b'] <:+: value ∧
    ¬ ['\'', 'h'] <:+: value ∧ flow.isdigit value = false) ∧ join = ['.']

end Flow

/-! ### Parts of a text -/

section Parts

variable {α : Type*} {x c : α} {a a' b b' : List α}

/-- The first occurrence of an element parts a list in one way. -/
theorem append_cons_inj (ha : x ∉ a) (ha' : x ∉ a') (h : a ++ x :: b = a' ++ x :: b') :
    a = a' ∧ b = b' := by
  induction a generalizing a' with
  | nil =>
    cases a' with
    | nil => exact ⟨rfl, (List.cons.inj h).2⟩
    | cons y a' => exact absurd ((List.cons.inj h).1 ▸ List.mem_cons_self) ha'
  | cons y a ih =>
    rw [List.mem_cons, not_or] at ha
    cases a' with
    | nil => exact absurd (List.cons.inj h).1.symm ha.1
    | cons z a' =>
      rw [List.mem_cons, not_or] at ha'
      obtain ⟨rfl, htail⟩ := List.cons.inj h
      obtain ⟨rfl, rfl⟩ := ih ha.2 ha'.2 htail
      exact ⟨rfl, rfl⟩

/-- The last occurrence too. -/
theorem append_cons_inj_last (hb : x ∉ b) (hb' : x ∉ b') (h : a ++ x :: b = a' ++ x :: b') :
    a = a' ∧ b = b' := by
  have hrev : b.reverse ++ x :: a.reverse = b'.reverse ++ x :: a'.reverse := by
    simpa using congrArg List.reverse h
  obtain ⟨hback, hfront⟩ := append_cons_inj (List.mem_reverse.not.mpr hb)
    (List.mem_reverse.not.mpr hb') hrev
  exact ⟨List.reverse_injective hfront, List.reverse_injective hback⟩

/-- What stands behind the only occurrence of an element. -/
theorem pair_infix_iff (ha : x ∉ a) (hb : x ∉ b) : [x, c] <:+: a ++ x :: b ↔ c ∈ b.head? := by
  constructor
  · rintro ⟨pre, post, h⟩
    have heq : a ++ x :: b = pre ++ x :: (c :: post) := by rw [← h]; simp
    obtain ⟨-, -, rfl⟩ := (List.append_cons_inj_of_notMem ha hb).mp heq
    rfl
  · intro h
    obtain ⟨rest, rfl⟩ := List.head?_eq_some_iff.mp h
    exact ⟨a, rest, by simp⟩

theorem replaceAll_pair [DecidableEq α] (ha : x ∉ a) (hb : x ∉ b) :
    replaceAll [x, c] [] (a ++ x :: c :: b) = a ++ b := by
  have hrest : replaceAll [x, c] [] b = b :=
    replaceAll_of_not_infix fun h => hb (h.subset List.mem_cons_self)
  rw [replaceAll_append_of_notMem ha]
  exact congrArg (a ++ ·) ((replaceAll_hit (List.cons_ne_nil x [c]) b).trans hrest)

end Parts

/-! ### The split -/

section Split

variable {key word text : Str} {words : List Str}

theorem splitArgs_cons {c : Char} (hc : c ≠ '=' ∧ c ≠ '\n') (h : splitArgs text = word :: words) :
    splitArgs (c :: text) = (c :: word) :: words := by
  rw [splitArgs, h]
  · exact hc.1
  · exact fun _ heq _ => hc.2 heq

theorem splitArgs_append (hkey : ∀ c ∈ key, c ≠ '=' ∧ c ≠ '\n')
    (h : splitArgs text = word :: words) : splitArgs (key ++ text) = (key ++ word) :: words := by
  induction key with
  | nil => exact h
  | cons c key ih =>
    rw [List.forall_mem_cons] at hkey
    exact splitArgs_cons hkey.1 (ih hkey.2)

/-- A text without separators is one word. -/
theorem splitArgs_word (hword : ∀ c ∈ word, c ≠ '=' ∧ c ≠ '\n') : splitArgs word = [word] := by
  have hone : splitArgs (word ++ []) = [word ++ []] := splitArgs_append hword rfl
  rwa [List.append_nil] at hone

/-- A name, and the words behind its `=`. -/
theorem splitArgs_key (hkey : ∀ c ∈ key, c ≠ '=' ∧ c ≠ '\n') (text : Str) :
    splitArgs (key ++ '=' :: text) = key :: splitArgs text := by
  have hsplit : splitArgs ('=' :: text) = [] :: splitArgs text := by rw [splitArgs]
  rw [splitArgs_append hkey hsplit, List.append_nil]

theorem splitArgs_ne_nil (text : Str) : splitArgs text ≠ [] := by
  fun_cases splitArgs text <;> simp_all

/-- The words have no `=`, and nothing is in them that is not in the text. -/
theorem mem_splitArgs (h : word ∈ splitArgs text) : '=' ∉ word ∧ ∀ c ∈ word, c ∈ text := by
  fun_induction splitArgs text generalizing word with
  | case1 => simp_all
  | case2 rest ih =>
    rcases List.mem_cons.mp h with rfl | h
    · simp
    · exact (ih h).imp_right fun hmem c hc => List.mem_cons_of_mem _ (hmem c hc)
  | case3 rest ih =>
    rcases List.mem_cons.mp h with rfl | h
    · simp
    · exact (ih h).imp_right fun hmem c hc =>
        List.mem_cons_of_mem _ (List.mem_cons_of_mem _ (hmem c hc))
  | case4 c rest hne _ first words heq ih =>
    rw [heq] at ih
    rcases List.mem_cons.mp h with rfl | h
    · obtain ⟨hsep, hmem⟩ := ih List.mem_cons_self
      refine ⟨?_, List.forall_mem_cons.mpr ⟨List.mem_cons_self, fun d hd => ?_⟩⟩
      · rw [List.mem_cons, not_or]
        exact ⟨fun heq => hne heq.symm, hsep⟩
      · exact List.mem_cons_of_mem c (hmem d hd)
    · exact (ih (List.mem_cons_of_mem _ h)).imp_right fun hmem d hd =>
        List.mem_cons_of_mem c (hmem d hd)
  | case5 c rest _ _ heq => exact absurd heq (splitArgs_ne_nil rest)

theorem mem_pairs {kv : Str × Str} (h : kv ∈ pairs words) : kv.1 ∈ words ∧ kv.2 ∈ words := by
  fun_induction pairs words with
  | case1 key value rest ih =>
    rcases List.mem_cons.mp h with rfl | h
    · simp
    · exact (ih h).imp (by simp +contextual) (by simp +contextual)
  | case2 => cases h

end Split

/-! ### Options -/

theorem quote_notMem_kind (kind : ConfigKind) : '"' ∉ kind.text := by
  cases kind <;> decide

theorem exists_plus (kind : ConfigKind) : ∃ front, kind.text = '+' :: front := by
  cases kind <;> exact ⟨_, rfl⟩

theorem configKind_inj {kind kind' : ConfigKind} (h : kind.text = kind'.text) : kind = kind' := by
  cases kind <;> cases kind' <;> first | rfl | exact absurd h (by decide)

theorem kind_append_inj {kind kind' : ConfigKind} {a b : Str}
    (h : kind.text ++ '"' :: a = kind'.text ++ '"' :: b) : kind = kind' ∧ a = b := by
  obtain ⟨hkind, htail⟩ := append_cons_inj (quote_notMem_kind _) (quote_notMem_kind _) h
  exact ⟨configKind_inj hkind, htail⟩

theorem configOption_inj {kind kind' : ConfigKind} {body body' : Str}
    (h : configOption kind body = configOption kind' body') : kind = kind' ∧ body = body' := by
  obtain ⟨hkind, htail⟩ := kind_append_inj h
  exact ⟨hkind, List.append_cancel_right htail⟩

/-- An option that begins a text is to be found in it. -/
theorem configOption_append_inj {kind kind' : ConfigKind} {body body' rest rest' : Str}
    (hbody : '"' ∉ body) (hbody' : '"' ∉ body')
    (h : configOption kind body ++ rest = configOption kind' body' ++ rest') :
    kind = kind' ∧ body = body' ∧ rest = rest' := by
  have hopen : kind.text ++ '"' :: (body ++ '"' :: rest) =
      kind'.text ++ '"' :: (body' ++ '"' :: rest') := by
    simpa [configOption] using h
  obtain ⟨hkind, htail⟩ := kind_append_inj hopen
  exact ⟨hkind, append_cons_inj hbody hbody' htail⟩

theorem configBody_join {sqr join join' name value : Str}
    (h : configBody sqr join name value = configBody sqr join' name value) : join = join' :=
  List.append_cancel_right (List.append_cancel_left h)

/-- What stands behind the last comma is the value. -/
theorem configBody_inj {sqr join join' name value value' : Str} (hvalue : ',' ∉ value)
    (hvalue' : ',' ∉ value')
    (h : configBody sqr join name value = configBody sqr join' name value') :
    join = join' ∧ value = value' := by
  have hlast : (sqr ++ (join ++ name)) ++ ',' :: value =
      (sqr ++ (join' ++ name)) ++ ',' :: value' := by
    simpa [configBody] using h
  obtain ⟨-, rfl⟩ := append_cons_inj_last hvalue hvalue' hlast
  exact ⟨configBody_join h, rfl⟩

theorem notMem_configBody {sqr join name value : Str} {c : Char} (hc : c ≠ ',') :
    c ∉ configBody sqr join name value ↔ c ∉ sqr ∧ c ∉ join ∧ c ∉ name ∧ c ∉ value := by
  simp [configBody, hc]

/-- The characters of a number. -/
theorem mem_toString {n : Int} {c : Char} (h : c ∈ (toString n).toList) :
    isDigit 10 c ∨ c = '-' := by
  rw [Int.toString_eq_repr, Int.repr_eq_if] at h
  split_ifs at h
  · exact .inl ((isDigits_toDigits n.toNat).2 c (by simpa using h))
  · rw [String.toList_append, List.mem_append, Nat.toList_repr] at h
    rcases h with h | h
    · exact .inr (by simpa using h)
    · exact .inl ((isDigits_toDigits (-n).toNat).2 c h)

section Flow

variable (flow : Flow) {key value arg : Str}

theorem argText_eq (key value : Str) : flow.argText key value =
    if flow.isdigit value then
      some (configOption .int (configBody flow.sqr [','] key value))
    else if ['\'', 'b'] <:+: value then
      (flow.int 2 (replaceAll ['\'', 'b'] [] value)).map fun n =>
        configOption .int (configBody flow.sqr [] key (toString n).toList)
    else if ['\'', 'h'] <:+: value then
      (flow.int 16 (replaceAll ['\'', 'h'] [] value)).map fun n =>
        configOption .int (configBody flow.sqr ['.'] key (toString n).toList)
    else some (configOption .string (configBody flow.sqr ['.'] key value)) := by
  have hint : "+uvm_set_config_int=\"".toList = ConfigKind.int.text ++ ['"'] := rfl
  have hstring : "+uvm_set_config_string=\"".toList = ConfigKind.string.text ++ ['"'] := rfl
  have hbin : "'b".toList = ['\'', 'b'] := rfl
  have hhex : "'h".toList = ['\'', 'h'] := rfl
  have hcomma : ",".toList = [','] := rfl
  have hdot : ".".toList = ['.'] := rfl
  have hquote : "\"".toList = ['"'] := rfl
  simp only [Flow.argText, hint, hstring, hbin, hhex, hcomma, hdot, hquote, configOption,
    configBody, List.append_assoc, List.cons_append, List.nil_append]

/-- The characters that part a cell or its options. -/
def marks : List Char := ['"', '=', ';']

/-- What an option is made of. -/
theorem exists_body (h : flow.argText key value = some arg) : ∃ kind join text,
    arg = configOption kind (configBody flow.sqr join key text) ∧
      ∀ c ∈ marks, c ∉ join ∧ (c ∉ value → c ∉ text) := by
  have hcomma : ∀ c ∈ marks, c ∉ [','] := by simp [marks]
  have hdot : ∀ c ∈ marks, c ∉ ['.'] := by simp [marks]
  have hnumber : ∀ (n : Int), ∀ c ∈ marks, c ∉ (toString n).toList := by
    intro n c hc hmem
    have hother : ¬ (isDigit 10 c ∨ c = '-') := by
      fin_cases hc <;> decide
    exact hother (mem_toString hmem)
  rw [argText_eq] at h
  split_ifs at h
  · cases h
    exact ⟨.int, [','], value, rfl, fun c hc => ⟨hcomma c hc, id⟩⟩
  · obtain ⟨n, -, rfl⟩ := Option.map_eq_some_iff.mp h
    exact ⟨.int, [], _, rfl, fun c hc => ⟨List.not_mem_nil, fun _ => hnumber n c hc⟩⟩
  · obtain ⟨n, -, rfl⟩ := Option.map_eq_some_iff.mp h
    exact ⟨.int, ['.'], _, rfl, fun c hc => ⟨hdot c hc, fun _ => hnumber n c hc⟩⟩
  · cases h
    exact ⟨.string, ['.'], value, rfl, fun c hc => ⟨hdot c hc, id⟩⟩

/-- The options of some settings. -/
def optionsText : List (Str × Str) → Option Str
  | [] => some []
  | kv :: rest => (flow.argText kv.1 kv.2).bind fun arg => (optionsText rest).map (arg ++ ·)

theorem simArgs_eq (args : Str) :
    flow.simArgs args = optionsText flow (pairs (splitArgs (replaceAll [';'] [] args))) := by
  have hall : ∀ settings : List (Str × Str),
      (settings.mapM fun kv => flow.argText kv.1 kv.2).map List.flatten =
        optionsText flow settings := by
    intro settings
    induction settings with
    | nil => rfl
    | cons kv rest ih =>
      rw [optionsText, ← ih, List.mapM_cons]
      cases flow.argText kv.1 kv.2 with
      | none => rfl
      | some arg => cases rest.mapM fun kv => flow.argText kv.1 kv.2 <;> rfl
  exact hall _

/-- Options follow one another without a blank. -/
theorem head_optionsText {settings : List (Str × Str)} {text : Str}
    (h : optionsText flow settings = some text) : ∀ c ∈ text.head?, c = '+' := by
  cases settings with
  | nil =>
    cases h
    simp
  | cons kv rest =>
    obtain ⟨arg, harg, htail⟩ := Option.bind_eq_some_iff.mp h
    obtain ⟨tail, -, rfl⟩ := Option.map_eq_some_iff.mp htail
    obtain ⟨kind, join, value, rfl, -⟩ := exists_body flow harg
    obtain ⟨front, hfront⟩ := exists_plus kind
    rw [configOption, hfront]
    rintro c ⟨⟩
    rfl

end Flow

/-! ### The text of a cell -/

theorem replaceAll_semicolon (text : Str) :
    replaceAll [';'] [] text = text.filter (· ≠ ';') := by
  rw [replaceAll_singleton]
  induction text with
  | nil => rfl
  | cons c text ih =>
    rw [List.flatMap_cons, ih, List.filter_cons]
    by_cases hc : c = ';' <;> simp [hc]

theorem Setting.name_plain (s : Setting) : ∀ c ∈ s.name, c ≠ '=' ∧ c ≠ '\n' ∧ c ≠ ';' := by
  intro c hc
  have hname := s.inName.2 c hc
  refine ⟨?_, ?_, ?_⟩ <;> rintro rfl <;> exact hname (by decide)

theorem Setting.quote_notMem_line (s : Setting) : '"' ∉ s.line := by
  have hname : '"' ∉ s.name := fun h => s.inName.2 _ h (by decide)
  have hvalue : '"' ∉ s.value := fun h => s.inValue _ h (by decide)
  rw [Setting.line, List.mem_append, List.mem_append, List.mem_cons]
  rintro ((h | h | h) | h)
  · exact hname h
  · exact absurd h (by decide)
  · exact hvalue h
  · split_ifs at h <;> simp at h

theorem quote_notMem_cellText (indent : Nat) (settings : List Setting) :
    '"' ∉ cellText indent settings := by
  induction settings with
  | nil => simp [cellText]
  | cons s rest ih =>
    cases rest with
    | nil => simpa [cellText] using s.quote_notMem_line
    | cons s' rest =>
      have htail := ih
      rw [cellText, List.map_cons] at htail
      rw [cellText, List.map_cons, List.map_cons, List.intercalate_cons_cons, List.mem_append,
        List.mem_append]
      rintro ((h | h) | h)
      · exact s.quote_notMem_line h
      · simp at h
      · exact htail h

/-- One setting is split into its name and the words of its value. -/
theorem splitArgs_line (s : Setting) (indent : Nat) :
    splitArgs (replaceAll [';'] [] (cellText indent [s])) =
      s.name :: splitArgs (s.value.filter (· ≠ ';')) := by
  have hname : s.name.filter (· ≠ ';') = s.name := by
    rw [List.filter_eq_self]
    exact fun c hc => by simpa using (s.name_plain c hc).2.2
  have hline : (cellText indent [s]).filter (· ≠ ';') =
      s.name ++ '=' :: s.value.filter (· ≠ ';') := by
    rw [cellText, List.map_singleton, List.intercalate_singleton, Setting.line, List.filter_append,
      List.filter_append, hname]
    split_ifs <;> simp
  rw [replaceAll_semicolon, hline]
  exact splitArgs_key (fun c hc => ⟨(s.name_plain c hc).1, (s.name_plain c hc).2.1⟩) _

section Cell

variable {flow : Flow} {join : Str} {indent : Nat} {s s' : Setting} {settings : List Setting}
  {text : Str}

/-- The options of one setting begin with one for a part of its value that has no separator. -/
theorem exists_first (h : flow.simArgs (cellText indent [s]) = some text) :
    ∃ value arg rest, flow.argText s.name value = some arg ∧ text = arg ++ rest ∧
      ∀ c ∈ marks, c ∉ value := by
  rw [simArgs_eq, splitArgs_line] at h
  obtain ⟨value, more, hwords⟩ := List.exists_cons_of_ne_nil
    (splitArgs_ne_nil (s.value.filter (· ≠ ';')))
  rw [hwords, pairs, optionsText] at h
  obtain ⟨arg, harg, htail⟩ := Option.bind_eq_some_iff.mp h
  obtain ⟨rest, -, rfl⟩ := Option.map_eq_some_iff.mp htail
  obtain ⟨hsep, hmem⟩ := mem_splitArgs (hwords ▸ List.mem_cons_self)
  refine ⟨value, arg, rest, harg, rfl, ?_⟩
  have hquote : '"' ∉ value := fun h =>
    s.inValue _ (List.mem_of_mem_filter (hmem _ h)) (by decide)
  have hsemi : ';' ∉ value := fun h => by
    simpa using List.of_mem_filter (hmem _ h)
  simpa [marks] using ⟨hquote, hsep, hsemi⟩

/-- A value without separators is one word. -/
theorem simArgs_word (heq : '=' ∉ s.value) (hsemi : ';' ∉ s.value) :
    flow.simArgs (cellText indent [s]) = flow.argText s.name s.value := by
  have hself : s.value.filter (· ≠ ';') = s.value := by
    rw [List.filter_eq_self]
    exact fun c hc => decide_eq_true fun h => hsemi (h ▸ hc)
  have hword : splitArgs s.value = [s.value] := by
    refine splitArgs_word fun c hc => ⟨fun h => heq (h ▸ hc), ?_⟩
    rintro rfl
    exact s.inValue _ hc (by decide)
  rw [simArgs_eq, splitArgs_line, hself, hword]
  cases hopt : flow.argText s.name s.value with
  | none => simp [pairs, optionsText, hopt]
  | some arg => simp [pairs, optionsText, hopt]

/-! ### More than one setting -/

theorem Denotes.notMem {numeral : Str} {n : Int} {c : Char} (h : Denotes numeral n)
    (hc : ¬ isDigit 10 c ∧ c ≠ '-') : c ∉ numeral := by
  intro hmem
  rcases h with ⟨hdigits, -⟩ | ⟨digits, rfl, hdigits, -⟩
  · exact hc.1 (hdigits.2 c hmem)
  · rcases List.mem_cons.mp hmem with hminus | hmem
    · exact hc.2 hminus
    · exact hc.1 (hdigits.2 c hmem)

/-- The option that is asked for is quoted too. -/
theorem Setting.Asks.exists_body {sqr arg : Str} (h : s.Asks sqr join arg) (hsqr : '"' ∉ sqr)
    (hjoin : '"' ∉ join) : ∃ kind body, '"' ∉ body ∧ arg = configOption kind body := by
  have hname : '"' ∉ s.name := fun h => s.inName.2 _ h (by decide)
  have hvalue : '"' ∉ s.value := fun h => s.inValue _ h (by decide)
  rcases h with ⟨n, numeral, -, hnumeral, rfl⟩ | ⟨-, rfl⟩
  · have hquote : '"' ∉ numeral := hnumeral.notMem (by decide)
    exact ⟨_, _, (notMem_configBody (by decide)).mpr ⟨hsqr, hjoin, hname, hquote⟩, rfl⟩
  · exact ⟨_, _, (notMem_configBody (by decide)).mpr ⟨hsqr, hjoin, hname, hvalue⟩, rfl⟩

/-- The options of a cell are none, or one with the next one right behind it. -/
theorem simArgs_front (hsqr : '"' ∉ flow.sqr)
    (h : flow.simArgs (cellText indent settings) = some text) :
    text = [] ∨ ∃ kind body rest, '"' ∉ body ∧ text = configOption kind body ++ rest ∧
      ∀ c ∈ rest.head?, c = '+' := by
  rw [simArgs_eq] at h
  have hquote : ∀ word ∈ splitArgs (replaceAll [';'] [] (cellText indent settings)),
      '"' ∉ word := by
    intro word hword hmem
    have hcell := (mem_splitArgs hword).2 _ hmem
    rw [replaceAll_semicolon] at hcell
    exact quote_notMem_cellText indent settings (List.mem_of_mem_filter hcell)
  cases hpairs : pairs (splitArgs (replaceAll [';'] [] (cellText indent settings))) with
  | nil =>
    rw [hpairs] at h
    cases h
    exact .inl rfl
  | cons kv more =>
    rw [hpairs] at h
    obtain ⟨arg, harg, htail⟩ := Option.bind_eq_some_iff.mp h
    obtain ⟨rest, hrest, rfl⟩ := Option.map_eq_some_iff.mp htail
    obtain ⟨hkey, hvalue⟩ := mem_pairs (hpairs ▸ List.mem_cons_self)
    obtain ⟨kind, join, value, rfl, hmarks⟩ := Testplan.exists_body flow harg
    obtain ⟨hjoin, hpart⟩ := hmarks '"' (by simp [marks])
    have hbody := (notMem_configBody (by decide)).mpr
      ⟨hsqr, hjoin, hquote _ hkey, hpart (hquote _ hvalue)⟩
    exact .inr ⟨kind, _, rest, hbody, rfl, head_optionsText flow hrest⟩

/-- **The options of two settings or more are never separated.** -/
theorem not_translates_two (hsqr : '"' ∉ flow.sqr) (hjoin : '"' ∉ join) :
    ¬ flow.Translates join indent (s :: s' :: settings) := by
  rintro ⟨text, args, hout, hargs, hsep⟩
  cases hargs with
  | cons hasks hrest =>
    cases hrest with
    | cons _ _ =>
      obtain ⟨kind, body, hbody, rfl⟩ := hasks.exists_body hsqr hjoin
      obtain ⟨blanks, rest, hne, hblank, -, rfl⟩ := hsep
      obtain ⟨blank, blanks, rfl⟩ := List.exists_cons_of_ne_nil hne
      rcases simArgs_front hsqr hout with hnil | ⟨kind', body', tail, hbody', heq, hhead⟩
      · simp [configOption] at hnil
      · obtain ⟨-, -, rfl⟩ := configOption_append_inj hbody hbody' heq
        have hplus : blank = '+' := hhead blank rfl
        subst hplus
        exact absurd (hblank _ List.mem_cons_self) (by decide)

end Cell

/-! ### One setting -/

section One

variable {flow : Flow} {join key value size digits numeral : Str} {letter : Char} {base m : Nat}
  {n : Int}

theorem toList_toString (m : Nat) : (toString (m : Int)).toList = Nat.toDigits 10 m := by
  rw [Int.toString_eq_repr, Int.repr_eq_if, if_pos (Int.natCast_nonneg m), Int.toNat_natCast,
    Nat.toList_repr]

theorem denotes_toDigits (m : Nat) : Denotes (Nat.toDigits 10 m) m :=
  .inl ⟨isDigits_toDigits m, by rw [numeralValue_toDigits]⟩

/-- A numeral without sign has one value. -/
theorem Denotes.eq (h : Denotes (Nat.toDigits 10 m) n) : n = m := by
  rcases h with ⟨-, rfl⟩ | ⟨digits, hminus, -, -⟩
  · rw [numeralValue_toDigits]
  · have hdigit : isDigit 10 '-' := (isDigits_toDigits m).2 _ (hminus ▸ List.mem_cons_self)
    exact absurd hdigit (by decide)

theorem literalBits_nil (m : Nat) : m % 2 ^ literalBits [] m = m := by
  refine Nat.mod_eq_of_lt (lt_of_lt_of_le Nat.lt_log2_self (Nat.pow_le_pow_right (by decide) ?_))
  rw [literalBits, if_pos rfl]
  exact le_max_right _ _

theorem IsSize.notMem {c : Char} (h : IsSize size) (hc : hexVal c = none) (hne : c ≠ '_') :
    c ∉ size := by
  rcases h with rfl | ⟨h, -⟩
  · exact List.not_mem_nil
  · exact h.notMem hc hne

/-- The size and the digits are one numeral without the apostrophe. -/
theorem IsSize.append (hsize : IsSize size) (h : IsNumeral base digits) :
    IsNumeral (max base 10) (size ++ digits) := by
  rcases hsize with rfl | ⟨hsize, -⟩
  · exact h.mono (le_max_left base 10)
  · exact (hsize.mono (le_max_right base 10)).append (h.mono (le_max_left base 10))

/-- A number has no separator in it. -/
theorem SvNumber.notMem_marks (h : SvNumber value n) : ∀ c ∈ marks, c ∉ value := by
  have hplain : ∀ c ∈ marks, hexVal c = none ∧ c ∉ ['_', '-', '\'', 's', 'S'] ∧
      baseOf c = none := by
    intro c hc
    fin_cases hc <;> exact ⟨rfl, by decide, rfl⟩
  intro c hc
  obtain ⟨hhex, hother, hletter⟩ := hplain c hc
  simp only [List.mem_cons, not_or] at hother
  obtain ⟨hunder, hminus, hquote, hs, hS, -⟩ := hother
  cases h with
  | decimal h => exact h.notMem hhex hunder
  | negative h => simpa [hminus] using h.notMem hhex hunder
  | @literal size digits letter base hsize hbase h =>
    have hne : c ≠ letter := by
      rintro rfl
      rw [hletter] at hbase
      cases hbase
    simpa [hquote, hne] using ⟨hsize.notMem hhex hunder, h.notMem hhex hunder⟩
  | @signedLiteral size digits sign letter base hsize hsign hbase h =>
    have hne : c ≠ letter := by
      rintro rfl
      rw [hletter] at hbase
      cases hbase
    have hsigned : c ≠ sign := by
      rintro rfl
      exact hsign.elim hs hS
    simpa [hquote, hne, hsigned] using ⟨hsize.notMem hhex hunder, h.notMem hhex hunder⟩

/-! ### What the code makes of a number -/

/-- Neither digits nor an apostrophe before `b` or `h`: the value is a string to the code. -/
theorem argText_string (hdigit : flow.isdigit value = false) (hbin : ¬ ['\'', 'b'] <:+: value)
    (hhex : ¬ ['\'', 'h'] <:+: value) : flow.argText key value =
      some (configOption .string (configBody flow.sqr ['.'] key value)) := by
  rw [argText_eq, if_neg (by simp [hdigit]), if_neg hbin, if_neg hhex]

/-- Only such a value is a string to the code. -/
theorem of_argText_string {body : Str}
    (h : flow.argText key value = some (configOption .string body)) :
    flow.isdigit value = false ∧ ¬ ['\'', 'b'] <:+: value ∧ ¬ ['\'', 'h'] <:+: value ∧
      body = configBody flow.sqr ['.'] key value := by
  have hkind : ∀ {b b' : Str}, configOption .int b ≠ configOption .string b' :=
    fun heq => nomatch (configOption_inj heq).1
  rw [argText_eq] at h
  split_ifs at h with hdigit hbin hhex
  · exact absurd (Option.some.inj h) hkind
  · obtain ⟨n, -, heq⟩ := Option.map_eq_some_iff.mp h
    exact absurd heq hkind
  · obtain ⟨n, -, heq⟩ := Option.map_eq_some_iff.mp h
    exact absurd heq hkind
  · exact ⟨by simpa using hdigit, hbin, hhex, (configOption_inj (Option.some.inj h)).2.symm⟩

/-- The forms of a literal that the code knows: the base, its letter, and the joining. -/
def BasedForm (base : Nat) (letter : Char) (join : Str) : Prop :=
  base = 2 ∧ letter = 'b' ∧ join = [] ∨ base = 16 ∧ letter = 'h' ∧ join = ['.']

/-- The size and the digits are read as one numeral. -/
theorem argText_based (reads : flow.ReadsNumerals) (hform : BasedForm base letter join)
    (hsize : IsSize size) (hdigits : IsNumeral base digits) :
    flow.argText key (size ++ '\'' :: letter :: digits) =
      if IsNumeral base (size ++ digits) ∧ Spaced (size ++ digits) then
        some (configOption .int (configBody flow.sqr join key
          (Nat.toDigits 10 (numeralValue base (size ++ digits)))))
      else none := by
  have hquote : '\'' ∉ size := hsize.notMem rfl (by decide)
  have hquote' : '\'' ∉ digits := hdigits.notMem rfl (by decide)
  have hdigit : flow.isdigit (size ++ '\'' :: letter :: digits) = false :=
    reads.isdigit_other _ '\'' (by simp) (by decide) (by decide)
  have hnumeral := hsize.append hdigits
  rw [argText_eq, if_neg (by simp [hdigit])]
  rcases hform with ⟨rfl, rfl, rfl⟩ | ⟨rfl, rfl, rfl⟩
  · have hbin : ['\'', 'b'] <:+: size ++ '\'' :: 'b' :: digits :=
      (pair_infix_iff hquote (by simp [hquote'])).mpr rfl
    rw [if_pos hbin, replaceAll_pair hquote hquote', reads.int_numeral 2 _ (.inl rfl) hnumeral]
    split_ifs
    · rw [Option.map_some, toList_toString]
    · rfl
  · have hbin : ¬ ['\'', 'b'] <:+: size ++ '\'' :: 'h' :: digits :=
      fun h => absurd ((pair_infix_iff hquote (by simp [hquote'])).mp h) (by simp)
    have hhex : ['\'', 'h'] <:+: size ++ '\'' :: 'h' :: digits :=
      (pair_infix_iff hquote (by simp [hquote'])).mpr rfl
    rw [if_neg hbin, if_pos hhex, replaceAll_pair hquote hquote',
      reads.int_numeral 16 _ (.inr rfl) hnumeral]
    split_ifs
    · rw [Option.map_some, toList_toString]
    · rfl

/-- What stands behind an apostrophe is no literal to the code. -/
theorem string_of_head {spec : Str} (reads : flow.ReadsNumerals) (hsize : '\'' ∉ size)
    (hspec : '\'' ∉ spec) (hhead : 'b' ∉ spec.head? ∧ 'h' ∉ spec.head?) :
    flow.isdigit (size ++ '\'' :: spec) = false ∧ ¬ ['\'', 'b'] <:+: size ++ '\'' :: spec ∧
      ¬ ['\'', 'h'] <:+: size ++ '\'' :: spec := by
  refine ⟨reads.isdigit_other _ '\'' (by simp) (by decide) (by decide), ?_, ?_⟩
  · exact fun h => hhead.1 ((pair_infix_iff hsize hspec).mp h)
  · exact fun h => hhead.2 ((pair_infix_iff hsize hspec).mp h)

theorem string_of_notMem {c : Char} (reads : flow.ReadsNumerals) (hquote : '\'' ∉ value)
    (hmem : c ∈ value) (hc : c.toNat < 128 ∧ ¬ isDigit 10 c) : flow.isdigit value = false ∧
      ¬ ['\'', 'b'] <:+: value ∧ ¬ ['\'', 'h'] <:+: value :=
  ⟨reads.isdigit_other value c hmem hc.1 hc.2, fun h => hquote (h.subset List.mem_cons_self),
    fun h => hquote (h.subset List.mem_cons_self)⟩

/-- A literal of a known form that is read as its value has no size. -/
theorem size_eq_nil (hbase : 0 < base) (hsize : IsSize size) {bits : Nat}
    (h : numeralValue base digits % 2 ^ bits = numeralValue base (size ++ digits)) :
    size = [] := by
  rcases hsize with hnil | ⟨hnumeral, hzero⟩
  · exact hnil
  · have hlt : numeralValue base digits < numeralValue base (size ++ digits) :=
      numeralValue_lt_append hbase (hnumeral.value_ne_zero hbase hzero)
    have hle := Nat.mod_le (numeralValue base digits) (2 ^ bits)
    omega

/-- A letter of another base makes no literal to the code. -/
theorem string_of_other (reads : flow.ReadsNumerals) (hsize : IsSize size)
    (hbase : baseOf letter = some base) (hdigits : IsNumeral base digits)
    (hform : ∀ join, ¬ BasedForm base letter join) :
    flow.isdigit (size ++ '\'' :: letter :: digits) = false ∧
      ¬ ['\'', 'b'] <:+: size ++ '\'' :: letter :: digits ∧
      ¬ ['\'', 'h'] <:+: size ++ '\'' :: letter :: digits := by
  have hquote : '\'' ∉ letter :: digits := by
    have hletter : '\'' ≠ letter := by
      rintro rfl
      cases hbase
    simpa [hletter] using hdigits.notMem rfl (by decide)
  have hbin : letter ≠ 'b' := by
    rintro rfl
    exact hform [] (.inl ⟨(Option.some.inj hbase).symm, rfl, rfl⟩)
  have hhex : letter ≠ 'h' := by
    rintro rfl
    exact hform ['.'] (.inr ⟨(Option.some.inj hbase).symm, rfl, rfl⟩)
  exact string_of_head reads (hsize.notMem rfl (by decide)) hquote (by simp [hbin, hhex])

theorem string_of_signed {sign : Char} (reads : flow.ReadsNumerals) (hsize : IsSize size)
    (hsign : sign = 's' ∨ sign = 'S') (hbase : baseOf letter = some base)
    (hdigits : IsNumeral base digits) :
    flow.isdigit (size ++ '\'' :: sign :: letter :: digits) = false ∧
      ¬ ['\'', 'b'] <:+: size ++ '\'' :: sign :: letter :: digits ∧
      ¬ ['\'', 'h'] <:+: size ++ '\'' :: sign :: letter :: digits := by
  have hquote : '\'' ∉ sign :: letter :: digits := by
    have hletter : '\'' ≠ letter := by
      rintro rfl
      cases hbase
    have hsigned : '\'' ≠ sign := by
      rintro rfl
      exact absurd hsign (by decide)
    simpa [hletter, hsigned] using hdigits.notMem rfl (by decide)
  refine string_of_head reads (hsize.notMem rfl (by decide)) hquote ?_
  rcases hsign with rfl | rfl <;> simp

/-- Digits are carried where no underscore is between them. -/
theorem carries_decimal (reads : flow.ReadsNumerals) (hdigits : IsNumeral 10 value)
    (hunder : '_' ∉ value) (hcomma : ',' ∉ numeral)
    (h : flow.argText key value = some (configOption .int (configBody flow.sqr join key numeral))) :
    flow.Carries join value := by
  have hall : IsDigits 10 value := hdigits.isDigits_iff.mpr hunder
  have hvalue : ',' ∉ value := hdigits.notMem rfl (by decide)
  rw [argText_eq, if_pos (reads.isdigit_digits value hall)] at h
  obtain ⟨hjoin, -⟩ := configBody_inj hvalue hcomma (configOption_inj (Option.some.inj h)).2
  exact .inl ⟨hall, hjoin.symm⟩

/-- A literal of a known form is carried if it is read as its value. -/
theorem carries_based {join' : Str} {bits : Nat} (reads : flow.ReadsNumerals)
    (hform : BasedForm base letter join') (hsize : IsSize size) (hdigits : IsNumeral base digits)
    (hnumeral : Denotes numeral (numeralValue base digits % 2 ^ bits : Nat))
    (h : flow.argText key (size ++ '\'' :: letter :: digits) =
      some (configOption .int (configBody flow.sqr join key numeral))) :
    flow.Carries join (size ++ '\'' :: letter :: digits) := by
  have hcomma : ',' ∉ numeral := hnumeral.notMem (by decide)
  have hplain : ',' ∉ Nat.toDigits 10 (numeralValue base (size ++ digits)) :=
    (denotes_toDigits _).notMem (by decide)
  have hpos : 0 < base := by
    rcases hform with ⟨rfl, -⟩ | ⟨rfl, -⟩ <;> decide
  rw [argText_based reads hform hsize hdigits] at h
  split_ifs at h with hread
  obtain ⟨rfl, rfl⟩ := configBody_inj hplain hcomma (configOption_inj (Option.some.inj h)).2
  obtain rfl := size_eq_nil hpos hsize (by exact_mod_cast hnumeral.eq)
  rcases hform with ⟨rfl, rfl, rfl⟩ | ⟨rfl, rfl, rfl⟩
  · exact .inr (.inl ⟨⟨digits, rfl, hread⟩, rfl⟩)
  · exact .inr (.inr (.inl ⟨⟨digits, rfl, hread⟩, rfl⟩))

/-- **A number that the code gives with its value is one it carries.** -/
theorem SvNumber.carries (hnumber : SvNumber value n) (reads : flow.ReadsNumerals)
    (hnumeral : Denotes numeral n)
    (h : flow.argText key value = some (configOption .int (configBody flow.sqr join key numeral))) :
    flow.Carries join value := by
  have hstring : ¬ (flow.isdigit value = false ∧ ¬ ['\'', 'b'] <:+: value ∧
      ¬ ['\'', 'h'] <:+: value) := by
    rintro ⟨hdigit, hbin, hhex⟩
    rw [argText_string hdigit hbin hhex] at h
    exact nomatch (configOption_inj (Option.some.inj h)).1
  cases hnumber with
  | decimal hdigits =>
    have hquote : '\'' ∉ value := hdigits.notMem rfl (by decide)
    have hunder : '_' ∉ value := fun hmem =>
      hstring (string_of_notMem reads hquote hmem (by decide))
    exact carries_decimal reads hdigits hunder (hnumeral.notMem (by decide)) h
  | @negative digits hdigits =>
    have hquote : '\'' ∉ '-' :: digits := by simpa using hdigits.notMem rfl (by decide)
    exact absurd (string_of_notMem reads hquote List.mem_cons_self (by decide)) hstring
  | @literal size digits letter base hsize hbase hdigits =>
    by_cases hform : ∃ join, BasedForm base letter join
    · obtain ⟨join', hform⟩ := hform
      exact carries_based reads hform hsize hdigits hnumeral h
    · exact absurd (string_of_other reads hsize hbase hdigits (not_exists.mp hform)) hstring
  | signedLiteral hsize hsign hbase hdigits =>
    exact absurd (string_of_signed reads hsize hsign hbase hdigits) hstring

/-- A literal without size is read as it is. -/
theorem argText_unsized (reads : flow.ReadsNumerals) (hform : BasedForm base letter join)
    (hdigits : IsNumeral base digits) (hspaced : Spaced digits) (key : Str) :
    flow.argText key ('\'' :: letter :: digits) = some (configOption .int
      (configBody flow.sqr join key (Nat.toDigits 10 (numeralValue base digits)))) :=
  (argText_based reads hform (.inl rfl) hdigits).trans (if_pos ⟨hdigits, hspaced⟩)

/-- A literal without size has the value of its digits. -/
theorem SvNumber.unsized (hform : BasedForm base letter join) (hdigits : IsNumeral base digits) :
    SvNumber ('\'' :: letter :: digits) (numeralValue base digits) := by
  have hbase : baseOf letter = some base := by
    rcases hform with ⟨rfl, rfl, -⟩ | ⟨rfl, rfl, -⟩ <;> rfl
  have hliteral := SvNumber.literal (.inl rfl) hbase hdigits
  rwa [literalBits_nil] at hliteral

end One

section Result

variable {flow : Flow} {join : Str} {indent : Nat} {s : Setting}

/-- A number is given if its option is. -/
theorem translates_number {n : Int} {numeral : Str} (hnumber : SvNumber s.value n)
    (hnumeral : Denotes numeral n) (h : flow.argText s.name s.value =
      some (configOption .int (configBody flow.sqr join s.name numeral))) :
    flow.Translates join indent [s] := by
  have hmarks := hnumber.notMem_marks
  refine ⟨_, [_], ?_, .cons (.inl ⟨n, numeral, hnumber, hnumeral, rfl⟩) .nil, rfl⟩
  rw [simArgs_word (hmarks '=' (by simp [marks])) (hmarks ';' (by simp [marks])), h]

theorem translates_unsized {digits : Str} {letter : Char} {base : Nat}
    (reads : flow.ReadsNumerals) (hform : BasedForm base letter join)
    (hdigits : IsNumeral base digits) (hspaced : Spaced digits)
    (hvalue : s.value = '\'' :: letter :: digits) : flow.Translates join indent [s] := by
  have hnumber := SvNumber.unsized hform hdigits
  have hopt := argText_unsized reads hform hdigits hspaced s.name
  rw [← hvalue] at hnumber hopt
  exact translates_number hnumber (denotes_toDigits _) hopt

/-- A string that is given whole has no separator in it. -/
theorem notMem_of_string (hout : flow.simArgs (cellText indent [s]) =
      some (configOption .string (configBody flow.sqr join s.name s.value)))
    (hsqr : '"' ∉ flow.sqr) (hjoin : '"' ∉ join) : '=' ∉ s.value ∧ ';' ∉ s.value := by
  have hname : ∀ c ∈ marks, c ∉ s.name := by
    intro c hc hmem
    refine s.inName.2 c hmem ?_
    fin_cases hc <;> decide
  have hquote : '"' ∉ s.value := fun h => s.inValue _ h (by decide)
  obtain ⟨value, arg, rest, harg, heq, hvalue⟩ := exists_first hout
  obtain ⟨kind, join', part, rfl, hmarks⟩ := exists_body flow harg
  have hmark : '"' ∈ marks := by simp [marks]
  have hbody : '"' ∉ configBody flow.sqr join s.name s.value :=
    (notMem_configBody (by decide)).mpr ⟨hsqr, hjoin, hname _ hmark, hquote⟩
  have hbody' : '"' ∉ configBody flow.sqr join' s.name part :=
    (notMem_configBody (by decide)).mpr
      ⟨hsqr, (hmarks _ hmark).1, hname _ hmark, (hmarks _ hmark).2 (hvalue _ hmark)⟩
  rw [← List.append_nil (configOption .string _)] at heq
  obtain ⟨-, hbodies, -⟩ := configOption_append_inj hbody hbody' heq
  have htails : join ++ (s.name ++ ',' :: s.value) = join' ++ (s.name ++ ',' :: part) :=
    List.append_cancel_left hbodies
  have hother : ∀ c ∈ marks, c ∉ s.value := by
    intro c hc hmem
    have hin : c ∈ join' ++ (s.name ++ ',' :: part) := by
      rw [← htails]
      simp [hmem]
    have hcomma : c ≠ ',' := by fin_cases hc <;> decide
    simp only [List.mem_append, List.mem_cons] at hin
    rcases hin with h | h | h | h
    · exact (hmarks c hc).1 h
    · exact hname c hc h
    · exact hcomma h
    · exact (hmarks c hc).2 (hvalue c hc) h
  exact ⟨hother '=' (by simp [marks]), hother ';' (by simp [marks])⟩

/-- **One setting is given as it asks for exactly if its value is one the code carries.** -/
theorem translates_one_iff (reads : flow.ReadsNumerals) (hsqr : '"' ∉ flow.sqr)
    (hjoin : '"' ∉ join) : flow.Translates join indent [s] ↔ flow.Carries join s.value := by
  constructor
  · rintro ⟨text, args, hout, hargs, hsep⟩
    cases hargs with
    | cons hasks hnil =>
      cases hnil
      obtain rfl := hsep
      rcases hasks with ⟨n, numeral, hnumber, hnumeral, rfl⟩ | ⟨hnone, rfl⟩
      · have hmarks := hnumber.notMem_marks
        rw [simArgs_word (hmarks '=' (by simp [marks])) (hmarks ';' (by simp [marks]))] at hout
        exact hnumber.carries reads hnumeral hout
      · obtain ⟨heq, hsemi⟩ := notMem_of_string hout hsqr hjoin
        rw [simArgs_word heq hsemi] at hout
        obtain ⟨hdigit, hbin, hhex, hbody⟩ := of_argText_string hout
        exact .inr (.inr (.inr
          ⟨⟨hnone, heq, hsemi, hbin, hhex, hdigit⟩, configBody_join hbody⟩))
  · rintro (⟨hdigits, rfl⟩ | ⟨⟨digits, hvalue, hdigits, hspaced⟩, rfl⟩ |
      ⟨⟨digits, hvalue, hdigits, hspaced⟩, rfl⟩ |
      ⟨⟨hnone, heq, hsemi, hbin, hhex, hdigit⟩, rfl⟩)
    · refine translates_number (.decimal hdigits.isNumeral) (.inl ⟨hdigits, rfl⟩) ?_
      rw [argText_eq, if_pos (reads.isdigit_digits s.value hdigits)]
    · exact translates_unsized reads (.inl ⟨rfl, rfl, rfl⟩) hdigits hspaced hvalue
    · exact translates_unsized reads (.inr ⟨rfl, rfl, rfl⟩) hdigits hspaced hvalue
    · refine ⟨_, [_], ?_, .cons (.inr ⟨hnone, rfl⟩) .nil, rfl⟩
      rw [simArgs_word heq hsemi, argText_string hdigit hbin hhex]

end Result

/-- The default sequencer, and `isdigit` and `int` as they are on ASCII numerals. -/
def asciiFlow : Flow where
  isdigit text := IsDigits 10 text
  int base text :=
    if IsNumeral base text ∧ Spaced text then some (numeralValue base text : Int) else none
  sqr := "uvm_test_top.env.wxx_vseqr".toList
  wave := "$VERIFY_HOME/tcl/wave.tcl".toList

theorem asciiFlow_reads : asciiFlow.ReadsNumerals := by
  constructor
  · intro s h
    simp only [asciiFlow, h, decide_true]
  · intro s c hc _ hdigit
    have hnot : ¬ IsDigits 10 s := fun h => hdigit (h.2 c hc)
    simp only [asciiFlow, hnot, decide_false]
  · intro base s _ _
    simp only [asciiFlow]

theorem quote_notMem_sqr : '"' ∉ asciiFlow.sqr := by simp [asciiFlow]

/-- `cfg.id='h1f;` -/
def idSetting : Setting where
  name := "cfg.id".toList
  value := "'h1f".toList
  ended := true
  inName := by simp
  inValue := by simp
  valueEnd := by simp

/-- `cfg.brs=1` and `cfg.mask=8'hFF`. -/
def sizedSettings : List Setting :=
  [{ name := "cfg.brs".toList
     value := "1".toList
     ended := false
     inName := by simp
     inValue := by simp
     valueEnd := by simp },
   { name := "cfg.mask".toList
     value := "8'hFF".toList
     ended := false
     inName := by simp
     inValue := by simp
     valueEnd := by simp }]

end Testbench.Testplan
