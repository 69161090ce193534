import Testbench.Lib.Numeral
import Testbench.Lib.While

/-!
`ReadFile` (`mpsoc/testcase/sequence_lib/mpsoc_common_task_function.sv`).

The loop tests `$feof` before it reads, and pushes `data` whatever `$fscanf` has found. What is
pushed for a file of hexadecimal words is in `reading_exits`; these are the words of the file
when nothing stands behind the last one (`readsWords_iff`).
-/

namespace Testbench.Testcase

open Testbench.Lib Testbench.Lib.Json

/-! ### Files -/

/-- White space. -/
def isBlank (c : Char) : Bool := c ∈ [' ', '\t', '\n', '\x0b', '\x0c', '\r']

/-- A digit of four unknown bits. -/
def isUnknown (c : Char) : Bool := c ∈ ['x', 'X', 'z', 'Z', '?']

/-- The characters `%h` reads. -/
def isHexMark (c : Char) : Bool := isDigit 16 c || isUnknown c || c == '_'

/-- The value of a field in two-valued bits: an unknown bit is 0. -/
def hexBits (field : Str) : BitVec 64 :=
  .ofNat 64 (numeralValue 16 (field.map fun c => if isUnknown c then '0' else c))

/-- An open file: what is still to read, and the end-of-file flag. -/
structure FileStream where
  rest : Str
  eof : Bool := false

/-- `$feof`: a read has hit the end of the file. -/
def feof (fr : FileStream) : Bool := fr.eof

/-- What `$fscanf` leaves. -/
structure Scan where
  res : Int
  fr : FileStream
  data : BitVec 64

/-- `$fscanf(fr, "%h", data)`. A field that ends with the file has hit its end. -/
def fscanfHex (fr : FileStream) (data : BitVec 64) : Scan :=
  let input := fr.rest.dropWhile isBlank
  let field := input.takeWhile isHexMark
  let rest := input.dropWhile isHexMark
  { res := if field ≠ [] then 1 else if input = [] then -1 else 0
    fr := { rest, eof := fr.eof || rest = [] }
    data := if field ≠ [] then hexBits field else data }

/-! ### `ReadFile` -/

/-- The variables of the loop. `data` is kept in two-valued bits, as the queue takes it. -/
structure Reading where
  fr : FileStream
  data : BitVec 64 := 0
  userDataQueue : List (BitVec 64) := []

namespace Reading

/-- `!$feof(fr)` -/
def more (s : Reading) : Bool := !feof s.fr

/-- A turn of the loop. -/
def turn (s : Reading) : Reading :=
  let scan := fscanfHex s.fr s.data
  { fr := scan.fr, data := scan.data, userDataQueue := s.userDataQueue ++ [scan.data] }

end Reading

/-- `ReadFile`, in at most `fuel` turns of its loop; `files` are the files that `$fopen` can open.
An error is the message with which the simulation is finished. -/
def readFile (files : String → Option String) (filename : String) (fuel : Nat) :
    Option (Except String (List (BitVec 64))) :=
  match files filename with
  | none => some (.error (filename ++ " cannt read file!"))
  | some text =>
      (whileLoop Reading.more Reading.turn fuel { fr := { rest := text.toList } }).map fun s =>
        .ok s.userDataQueue

/-! ### Files of words -/

/-- A hexadecimal word of at most 16 digits. -/
structure HexWord where
  digits : Str
  isDigits : IsDigits 16 digits
  length_le : digits.length ≤ 16

/-- The number it is for. -/
def HexWord.value (w : HexWord) : Nat := numeralValue 16 w.digits

/-- White space between two words, or behind the last. -/
structure Gap where
  blanks : Str
  ne_nil : blanks ≠ []
  blank : ∀ c ∈ blanks, isBlank c

/-- Hexadecimal words separated and optionally followed by white space: the words with a gap
behind them, and the last one when it has none. White space in front is allowed too. -/
structure StimulusFile where
  lead : Str
  blank_lead : ∀ c ∈ lead, isBlank c
  closed : List (HexWord × Gap)
  last : Option HexWord

namespace StimulusFile

/-- Words with the gaps behind them, then one with none. -/
def body (closed : List (HexWord × Gap)) (last : Option HexWord) : Str :=
  closed.flatMap (fun (w, g) => w.digits ++ g.blanks) ++ (last.map HexWord.digits).getD []

def text (f : StimulusFile) : String := .ofList (f.lead ++ body f.closed f.last)

/-- The words of a file, in order. -/
def words (f : StimulusFile) : List HexWord := f.closed.map Prod.fst ++ f.last.toList

end StimulusFile

/-- `ReadFile` returns, with the words of the file. -/
def ReadsWords (files : String → Option String) (filename : String) (f : StimulusFile) : Prop :=
  ∃ queue fuel, readFile files filename fuel = some (.ok queue) ∧
    queue.map BitVec.toNat = f.words.map HexWord.value

/-- The last character of the text is none of white space. -/
def EndsInWord (text : String) : Prop := ∃ c ∈ text.toList.getLast?, ¬ isBlank c

/-! ### A scan -/

section Scan

variable {c : Char} {lead rest : Str} {data : BitVec 64}

theorem not_isHexMark_of_isBlank (h : isBlank c) : ¬ isHexMark c := by
  have hmem := of_decide_eq_true h
  fin_cases hmem <;> decide

theorem isHexMark_of_isDigit (h : isDigit 16 c) : isHexMark c := by
  rw [isHexMark, h, Bool.true_or, Bool.true_or]

theorem not_isUnknown_of_isDigit (h : isDigit 16 c) : ¬ isUnknown c := by
  intro hunknown
  have hmem := of_decide_eq_true hunknown
  revert h
  fin_cases hmem <;> decide

theorem hexBits_of_isDigits (h : IsDigits 16 rest) :
    hexBits rest = .ofNat 64 (numeralValue 16 rest) := by
  have hmap : rest.map (fun c => if isUnknown c then '0' else c) = rest.map id :=
    List.map_congr_left fun c hc => if_neg (not_isUnknown_of_isDigit (h.2 c hc))
  rw [hexBits, hmap, List.map_id]

/-- No digit is lost in 64 bits. -/
theorem HexWord.toNat_hexBits (w : HexWord) : (hexBits w.digits).toNat = w.value := by
  have hlt : w.value < 2 ^ 64 :=
    calc w.value < 16 ^ w.digits.length := w.isDigits.value_lt (by decide)
      _ ≤ 16 ^ 16 := Nat.pow_le_pow_right (by decide) w.length_le
      _ = 2 ^ 64 := by decide
  rw [hexBits_of_isDigits w.isDigits, BitVec.toNat_ofNat]
  exact Nat.mod_eq_of_lt hlt

/-- A scan takes the next word, and hits the end of the file when nothing is behind it. -/
theorem fscanfHex_word (hlead : ∀ c ∈ lead, isBlank c) (w : HexWord)
    (hrest : ∀ c ∈ rest.head?, ¬ isHexMark c) :
    fscanfHex { rest := lead ++ (w.digits ++ rest) } data =
      { res := 1, fr := { rest, eof := rest = [] }, data := hexBits w.digits } := by
  have hmarks : ∀ c ∈ w.digits, isHexMark c := fun c hc =>
    isHexMark_of_isDigit (w.isDigits.2 c hc)
  have hinput : (lead ++ (w.digits ++ rest)).dropWhile isBlank = w.digits ++ rest := by
    obtain ⟨c, digits, hcons⟩ := List.exists_cons_of_ne_nil w.isDigits.1
    have hc : ¬ isBlank c := fun h =>
      not_isHexMark_of_isBlank h (hmarks c (hcons ▸ List.mem_cons_self))
    rw [List.dropWhile_append_of_pos hlead, hcons, List.cons_append, List.dropWhile_cons_of_neg hc]
  have hstop : rest.takeWhile isHexMark = [] ∧ rest.dropWhile isHexMark = rest := by
    cases rest with
    | nil => exact ⟨rfl, rfl⟩
    | cons c rest =>
      have hc : ¬ isHexMark c := hrest c rfl
      exact ⟨List.takeWhile_cons_of_neg hc, List.dropWhile_cons_of_neg hc⟩
  have hfield : (w.digits ++ rest).takeWhile isHexMark = w.digits := by
    rw [List.takeWhile_append_of_pos hmarks, hstop.1, List.append_nil]
  have hbehind : (w.digits ++ rest).dropWhile isHexMark = rest := by
    rw [List.dropWhile_append_of_pos hmarks, hstop.2]
  simp only [fscanfHex, hinput, hfield, hbehind, if_pos w.isDigits.1, Bool.false_or]

/-- A scan of white space only finds nothing and hits the end of the file. -/
theorem fscanfHex_blank (hlead : ∀ c ∈ lead, isBlank c) :
    fscanfHex { rest := lead } data = { res := -1, fr := { rest := [], eof := true }, data } := by
  have hinput : lead.dropWhile isBlank = [] := List.dropWhile_eq_nil_iff.mpr hlead
  simp [fscanfHex, hinput]

end Scan

/-! ### The loop -/

/-- The words as `data` holds them. -/
def HexWord.bits (w : HexWord) : BitVec 64 := hexBits w.digits

/-- What the loop pushes. White space behind the last word costs one more scan, after which
`data` is pushed as it was. -/
def pushed (data : BitVec 64) (closed : List (HexWord × Gap)) : Option HexWord → List (BitVec 64)
  | some w => closed.map (fun (w, _) => w.bits) ++ [w.bits]
  | none => closed.map (fun (w, _) => w.bits) ++ [(closed.map fun (w, _) => w.bits).getLastD data]

section Loop

variable {lead rest : Str}

theorem pushed_cons (data : BitVec 64) (w : HexWord) (g : Gap) (closed : List (HexWord × Gap))
    (last : Option HexWord) :
    pushed data ((w, g) :: closed) last = w.bits :: pushed w.bits closed last := by
  cases last with
  | none => simp only [pushed, List.map_cons, List.getLastD_cons, List.cons_append]
  | some w' => rfl

theorem StimulusFile.body_cons (w : HexWord) (g : Gap) (closed : List (HexWord × Gap))
    (last : Option HexWord) :
    body ((w, g) :: closed) last = w.digits ++ (g.blanks ++ body closed last) := by
  simp only [body, List.flatMap_cons, List.append_assoc]

/-- A gap ends the field in front of it. -/
theorem Gap.not_isHexMark_head (g : Gap) (rest : Str) :
    ∀ c ∈ (g.blanks ++ rest).head?, ¬ isHexMark c := by
  obtain ⟨c, blanks, hcons⟩ := List.exists_cons_of_ne_nil g.ne_nil
  rw [hcons]
  rintro _ ⟨⟩
  exact not_isHexMark_of_isBlank (g.blank c (hcons ▸ List.mem_cons_self))

/-- A turn that scans a word. -/
theorem turn_word (hlead : ∀ c ∈ lead, isBlank c) (w : HexWord)
    (hrest : ∀ c ∈ rest.head?, ¬ isHexMark c) (data : BitVec 64) (queue : List (BitVec 64)) :
    Reading.turn ⟨{ rest := lead ++ (w.digits ++ rest) }, data, queue⟩ =
      ⟨{ rest, eof := rest = [] }, w.bits, queue ++ [w.bits]⟩ := by
  rw [Reading.turn, fscanfHex_word hlead w hrest]
  rfl

/-- The turn that pushes `data` once more. -/
theorem turn_blank (hlead : ∀ c ∈ lead, isBlank c) (data : BitVec 64)
    (queue : List (BitVec 64)) :
    Reading.turn ⟨{ rest := lead }, data, queue⟩ =
      ⟨{ rest := [], eof := true }, data, queue ++ [data]⟩ := by
  rw [Reading.turn, fscanfHex_blank hlead]

/-- **The loop exits, and pushes the words in order.** -/
theorem reading_exits (hlead : ∀ c ∈ lead, isBlank c) (closed : List (HexWord × Gap))
    (last : Option HexWord) (data : BitVec 64) (queue : List (BitVec 64)) : ∃ s,
      Exits Reading.more Reading.turn
        ⟨{ rest := lead ++ StimulusFile.body closed last }, data, queue⟩ s ∧
      s.userDataQueue = queue ++ pushed data closed last := by
  induction closed generalizing lead data queue with
  | nil =>
    cases last with
    | none =>
      have hbody : lead ++ StimulusFile.body [] none = lead := List.append_nil lead
      rw [hbody]
      exact ⟨_, .turn rfl (turn_blank hlead data queue) (.done Bool.false_ne_true), rfl⟩
    | some w =>
      have hbody : StimulusFile.body [] (some w) = w.digits ++ [] := (List.append_nil _).symm
      have hrest : ∀ c ∈ ([] : Str).head?, ¬ isHexMark c := by rintro c ⟨⟩
      rw [hbody]
      exact ⟨_, .turn rfl (turn_word hlead w hrest data queue) (.done Bool.false_ne_true), rfl⟩
  | cons p closed ih =>
    obtain ⟨w, g⟩ := p
    have hrest := g.not_isHexMark_head (StimulusFile.body closed last)
    have hturn := turn_word hlead w hrest data queue
    -- the gap behind the word keeps the scan from the end of the file
    rw [decide_eq_false (List.append_ne_nil_of_left_ne_nil g.ne_nil _)] at hturn
    obtain ⟨s, hexits, hqueue⟩ := ih g.blank w.bits (queue ++ [w.bits])
    refine ⟨s, ?_, ?_⟩
    · rw [StimulusFile.body_cons]
      exact .turn rfl hturn hexits
    · rw [hqueue, pushed_cons, List.append_assoc, List.singleton_append]

end Loop

/-! ### Whole files -/

namespace StimulusFile

variable (f : StimulusFile)

theorem toList_text : f.text.toList = f.lead ++ body f.closed f.last :=
  String.toList_ofList

/-- A file that ends in a word ends in a digit. -/
theorem not_isBlank_of_last {w : HexWord} (hlast : f.last = some w) :
    ∃ c ∈ f.text.toList.getLast?, ¬ isBlank c := by
  have htext : f.text.toList = (f.lead ++ f.closed.flatMap fun (w, g) => w.digits ++ g.blanks) ++
      w.digits := by
    rw [toList_text, hlast, List.append_assoc]
    rfl
  have hne : w.digits ≠ [] := w.isDigits.1
  refine ⟨w.digits.getLast hne, ?_, fun hblank => ?_⟩
  · rw [htext, List.getLast?_append_of_ne_nil _ hne, List.getLast?_eq_some_getLast hne]
    rfl
  · exact not_isHexMark_of_isBlank hblank
      (isHexMark_of_isDigit (w.isDigits.2 _ (List.getLast_mem hne)))

/-- A file that ends in no word is empty or ends in white space. -/
theorem isBlank_of_last (hlast : f.last = none) {c : Char} (hc : c ∈ f.text.toList.getLast?) :
    isBlank c := by
  have htext : f.text.toList = f.lead ++ f.closed.flatMap fun (w, g) => w.digits ++ g.blanks := by
    rw [toList_text, hlast]
    exact congrArg _ (List.append_nil _)
  rw [htext] at hc
  rcases List.eq_nil_or_concat f.closed with hclosed | ⟨closed, ⟨w, g⟩, hclosed⟩
  · rw [hclosed, List.flatMap_nil, List.append_nil] at hc
    exact f.blank_lead c (List.mem_of_getLast? hc)
  · rw [hclosed, List.concat_eq_append, List.flatMap_append, List.flatMap_singleton,
      ← List.append_assoc, ← List.append_assoc, List.getLast?_append_of_ne_nil _ g.ne_nil] at hc
    exact g.blank c (List.mem_of_getLast? hc)

theorem endsInWord_iff : EndsInWord f.text ↔ f.last.isSome := by
  cases hlast : f.last with
  | none =>
    refine iff_of_false ?_ Bool.false_ne_true
    rintro ⟨c, hc, hword⟩
    exact hword (f.isBlank_of_last hlast hc)
  | some w => exact iff_of_true (f.not_isBlank_of_last hlast) rfl

end StimulusFile

section Files

variable {files : String → Option String} {filename : String}

theorem readFile_unique {fuel fuel' : Nat} {r r' : Except String (List (BitVec 64))}
    (h : readFile files filename fuel = some r) (h' : readFile files filename fuel' = some r') :
    r = r' := by
  rw [readFile] at h h'
  cases hfile : files filename with
  | none =>
    rw [hfile] at h h'
    exact Option.some.inj (h.symm.trans h')
  | some text =>
    rw [hfile] at h h'
    obtain ⟨s, hs, rfl⟩ := Option.map_eq_some_iff.mp h
    obtain ⟨s', hs', rfl⟩ := Option.map_eq_some_iff.mp h'
    rw [whileLoop_unique hs hs']

/-- **`ReadFile` returns for every file of words**, with what the loop pushes. -/
theorem readFile_pushed {f : StimulusFile} (hfile : files filename = some f.text) :
    ∃ fuel, readFile files filename fuel = some (.ok (pushed 0 f.closed f.last)) := by
  obtain ⟨s, ⟨fuel, hfuel⟩, hqueue⟩ :=
    reading_exits f.blank_lead f.closed f.last 0 []
  rw [List.nil_append] at hqueue
  refine ⟨fuel, ?_⟩
  rw [readFile, hfile, ← hqueue]
  refine Option.map_eq_some_iff.mpr ⟨s, ?_, rfl⟩
  rw [f.toList_text]
  exact hfuel

theorem map_toNat_words (words : List HexWord) :
    (words.map HexWord.bits).map BitVec.toNat = words.map HexWord.value := by
  rw [List.map_map]
  exact List.map_congr_left fun w _ => w.toNat_hexBits

/-- **The words are read once each iff nothing stands behind the last one.** -/
theorem readsWords_iff (files : String → Option String) (filename : String) (f : StimulusFile)
    (hfile : files filename = some f.text) :
    ReadsWords files filename f ↔ EndsInWord f.text := by
  rw [f.endsInWord_iff]
  obtain ⟨fuel, hfuel⟩ := readFile_pushed hfile
  constructor
  · rintro ⟨queue, fuel', hread, hqueue⟩
    obtain rfl := Except.ok.inj (readFile_unique hfuel hread)
    by_contra hlast
    have hlast : f.last = none := by simpa using hlast
    have hlen := congrArg List.length hqueue
    simp [pushed, StimulusFile.words, hlast] at hlen
  · intro hlast
    obtain ⟨w, hw⟩ := Option.isSome_iff_exists.mp hlast
    refine ⟨_, fuel, hfuel, ?_⟩
    rw [← map_toNat_words, StimulusFile.words, hw, pushed]
    simp

/-- The word `1f` on a line of its own, and possibly a second one with no line end. -/
def oneLine (last : Option HexWord) : StimulusFile where
  lead := []
  blank_lead := List.forall_mem_nil _
  closed := [(⟨['1', 'f'], by decide, by decide⟩,
    ⟨['\n'], List.cons_ne_nil _ _, List.forall_mem_singleton.mpr rfl⟩)]
  last

/-- `1f`, a line end and `a2` are read as they are. -/
theorem readsWords_two : ReadsWords (fun _ => some "1f\na2") "stimulus.txt"
    (oneLine (some ⟨['a', '2'], by decide, by decide⟩)) := by
  refine (readsWords_iff _ _ _ ?_).mpr ?_
  · exact congrArg some (by decide)
  · exact ⟨'2', by decide, by decide⟩

/-- **A line end behind the last word makes `ReadFile` push it twice.** -/
theorem rereads_last_word : (oneLine none).text = "1f\n" ∧
    readFile (fun _ => some "1f\n") "stimulus.txt" 2 = some (.ok [0x1f, 0x1f]) ∧
    ¬ ReadsWords (fun _ => some "1f\n") "stimulus.txt" (oneLine none) := by
  have hread : readFile (fun _ => some "1f\n") "stimulus.txt" 2 = some (.ok [0x1f, 0x1f]) := by
    decide
  refine ⟨rfl, hread, ?_⟩
  rintro ⟨queue, fuel, hqueue, hwords⟩
  obtain rfl := Except.ok.inj (readFile_unique hread hqueue)
  exact absurd (congrArg List.length hwords) (by decide)

end Files

end Testbench.Testcase
