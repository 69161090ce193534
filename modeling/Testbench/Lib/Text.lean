import Mathlib

/-!
Texts put together from fragments.

A needle that lacks a character is not found across it. `mentions_between`,
`mentions_before` and `mentions_after` take a search apart at the fixed parts of a format,
`mentions_intercalate` and `mentions_unlines` at the separators of a joined text.
`words_intercalate` is the counterpart for texts cut into words.
-/

namespace Testbench.Lib

/-- `needle in text`. -/
def Occurs (needle text : String) : Prop := needle.toList <:+: text.toList

/-- One of the needles is in the text. -/
def Mentions (needles : List String) (text : String) : Prop :=
  ∃ needle ∈ needles, Occurs needle text

/-- The character is in none of the needles. -/
def Foreign (needles : List String) (c : Char) : Prop := ∀ needle ∈ needles, c ∉ needle.toList

instance (needle text : String) : Decidable (Occurs needle text) :=
  inferInstanceAs (Decidable (_ <:+: _))

instance (needles : List String) (text : String) : Decidable (Mentions needles text) :=
  inferInstanceAs (Decidable (∃ needle ∈ needles, Occurs needle text))

instance (needles : List String) (c : Char) : Decidable (Foreign needles c) :=
  inferInstanceAs (Decidable (∀ needle ∈ needles, c ∉ needle.toList))

/-- A fixed text that no needle reaches into from the left. -/
def Opens (needles : List String) (text : String) : Prop :=
  text.toList.head?.any (Foreign needles ·) ∧ ¬ Mentions needles text

/-- A fixed text that no needle reaches into from the right. -/
def Closes (needles : List String) (text : String) : Prop :=
  text.toList.getLast?.any (Foreign needles ·) ∧ ¬ Mentions needles text

instance (needles : List String) (text : String) : Decidable (Opens needles text) :=
  inferInstanceAs (Decidable (_ ∧ _))

instance (needles : List String) (text : String) : Decidable (Closes needles text) :=
  inferInstanceAs (Decidable (_ ∧ _))

/-! ### Searching -/

/-- A needle is not found across an element it lacks. -/
theorem infix_append_cons_iff {α : Type*} {needle a b : List α} {c : α} (hc : c ∉ needle) :
    needle <:+: a ++ c :: b ↔ needle <:+: a ∨ needle <:+: c :: b := by
  rw [List.infix_append_iff]
  constructor
  · rintro (ha | hb | ⟨l, r, rfl, hl, hr⟩)
    · exact .inl ha
    · exact .inr hb
    · cases r with
      | nil => exact .inl (by simpa using hl.isInfix)
      | cons d r =>
        have hcd := (List.cons_prefix_cons.mp hr).1
        exact absurd (hcd ▸ by simp) hc
  · rintro (ha | hb)
    · exact .inl ha
    · exact .inr (.inl hb)

theorem infix_concat_append_iff {α : Type*} {needle a b : List α} {c : α} (hc : c ∉ needle) :
    needle <:+: a ++ [c] ++ b ↔ needle <:+: a ++ [c] ∨ needle <:+: b := by
  have hrev : needle.reverse <:+: b.reverse ++ c :: a.reverse ↔
      needle.reverse <:+: b.reverse ∨ needle.reverse <:+: c :: a.reverse :=
    infix_append_cons_iff (by simpa using hc)
  have hflip : ∀ l : List α, needle <:+: l ↔ needle.reverse <:+: l.reverse :=
    fun l => List.reverse_infix.symm
  rw [hflip, hflip (a ++ [c]), hflip b]
  simpa [or_comm] using hrev

section Search

variable {needles : List String} {a b sep : String}

/-- A search is split where each needle is. -/
theorem mentions_append (h : ∀ needle ∈ needles, needle.toList <:+: a.toList ++ b.toList ↔
    needle.toList <:+: a.toList ∨ needle.toList <:+: b.toList) :
    Mentions needles (a ++ b) ↔ Mentions needles a ∨ Mentions needles b := by
  unfold Mentions Occurs
  rw [← exists_or, String.toList_append]
  refine exists_congr fun needle => ?_
  rw [← and_or_left]
  exact and_congr_right (h needle)

theorem mentions_append_of_head (h : b.toList.head?.any (Foreign needles ·)) :
    Mentions needles (a ++ b) ↔ Mentions needles a ∨ Mentions needles b := by
  obtain ⟨c, hhead, hc⟩ := (Option.any_eq_true _ _).mp h
  refine mentions_append fun needle hmem => ?_
  have hsplit := infix_append_cons_iff (a := a.toList) (b := b.toList.tail)
    (of_decide_eq_true hc needle hmem)
  rwa [List.cons_head?_tail hhead] at hsplit

theorem mentions_append_of_last (h : a.toList.getLast?.any (Foreign needles ·)) :
    Mentions needles (a ++ b) ↔ Mentions needles a ∨ Mentions needles b := by
  obtain ⟨c, hlast, hc⟩ := (Option.any_eq_true _ _).mp h
  refine mentions_append fun needle hmem => ?_
  have hsplit := infix_concat_append_iff (a := a.toList.dropLast) (b := b.toList)
    (of_decide_eq_true hc needle hmem)
  rwa [List.dropLast_append_getLast? c hlast] at hsplit

/-- What a fixed text ends. -/
theorem mentions_before (h : Opens needles sep) :
    Mentions needles (a ++ sep) ↔ Mentions needles a := by
  rw [mentions_append_of_head h.1, or_iff_left h.2]

/-- What a fixed text introduces. -/
theorem mentions_after (h : Closes needles sep) :
    Mentions needles (sep ++ b) ↔ Mentions needles b := by
  rw [mentions_append_of_last h.1, or_iff_right h.2]

/-- What a fixed text separates. -/
theorem mentions_between (ho : Opens needles sep) (hc : Closes needles sep) :
    Mentions needles (a ++ sep ++ b) ↔ Mentions needles a ∨ Mentions needles b := by
  obtain ⟨c, hlast, hforeign⟩ := (Option.any_eq_true _ _).mp hc.1
  have hend : (a ++ sep).toList.getLast? = some c := by
    rw [String.toList_append]
    exact List.mem_getLast?_append_of_mem_getLast? hlast
  rw [mentions_append_of_last ((Option.any_eq_true _ _).mpr ⟨c, hend, hforeign⟩),
    mentions_before ho]

/-- A text without a letter that every needle has mentions none of them. -/
theorem not_mentions_of_not_mem {c : Char} (hc : ∀ needle ∈ needles, c ∈ needle.toList)
    (ha : c ∉ a.toList) : ¬ Mentions needles a := by
  rintro ⟨needle, hmem, hocc⟩
  exact ha (hocc.subset (hc needle hmem))

theorem mentions_intercalate (ho : Opens needles sep) (hc : Closes needles sep)
    (hnil : ¬ Mentions needles "") (texts : List String) :
    Mentions needles (sep.intercalate texts) ↔ ∃ text ∈ texts, Mentions needles text := by
  induction texts with
  | nil => simpa using hnil
  | cons text texts ih =>
    cases texts with
    | nil => simp
    | cons next texts =>
      rw [String.intercalate_cons_cons, mentions_between ho hc, ih,
        List.exists_mem_cons_iff _ text]

theorem length_intercalate {texts : List String} (hne : texts ≠ []) :
    (sep.intercalate texts).length + sep.length =
      (texts.map fun text => text.length + sep.length).sum := by
  induction texts with
  | nil => exact absurd rfl hne
  | cons text texts ih =>
    cases texts with
    | nil => simp
    | cons next texts =>
      rw [String.intercalate_cons_cons, String.length_append, String.length_append, List.map_cons,
        List.sum_cons, ← ih (List.cons_ne_nil _ _)]
      omega

/-- The lines of an output. -/
def unlines (lines : List String) : String := String.join (lines.map (· ++ "\n"))

theorem mentions_unlines (ho : Opens needles "\n") (hc : Closes needles "\n")
    (hnil : ¬ Mentions needles "") (lines : List String) :
    Mentions needles (unlines lines) ↔ ∃ line ∈ lines, Mentions needles line := by
  induction lines with
  | nil => simpa [unlines] using hnil
  | cons line lines ih =>
    have hcons : unlines (line :: lines) = line ++ "\n" ++ unlines lines := by
      simp [unlines, String.join_cons]
    rw [hcons, mentions_between ho hc, ih, List.exists_mem_cons_iff]

end Search

/-! ### Words -/

/-- The words of a text, cut at the blanks. -/
def words (blank : Char → Bool) (text : String) : List (List Char) :=
  (text.toList.splitOnP blank).filter (· ≠ [])

section Words

variable {blank : Char → Bool} {a b sep : String}

theorem splitOnP_blanks {blanks : List Char} (hblank : ∀ c ∈ blanks, blank c) (l : List Char) :
    ((blanks ++ l).splitOnP blank).filter (· ≠ []) = (l.splitOnP blank).filter (· ≠ []) := by
  induction blanks with
  | nil => rfl
  | cons c blanks ih =>
    have hc : blank c := hblank c List.mem_cons_self
    rw [List.cons_append, List.splitOnP_cons_eq_if_modifyHead, if_pos hc]
    exact ih fun d hd => hblank d (List.mem_cons_of_mem _ hd)

/-- Blanks between two texts keep their words apart. -/
theorem words_between (hsep : sep.toList ≠ []) (hblank : ∀ c ∈ sep.toList, blank c) :
    words blank (a ++ sep ++ b) = words blank a ++ words blank b := by
  obtain ⟨c, blanks, heq⟩ := List.exists_cons_of_ne_nil hsep
  rw [heq] at hblank
  unfold words
  rw [String.toList_append, String.toList_append, heq, List.append_assoc, List.cons_append,
    List.splitOnP_append_cons _ _ (hblank c List.mem_cons_self), List.filter_append,
    splitOnP_blanks fun d hd => hblank d (List.mem_cons_of_mem _ hd)]

theorem words_intercalate (hsep : sep.toList ≠ []) (hblank : ∀ c ∈ sep.toList, blank c)
    (texts : List String) : words blank (sep.intercalate texts) = texts.flatMap (words blank) := by
  induction texts with
  | nil => rfl
  | cons text texts ih =>
    cases texts with
    | nil => simp
    | cons next texts =>
      rw [String.intercalate_cons_cons, words_between hsep hblank, ih]
      rfl

theorem words_nil : words blank "" = [] := rfl

/-- Blanks at the end of a text are in none of its words. -/
theorem words_before (hsep : sep.toList ≠ []) (hblank : ∀ c ∈ sep.toList, blank c) :
    words blank (a ++ sep) = words blank a := by
  have h := words_between (a := a) (b := "") hsep hblank
  rwa [String.append_empty, words_nil, List.append_nil] at h

/-- A text without blanks is one word, or none. -/
theorem words_eq_singleton (hword : ∀ c ∈ a.toList, ¬ blank c) :
    words blank a = if a = "" then [] else [a.toList] := by
  rw [words, List.splitOnP_eq_singleton fun c hc => Bool.eq_false_iff.mpr (hword c hc)]
  split_ifs with h
  · subst h
    rfl
  · exact List.filter_eq_self.mpr (by simpa using h)

/-- The text between the blanks at its ends, `str.strip`. -/
def strip (blank : Char → Bool) (text : String) : String :=
  .ofList ((text.toList.dropWhile blank).rdropWhile blank)

/-- Stripping blanks off the ends of a text leaves its words. -/
theorem words_strip {strips : Char → Bool} (hstrips : ∀ c, strips c = true → blank c = true)
    (text : String) : words blank (strip strips text) = words blank text := by
  have hfront : ((text.toList.takeWhile strips ++ text.toList.dropWhile strips).splitOnP
      blank).filter (· ≠ []) = _ :=
    splitOnP_blanks (fun c hc => hstrips c (List.mem_takeWhile_imp hc)) _
  rw [List.takeWhile_append_dropWhile] at hfront
  have hback : ∀ l : List Char, ((l.rdropWhile strips).splitOnP blank).filter (· ≠ []) =
      (l.splitOnP blank).filter (· ≠ []) := by
    intro l
    induction l using List.reverseRecOn with
    | nil => rfl
    | append_singleton l c ih =>
      by_cases hc : strips c
      · rw [List.rdropWhile_concat_pos _ _ _ hc, ih, List.splitOnP_append_cons _ _ (hstrips c hc),
          List.filter_append]
        simp
      · rw [List.rdropWhile_concat_neg _ _ _ hc]
  rw [words, words, strip, String.toList_ofList, hback]
  exact hfront.symm

end Words

/-- White space, as `str.split` and `str.strip` take it. -/
def spaces : List Char :=
  [' ', '\t', '\n', '\x0b', '\x0c', '\r', '\x1c', '\x1d', '\x1e', '\x1f', '\x85', '\xa0', '\u1680',
    '\u2000', '\u2001', '\u2002', '\u2003', '\u2004', '\u2005', '\u2006', '\u2007', '\u2008',
    '\u2009', '\u200a', '\u2028', '\u2029', '\u202f', '\u205f', '\u3000']

def isSpace (c : Char) : Bool := spaces.contains c

/-- The text after the blanks it begins with, `str.lstrip`. -/
def lstrip (blank : Char → Bool) (text : String) : String := .ofList (text.toList.dropWhile blank)

/-- A text is blank from both ends iff it is from the front. -/
theorem strip_eq_empty_iff {blank : Char → Bool} {text : String} :
    strip blank text = "" ↔ lstrip blank text = "" := by
  unfold strip lstrip
  rw [String.ofList_eq_empty_iff, String.ofList_eq_empty_iff, List.rdropWhile_eq_nil_iff,
    ← List.dropWhile_eq_nil_iff, List.dropWhile_idempotent]

/-! ### Lines -/

/-- The lines of a text with their line ends, `readlines`. The text is as text mode delivers
it, where every line ends in a newline character alone. -/
def readlines (text : String) : List String :=
  let pieces := text.toList.splitOnP (· = '\n')
  (pieces.dropLast.map fun piece => .ofList (piece ++ ['\n'])) ++
    if pieces.getLastD [] = [] then [] else [.ofList (pieces.getLastD [])]

/-- A line, with its line end or without. -/
def IsLine (line : String) : Prop := line ≠ "" ∧ '\n' ∉ line.toList.dropLast

def Ended (line : String) : Prop := line.toList.getLast? = some '\n'

/-- Lines of a text: each one that another follows has a line end. -/
def AreLines (lines : List String) : Prop :=
  (∀ line ∈ lines, IsLine line) ∧ lines.Pairwise fun line _ => Ended line

instance (line : String) : Decidable (IsLine line) := inferInstanceAs (Decidable (_ ∧ _))

instance (line : String) : Decidable (Ended line) := inferInstanceAs (Decidable (_ = _))

section Lines

theorem readlines_empty : readlines "" = [] := rfl

/-- A text without a line end is one line. -/
theorem readlines_eq_singleton {text : String} (hne : text ≠ "") (h : '\n' ∉ text.toList) :
    readlines text = [text] := by
  have hsplit : ∀ c ∈ text.toList, decide (c = '\n') = false := by
    intro c hc
    refine decide_eq_false ?_
    rintro rfl
    exact h hc
  unfold readlines
  rw [List.splitOnP_eq_singleton hsplit]
  simp [hne]

/-- The first line of a text. -/
theorem readlines_cons {front : List Char} (h : '\n' ∉ front) (text : String) :
    readlines (.ofList (front ++ ['\n']) ++ text) =
      .ofList (front ++ ['\n']) :: readlines text := by
  have hsplit : (String.ofList (front ++ ['\n']) ++ text).toList.splitOnP (· = '\n') =
      front :: text.toList.splitOnP (· = '\n') := by
    rw [String.toList_append, String.toList_ofList, List.append_assoc, List.singleton_append]
    refine List.splitOnP_append_cons_of_forall_mem (fun c hc => decide_eq_false ?_) _ (by decide) _
    rintro rfl
    exact h hc
  obtain ⟨piece, pieces, heq⟩ := List.exists_cons_of_ne_nil
    (List.splitOnP_ne_nil (· = '\n') text.toList)
  unfold readlines
  rw [hsplit, heq]
  rfl

/-- A line with its end, as the line and the end. -/
theorem Ended.exists_front {line : String} (h : Ended line) (hline : IsLine line) :
    ∃ front, line = .ofList (front ++ ['\n']) ∧ '\n' ∉ front := by
  obtain ⟨front, hfront⟩ := List.getLast?_eq_some_iff.mp h
  refine ⟨front, by rw [← hfront, String.ofList_toList], ?_⟩
  have hmem := hline.2
  rwa [hfront, List.dropLast_concat] at hmem

/-- **The lines that are written are the lines that are read.** -/
theorem readlines_join {lines : List String} (h : AreLines lines) :
    readlines (String.join lines) = lines := by
  induction lines with
  | nil => rfl
  | cons line lines ih =>
    obtain ⟨hall, hpair⟩ := h
    obtain ⟨hline, hlines⟩ := List.forall_mem_cons.mp hall
    obtain ⟨hends, htail⟩ := List.pairwise_cons.mp hpair
    have hjoin : String.join (line :: lines) = line ++ String.join lines := by
      simp [String.join_cons]
    by_cases hend : Ended line
    · obtain ⟨front, rfl, hfront⟩ := hend.exists_front hline
      rw [hjoin, readlines_cons hfront, ih ⟨hlines, htail⟩]
    · -- only the last line may lack its end
      have hnil : lines = [] := by
        cases lines with
        | nil => rfl
        | cons next lines => exact absurd (hends next List.mem_cons_self) hend
      subst hnil
      have hmem : '\n' ∉ line.toList := by
        intro hmem
        obtain ⟨front, c, hc⟩ : ∃ front c, line.toList = front ++ [c] :=
          ⟨_, _, (List.dropLast_concat_getLast (List.ne_nil_of_mem hmem)).symm⟩
        have hfront := hline.2
        rw [hc, List.dropLast_concat] at hfront
        rw [hc, List.mem_append, or_iff_right hfront, List.mem_singleton] at hmem
        exact hend (by rw [Ended, hc, hmem, List.getLast?_concat])
      rw [hjoin, show String.join [] = "" from rfl, String.append_empty,
        readlines_eq_singleton hline.1 hmem]

/-- A text up to a line end, in lines. -/
theorem exists_ended_lines (text : List Char) : ∃ lines : List String,
    (∀ line ∈ lines, IsLine line ∧ Ended line) ∧ String.join lines = .ofList (text ++ ['\n']) := by
  induction text with
  | nil => exact ⟨["\n"], by decide, rfl⟩
  | cons c text ih =>
    obtain ⟨lines, hlines, hjoin⟩ := ih
    by_cases hc : c = '\n'
    · refine ⟨"\n" :: lines, List.forall_mem_cons.mpr ⟨by decide, hlines⟩, ?_⟩
      rw [String.join_cons, hjoin, hc, List.cons_append, String.ofList_cons]
      rfl
    · -- the character belongs to the first line
      cases lines with
      | nil =>
        rw [show String.join [] = "" from rfl, eq_comm, String.ofList_eq_empty_iff] at hjoin
        simp at hjoin
      | cons line lines =>
        obtain ⟨hline, htail⟩ := List.forall_mem_cons.mp hlines
        obtain ⟨front, rfl, hfront⟩ := hline.2.exists_front hline.1
        refine ⟨.ofList (c :: front ++ ['\n']) :: lines,
          List.forall_mem_cons.mpr ⟨⟨⟨by simp, ?_⟩, ?_⟩, htail⟩, ?_⟩
        · rw [String.toList_ofList, List.dropLast_concat, List.mem_cons, not_or]
          exact ⟨Ne.symm hc, hfront⟩
        · rw [Ended, String.toList_ofList, List.getLast?_concat]
        · rw [String.join_cons] at hjoin ⊢
          rw [List.cons_append, String.ofList_cons, String.append_assoc, hjoin, List.cons_append,
            String.ofList_cons]

/-- **A last line without its end is read behind the lines before it.** -/
theorem exists_readlines (text : List Char) : ∃ lines : List String,
    (∀ line ∈ lines, Ended line) ∧ String.join lines = .ofList (text ++ ['\n']) ∧
      ∀ last : List Char, last ≠ [] → '\n' ∉ last →
        readlines (.ofList (text ++ '\n' :: last)) = lines ++ [.ofList last] := by
  obtain ⟨lines, hlines, hjoin⟩ := exists_ended_lines text
  refine ⟨lines, fun line hline => (hlines line hline).2, hjoin, fun last hne hlast => ?_⟩
  have htext : String.ofList (text ++ '\n' :: last) = String.join (lines ++ [.ofList last]) := by
    rw [String.join_append, hjoin, List.append_cons, String.ofList_append]
    simp
  rw [htext, readlines_join]
  refine ⟨?_, ?_⟩
  · intro line hline
    rw [List.mem_append, List.mem_singleton] at hline
    rcases hline with hline | rfl
    · exact (hlines line hline).1
    · refine ⟨by simpa using hne, ?_⟩
      rw [String.toList_ofList]
      exact fun hmem => hlast (List.dropLast_subset last hmem)
  · rw [List.pairwise_append]
    refine ⟨List.pairwise_of_forall_mem_list fun line hline _ _ => (hlines line hline).2,
      List.pairwise_singleton _ _, fun line hline _ _ => (hlines line hline).2⟩

theorem join_inj {lines lines' : List String} (h : AreLines lines) (h' : AreLines lines') :
    String.join lines = String.join lines' ↔ lines = lines' := by
  constructor
  · intro heq
    rw [← readlines_join h, heq, readlines_join h']
  · rintro rfl
    rfl

theorem AreLines.sublist {lines lines' : List String} (h : AreLines lines')
    (hsub : lines.Sublist lines') : AreLines lines :=
  ⟨fun line hline => h.1 line (hsub.subset hline), h.2.sublist hsub⟩

/-- **What is read are lines.** -/
theorem areLines_readlines (text : String) : AreLines (readlines text) := by
  have hchars : ∀ (n : Nat) (l : List Char), l.length ≤ n → AreLines (readlines (.ofList l)) := by
    intro n
    induction n with
    | zero =>
      intro l hl
      obtain rfl := List.length_eq_zero_iff.mp (Nat.le_zero.mp hl)
      exact ⟨by simp [readlines_empty], by simp [readlines_empty]⟩
    | succ n ih =>
      intro l hl
      by_cases hend : '\n' ∈ l
      · -- the first line and the rest
        obtain ⟨front, rest, rfl, hfront⟩ := List.eq_append_cons_of_mem hend
        have hcons : String.ofList (front ++ '\n' :: rest) =
            .ofList (front ++ ['\n']) ++ .ofList rest := by
          rw [← String.ofList_append, List.append_assoc, List.singleton_append]
        rw [hcons, readlines_cons hfront]
        have hrest := ih rest (by rw [List.length_append, List.length_cons] at hl; omega)
        refine ⟨List.forall_mem_cons.mpr ⟨⟨by simp, ?_⟩, hrest.1⟩,
          List.pairwise_cons.mpr ⟨fun _ _ => ?_, hrest.2⟩⟩
        · rwa [String.toList_ofList, List.dropLast_concat]
        · rw [Ended, String.toList_ofList, List.getLast?_concat]
      · by_cases hempty : l = []
        · subst hempty
          exact ⟨by simp [readlines_empty], by simp [readlines_empty]⟩
        · rw [readlines_eq_singleton (by simpa using hempty) (by simpa using hend)]
          refine ⟨List.forall_mem_singleton.mpr ⟨by simpa using hempty, ?_⟩,
            List.pairwise_singleton _ _⟩
          rw [String.toList_ofList]
          exact fun hmem => hend (List.dropLast_subset l hmem)
  have h := hchars text.toList.length text.toList le_rfl
  rwa [String.ofList_toList] at h

end Lines

end Testbench.Lib
