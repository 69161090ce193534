import Testbench.Testplan.ExcelToJson

/-!
The text of a row (`process_to_json`), taken apart.

No pattern reaches across the border of a string and what is between two strings, so the text
is the pieces of four strings in fixed gaps (`processText_eq`). A piece either is a string with
blanks around it, or has an error in it (`piece_cases`): a line end in a string, or a blank
behind a backslash.
-/

namespace Testbench.Testplan

open Testbench.Lib Testbench.Lib.Json

/-! ### Pieces and gaps -/

/-- Pieces, each followed by a gap. -/
def weave (front : Str) (fields : List (Str × Str)) : Str :=
  front ++ fields.flatMap fun f => f.1 ++ f.2

/-- The characters at the end of a gap, and at the front of a piece. -/
def gapEnds : Str := [' ', '{', '[', '}', ']', '\n']
def pieceFronts : Str := ['"', ' ']

/-- The characters at the end of a piece, and at the front of a gap. -/
def pieceEnds : Str := ['"', '\n']
def gapFronts : Str := [':', ',']

/-- A replacement whose pattern reaches from no gap into a piece, and from no piece into its
gap. -/
theorem replaceAll_weave {pat rep front : Str} {fields : List (Str × Str)} (hpat : pat ≠ [])
    (hcross : ∀ x ∈ gapEnds, ∀ y ∈ pieceFronts, ¬ [x, y] <:+: pat)
    (hfront : ∀ x ∈ front.getLast?, x ∈ gapEnds)
    (hfields : ∀ f ∈ fields, f.1 ≠ [] ∧ f.2 ≠ [] ∧ (∀ y ∈ f.1.head?, y ∈ pieceFronts) ∧
      Apart pat f.1 f.2 ∧ ∀ x ∈ f.2.getLast?, x ∈ gapEnds) :
    replaceAll pat rep (weave front fields) =
      weave (replaceAll pat rep front)
        (fields.map fun f => (replaceAll pat rep f.1, replaceAll pat rep f.2)) := by
  unfold weave
  induction fields generalizing front with
  | nil => simp
  | cons f fields ih =>
    rw [List.forall_mem_cons] at hfields
    obtain ⟨⟨hne, hne', hhead, hapart, hlast⟩, hrest⟩ := hfields
    have hborder : Apart pat front (f.1 ++ (f.2 ++ fields.flatMap fun f => f.1 ++ f.2)) := by
      intro x hx y hy
      rw [List.head?_append_of_ne_nil _ hne] at hy
      exact hcross x (hfront x hx) y (hhead y hy)
    have hborder' : Apart pat f.1 (f.2 ++ fields.flatMap fun f => f.1 ++ f.2) := by
      intro x hx y hy
      rw [List.head?_append_of_ne_nil _ hne'] at hy
      exact hapart x hx y hy
    rw [List.flatMap_cons, List.append_assoc, replaceAll_append hpat hborder,
      replaceAll_append hpat hborder', ih hlast hrest, List.map_cons, List.flatMap_cons,
      List.append_assoc]

/-- The strings of a row that are not fixed. -/
def TestEntry.contents (e : TestEntry) : List Str := [e.name, e.uvmTestname, e.simArgs, e.tcl]

/-- The text of a row at some stage: what has become of a string, and the gaps. -/
def rowText (front : Str) (gaps : List Str) (piece : Str → Str) (e : TestEntry) : Str :=
  weave front ((e.contents.map piece).zip gaps)

/-- A pattern that joins no gap to the piece behind it. -/
def GapsFit (pat front : Str) (gaps : List Str) : Prop :=
  pat ≠ [] ∧ (gapEnds.all fun x => pieceFronts.all fun y => ¬ [x, y] <:+: pat) ∧
    front.getLast?.all (· ∈ gapEnds) ∧ gaps.all fun g => g ≠ [] ∧ g.getLast?.all (· ∈ gapEnds)

instance (pat front : Str) (gaps : List Str) : Decidable (GapsFit pat front gaps) :=
  inferInstanceAs (Decidable (_ ∧ _))

/-- A replacement goes on in the pieces and in the gaps. -/
theorem replaceAll_rowText {pat rep front : Str} {gaps : List Str} {piece : Str → Str}
    (hfit : GapsFit pat front gaps) (hpiece : ∀ c, ∃ y ∈ pieceFronts, (piece c).head? = some y)
    (hapart : ∀ c, ∀ g ∈ gaps, Apart pat (piece c) g) (e : TestEntry) :
    replaceAll pat rep (rowText front gaps piece e) =
      rowText (replaceAll pat rep front) (gaps.map (replaceAll pat rep))
        (fun c => replaceAll pat rep (piece c)) e := by
  simp only [GapsFit, List.all_eq_true, Option.all_eq_true, decide_eq_true_eq] at hfit
  obtain ⟨hpat, hcross, hfront, hgaps⟩ := hfit
  rw [rowText, replaceAll_weave hpat hcross hfront, rowText]
  · congr 1
    have hmap : ((e.contents.map piece).map (replaceAll pat rep)).zip
        (gaps.map (replaceAll pat rep)) = _ := List.zip_map
    rw [List.map_map] at hmap
    exact hmap.symm
  · intro f hf
    obtain ⟨a, -, hfa⟩ := List.mem_map.mp (List.of_mem_zip hf).1
    have hgap := (List.of_mem_zip hf).2
    obtain ⟨y, hy, hhead⟩ := hpiece a
    rw [hfa] at hhead
    refine ⟨?_, (hgaps f.2 hgap).1, ?_, hfa ▸ hapart a f.2 hgap, (hgaps f.2 hgap).2⟩
    · intro hnil
      rw [hnil] at hhead
      exact Option.some_ne_none y hhead.symm
    · rw [hhead]
      rintro z ⟨⟩
      exact hy

/-- A piece that begins and ends as a string does, or with a blank. -/
structure Framed (a : Str) : Prop where
  head : ∃ y ∈ pieceFronts, a.head? = some y
  last : ∃ x ∈ pieceEnds, a.getLast? = some x

theorem framed_quote (c : Str) : Framed (quote c) where
  head := ⟨'"', by decide, rfl⟩
  last := ⟨'"', by decide, by rw [quote, List.getLast?_concat]⟩

theorem Framed.ne_nil {a : Str} (h : Framed a) : a ≠ [] := by
  obtain ⟨y, -, hy⟩ := h.head
  rintro rfl
  exact Option.some_ne_none y hy.symm

/-- A replacement by what ends as a piece may. -/
theorem Framed.replaceAll {pat rep a : Str} (h : Framed a) (hpat : pat ≠ []) (hrep : rep ≠ [])
    (hhead : ∃ y ∈ pieceFronts, (replaceAll pat rep a).head? = some y)
    (hlast : ∀ x ∈ rep.getLast?, x ∈ pieceEnds) : Framed (replaceAll pat rep a) where
  head := hhead
  last := by
    have hne : Lib.replaceAll pat rep a ≠ [] := mt (replaceAll_eq_nil_iff hpat hrep).mp h.ne_nil
    have hmem := List.getLast?_eq_getLast_of_ne_nil hne
    refine ⟨_, ?_, hmem⟩
    rcases mem_getLast?_replaceAll hpat hrep hmem with hx | hx
    · obtain ⟨x, hx', hlast'⟩ := h.last
      rw [hlast'] at hx
      exact Option.some.inj hx ▸ hx'
    · exact hlast _ hx

/-- A line end behind each occurrence. -/
theorem Framed.newline {pat a : Str} (h : Framed a) (hpat : pat ≠ []) :
    Framed (Lib.replaceAll pat (pat ++ ['\n']) a) := by
  refine h.replaceAll hpat (List.append_ne_nil_of_left_ne_nil hpat _) ?_ ?_
  · rw [head?_replaceAll_behind hpat]
    exact h.head
  · rw [List.getLast?_concat]
    rintro x ⟨⟩
    decide

/-- A blank before a name. -/
def indent (s key : Str) : Str := replaceAll (quote key) (' ' :: quote key) s

theorem Framed.indent {a : Str} (h : Framed a) (key : Str) : Framed (indent a key) := by
  have hpat : quote key ≠ [] := List.cons_ne_nil _ _
  have hrep : ' ' :: quote key ≠ [] := List.cons_ne_nil _ _
  rw [Testplan.indent]
  refine h.replaceAll hpat hrep ?_ ?_
  · have hne : Lib.replaceAll (quote key) (' ' :: quote key) a ≠ [] :=
      mt (replaceAll_eq_nil_iff hpat hrep).mp h.ne_nil
    obtain ⟨y, t, hyt⟩ := List.exists_cons_of_ne_nil hne
    refine ⟨y, ?_, by rw [hyt, List.head?_cons]⟩
    have hmem : y ∈ (Lib.replaceAll (quote key) (' ' :: quote key) a).head? := by
      rw [hyt, List.head?_cons, Option.mem_some]
    rcases mem_head?_replaceAll hpat hrep hmem with hy | hy
    · obtain ⟨z, hz, hhead⟩ := h.head
      rw [hhead] at hy
      exact Option.some.inj hy ▸ hz
    · obtain rfl := Option.some.inj hy
      decide
  · rw [show ' ' :: quote key = (' ' :: '"' :: escape key) ++ ['"'] from rfl, List.getLast?_concat]
    rintro x ⟨⟩
    decide

/-! ### The replacements of a row -/

/-- What the brackets' replacements leave of a string. -/
def stripped (c : Str) : Str :=
  replaceAll ['}', ',', ' ', '{'] [','] (replaceAll [']'] [] (replaceAll ['['] [] c))

/-- A string after the last replacement. -/
def starred (d : Str) : Str := replaceAll ['*'] ['[', '*', ']'] d

/-- The names in a record. -/
def recordKeys : List Str :=
  ["uvm_testname".toList, "sim_args".toList, "tcl".toList, "timescale".toList]

/-- A string without its end, before and after a line end is put behind `{`. -/
def opened (d : Str) : Str := '"' :: replaceAll ['{'] ['{', '\n'] (escape d)

/-- A string with line ends behind `",` and `},`. -/
def broken (d : Str) : Str :=
  replaceAll ['}', ','] ['}', ',', '\n']
    (replaceAll ['"', ','] ['"', ',', '\n'] (opened d) ++ ['"'])

/-- A string with one behind `1ps"` as well. -/
def lined (d : Str) : Str :=
  replaceAll ['1', 'p', 's', '"'] ['1', 'p', 's', '"', '\n'] (broken d)

/-- A string as it is in the text of a row. -/
def piece (d : Str) : Str := starred (recordKeys.foldl indent (lined d))

/-- What is between the strings, without the brackets of the list. -/
def plainGaps : List Str :=
  [": \x7b\"uvm_testname\": ".toList, ", \"sim_args\": ".toList, ", \"tcl\": ".toList,
    ", \"timescale\": \"1ns/1ps\"\x7d\x7d".toList]

/-- What is between the strings in the text of a row. -/
def rowGaps : List Str :=
  [": \x7b\n \"uvm_testname\": ".toList, ",\n  \"sim_args\": ".toList, ",\n  \"tcl\": ".toList,
    ",\n  \"timescale\": \"1ns/1ps\"\n\x7d\x7d".toList]

/-- A pattern that joins no piece to the gap behind it either. -/
def Fits (pat front : Str) (gaps : List Str) : Prop :=
  GapsFit pat front gaps ∧ (pieceEnds.all fun x => gapFronts.all fun y => ¬ [x, y] <:+: pat) ∧
    gaps.all fun g => g.head?.all (· ∈ gapFronts)

instance (pat front : Str) (gaps : List Str) : Decidable (Fits pat front gaps) :=
  inferInstanceAs (Decidable (_ ∧ _))

/-- One replacement of a row. -/
theorem replaceAll_framed {pat rep front front' : Str} {gaps gaps' : List Str}
    {piece piece' : Str → Str} (hfits : Fits pat front gaps) (hpiece : ∀ c, Framed (piece c))
    (hfront' : replaceAll pat rep front = front') (hgaps' : gaps.map (replaceAll pat rep) = gaps')
    (hpiece' : ∀ c, replaceAll pat rep (piece c) = piece' c) (e : TestEntry) :
    replaceAll pat rep (rowText front gaps piece e) = rowText front' gaps' piece' e := by
  simp only [Fits, List.all_eq_true, Option.all_eq_true, decide_eq_true_eq] at hfits
  obtain ⟨hfit, hends, hheads⟩ := hfits
  rw [replaceAll_rowText hfit (fun c => (hpiece c).head), hfront', hgaps', funext hpiece']
  intro c g hg x hx y hy
  obtain ⟨z, hz, hlast⟩ := (hpiece c).last
  rw [hlast] at hx
  obtain rfl := Option.some.inj hx
  exact hends z hz y (hheads g hg y hy)

/-- A quotation mark at the end of each piece is one at the front of each gap. -/
theorem rowText_concat (front : Str) (gaps : List Str) (piece : Str → Str) (q : Char)
    (e : TestEntry) : rowText front gaps (fun c => piece c ++ [q]) e =
      rowText front (gaps.map (q :: ·)) piece e := by
  unfold rowText weave
  congr 1
  generalize e.contents = contents
  induction contents generalizing gaps with
  | nil => rfl
  | cons c contents ih =>
    cases gaps with
    | nil => rfl
    | cons g gaps => simp [ih gaps]

/-- Without the brackets of the list. -/
theorem processText_brackets (e : TestEntry) :
    replaceAll ['}', ',', ' ', '{'] [',']
        (replaceAll [']'] [] (replaceAll ['['] [] (dumpsEntry e))) =
      rowText ['{'] plainGaps (fun c => quote (stripped c)) e := by
  have hdumps : dumpsEntry e = rowText ['[', '{'] [": \x7b\"uvm_testname\": ".toList,
      ", \"sim_args\": ".toList, ", \"tcl\": ".toList,
      ", \"timescale\": \"1ns/1ps\"\x7d\x7d]".toList] quote e := by
    simp only [dumpsEntry, dumpsObject, TestEntry.record, rowText, weave, TestEntry.contents,
      List.intercalate, List.intersperse, List.flatten_cons, List.flatten_nil, List.map_cons,
      List.map_nil, List.zip_cons_cons, List.zip_nil_right, List.flatMap_cons, List.flatMap_nil,
      List.cons_append, List.append_assoc]
    rfl
  have hquote : ∀ c, Framed (quote c) := framed_quote
  rw [hdumps,
    replaceAll_framed (by decide) hquote rfl rfl (fun c => replaceAll_quote_safe (by decide) rfl),
    replaceAll_framed (by decide) (fun c => hquote _) rfl rfl
      (fun c => replaceAll_quote_safe (by decide) rfl),
    replaceAll_framed (by decide) (fun c => hquote _) rfl rfl
      (fun c => replaceAll_quote_safe (by decide) rfl)]
  rfl

/-- With line ends behind `{` and `",`. The second pattern begins with the end of a piece. -/
theorem processText_breaks (e : TestEntry) :
    replaceAll ['"', ','] ['"', ',', '\n'] (replaceAll ['{'] ['{', '\n']
      (rowText ['{'] plainGaps (fun c => quote (stripped c)) e)) =
      rowText ['{', '\n'] [": \x7b\n\"uvm_testname\": ".toList, ",\n \"sim_args\": ".toList,
        ",\n \"tcl\": ".toList, ",\n \"timescale\": \"1ns/1ps\"\x7d\x7d".toList]
        (fun c => replaceAll ['"', ','] ['"', ',', '\n'] (opened (stripped c)) ++ ['"']) e := by
  have hapart : ∀ (a g : Str), Apart ['"', ','] a ('"' :: g) := by
    rintro a g x - y ⟨⟩ h
    rcases List.infix_cons_iff.mp h with hfirst | htail
    · exact absurd (List.cons_prefix_cons.mp hfirst).2 (by decide)
    · have hmem := htail.subset (List.mem_cons_of_mem x List.mem_cons_self)
      exact absurd hmem (by decide)
  rw [replaceAll_framed (by decide) (fun c => framed_quote _) rfl rfl
    (fun c => show _ = opened (stripped c) ++ ['"'] from replaceAll_quote (by decide) (by decide)),
    rowText_concat, replaceAll_rowText (by decide) (fun c => ⟨'"', by decide, rfl⟩),
    rowText_concat]
  · rfl
  · intro c g hg
    obtain ⟨g, -, rfl⟩ := List.mem_map.mp hg
    exact hapart _ g

theorem framed_opened (d : Str) :
    Framed (replaceAll ['"', ','] ['"', ',', '\n'] (opened d) ++ ['"']) where
  head := by
    have hhead : (replaceAll ['"', ','] ['"', ',', '\n'] (opened d)).head? = (opened d).head? :=
      head?_replaceAll_behind (by decide) ['\n'] _
    have hne : replaceAll ['"', ','] ['"', ',', '\n'] (opened d) ≠ [] :=
      mt (replaceAll_eq_nil_iff (by decide) (by decide)).mp (List.cons_ne_nil _ _)
    rw [List.head?_append_of_ne_nil _ hne, hhead]
    exact ⟨'"', by decide, rfl⟩
  last := ⟨'"', by decide, by rw [List.getLast?_concat]⟩

theorem framed_broken (d : Str) : Framed (broken d) := (framed_opened d).newline (by decide)

theorem framed_lined (d : Str) : Framed (lined d) := (framed_broken d).newline (by decide)

section Steps

variable {front : Str} {gaps : List Str} {piece : Str → Str}

theorem indent_rowText {key : Str} (hfits : Fits (quote key) front gaps)
    (hpiece : ∀ c, Framed (piece c)) (e : TestEntry) :
    indent (rowText front gaps piece e) key = rowText (indent front key)
      (gaps.map fun g => indent g key) (fun c => indent (piece c) key) e :=
  replaceAll_framed hfits hpiece rfl rfl (fun _ => rfl) e

theorem starred_rowText (hfits : Fits ['*'] front gaps) (hpiece : ∀ c, Framed (piece c))
    (e : TestEntry) : starred (rowText front gaps piece e) =
      rowText (starred front) (gaps.map starred) (fun c => starred (piece c)) e :=
  replaceAll_framed hfits hpiece rfl rfl (fun _ => rfl) e

end Steps

/-- **The text of a row is its strings, each changed on its own, in fixed gaps.** -/
theorem processText_eq (e : TestEntry) :
    processText e = rowText ['{', '\n'] rowGaps (fun c => piece (stripped c)) e := by
  have hsteps : processText e = starred (recordKeys.foldl indent
      (replaceAll ['1', 'p', 's', '"'] ['1', 'p', 's', '"', '\n']
        (replaceAll ['}', ','] ['}', ',', '\n'] (replaceAll ['"', ','] ['"', ',', '\n']
          (replaceAll ['{'] ['{', '\n'] (replaceAll ['}', ',', ' ', '{'] [',']
            (replaceAll [']'] [] (replaceAll ['['] [] (dumpsEntry e))))))))) := rfl
  rw [hsteps, processText_brackets, processText_breaks,
    replaceAll_framed (by decide) (fun c => framed_opened _) rfl rfl
      (fun c => show _ = broken (stripped c) from rfl),
    replaceAll_framed (by decide) (fun c => framed_broken _) rfl rfl
      (fun c => show _ = lined (stripped c) from rfl)]
  have hfront : starred (recordKeys.foldl indent
      (replaceAll ['1', 'p', 's', '"'] ['1', 'p', 's', '"', '\n']
        (replaceAll ['}', ','] ['}', ',', '\n'] ['{', '\n']))) = ['{', '\n'] := by decide +kernel
  have hgaps : ([": \x7b\n\"uvm_testname\": ".toList, ",\n \"sim_args\": ".toList,
      ",\n \"tcl\": ".toList, ",\n \"timescale\": \"1ns/1ps\"\x7d\x7d".toList].map fun g =>
        starred (recordKeys.foldl indent
          (replaceAll ['1', 'p', 's', '"'] ['1', 'p', 's', '"', '\n']
            (replaceAll ['}', ','] ['}', ',', '\n'] g)))) = rowGaps := by decide +kernel
  simp only [recordKeys, List.foldl_cons, List.foldl_nil] at hfront hgaps ⊢
  -- the names, one after the other
  have hnone : ∀ c, Framed (lined (stripped c)) := fun c => framed_lined _
  have huvm := fun c => (hnone c).indent "uvm_testname".toList
  have hsim := fun c => (huvm c).indent "sim_args".toList
  have htcl := fun c => (hsim c).indent "tcl".toList
  have hscale := fun c => (htcl c).indent "timescale".toList
  rw [indent_rowText (by decide) hnone, indent_rowText (by decide) huvm,
    indent_rowText (by decide) hsim, indent_rowText (by decide) htcl,
    starred_rowText (by decide) hscale, hfront]
  simp only [List.map_map, Function.comp_def, hgaps]
  simp only [piece, recordKeys, List.foldl_cons, List.foldl_nil]

end Testbench.Testplan
