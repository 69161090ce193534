import Testbench.Testplan.RowText

/-!
What `excel_to_json_group` leaves in the file of a group: the texts of its rows between one pair
of braces, with commas between them (`excelToJsonGroup_file`).

Each pass goes over the rows, not over the files. But for the texts of the rows, what it makes of
a file the second time is what it made of it the first time.
-/

namespace Testbench.Testplan

open Testbench.Lib Testbench.Lib.Json

/-! ### The text of a group -/

/-- The text of a row without its braces. -/
def rowBody (e : TestEntry) : Str := (processText e).tail.dropLast

/-- The texts of some rows, up to the end of their object. -/
def rowsText : List TestEntry → Str
  | [] => ['}']
  | [e] => rowBody e ++ ['}']
  | e :: e' :: entries => rowBody e ++ ',' :: rowsText (e' :: entries)

/-- What is between the strings of a row without its braces. -/
def bodyGaps : List Str :=
  [": \x7b\n \"uvm_testname\": ".toList, ",\n  \"sim_args\": ".toList, ",\n  \"tcl\": ".toList,
    ",\n  \"timescale\": \"1ns/1ps\"\n\x7d".toList]

theorem rowBody_eq (e : TestEntry) :
    rowBody e = rowText ['\n'] bodyGaps (fun c => piece (stripped c)) e := by
  have hbraces : processText e =
      '{' :: rowText ['\n'] bodyGaps (fun c => piece (stripped c)) e ++ ['}'] := by
    have hlast : ",\n  \"timescale\": \"1ns/1ps\"\n\x7d\x7d".toList =
        ",\n  \"timescale\": \"1ns/1ps\"\n\x7d".toList ++ ['}'] := rfl
    rw [processText_eq]
    simp only [rowText, weave, TestEntry.contents, rowGaps, bodyGaps, hlast, List.map_cons,
      List.map_nil, List.zip_cons_cons, List.zip_nil_right, List.flatMap_cons, List.flatMap_nil,
      List.cons_append, List.nil_append, List.append_assoc]
  rw [rowBody, hbraces, List.cons_append, List.tail_cons, List.dropLast_concat]

theorem suffix_weave (front : Str) (fields : List (Str × Str)) (f : Str × Str) :
    f.2 <:+ weave front (fields ++ [f]) :=
  ⟨front ++ (fields.flatMap fun f => f.1 ++ f.2) ++ f.1, by simp [weave]⟩

/-- A row's text ends with a line of its own. -/
theorem exists_rowBody_eq (e : TestEntry) : ∃ front, rowBody e = front ++ ['\n', '}'] := by
  have hline : ['\n', '}'] <:+ ",\n  \"timescale\": \"1ns/1ps\"\n\x7d".toList := by decide
  have hgap : ",\n  \"timescale\": \"1ns/1ps\"\n\x7d".toList <:+ rowBody e := by
    rw [rowBody_eq]
    exact suffix_weave _ ((([e.name, e.uvmTestname, e.simArgs].map fun c =>
      piece (stripped c))).zip bodyGaps.dropLast) (piece (stripped e.tcl), _)
  obtain ⟨front, hfront⟩ := hline.trans hgap
  exact ⟨front, hfront.symm⟩

theorem rowsText_concat (entries : List TestEntry) (e : TestEntry) :
    rowsText (entries ++ [e]) =
      (entries.flatMap fun e => rowBody e ++ [',']) ++ rowBody e ++ ['}'] := by
  induction entries with
  | nil => simp only [List.nil_append, rowsText, List.flatMap_nil]
  | cons e' entries ih =>
    obtain ⟨next, rest, hrest⟩ := List.exists_cons_of_ne_nil
      (List.append_ne_nil_of_right_ne_nil entries (List.cons_ne_nil e []))
    rw [List.cons_append, hrest, rowsText, ← hrest, ih]
    simp

/-! ### The passes -/

section Passes

variable {α β : Type*}

/-- A pass that does nothing the second time. -/
theorem foldl_fixed (f : β → β) {b : β} {l : List α} (hne : l ≠ []) (h : f (f b) = f b) :
    l.foldl (fun b _ => f b) b = f b := by
  have hfixed : ∀ l : List α, l.foldl (fun b _ => f b) (f b) = f b := by
    intro l
    induction l with
    | nil => rfl
    | cons a l ih => rw [List.foldl_cons, h, ih]
  cases l with
  | nil => exact absurd rfl hne
  | cons a l => exact hfixed l

theorem groupPath_inj {group group' : Str} :
    groupPath group = groupPath group' ↔ group = group' := by
  rw [groupPath, groupPath, String.append_left_inj, String.ofList_inj]

/-- A pass makes of a file what its own rows make of it. -/
theorem overRows_apply (f : TestEntry → Option String → Option String) (files : Files)
    (entries : List TestEntry) (group : Str) :
    overRows f files entries (groupPath group) =
      (groupEntries entries group).foldl (fun file e => f e file) (files (groupPath group)) := by
  unfold overRows groupEntries
  induction entries generalizing files with
  | nil => rfl
  | cons e entries ih =>
    rw [List.foldl_cons, ih]
    by_cases hgroup : e.group = group
    · rw [List.filter_cons_of_pos (by simpa using hgroup), List.foldl_cons, hgroup,
        Function.update_self]
    · rw [List.filter_cons_of_neg (by simpa using hgroup), Function.update_of_ne]
      rw [ne_eq, groupPath_inj]
      exact Ne.symm hgroup

theorem foldl_addContent (entries : List TestEntry) (content : String) :
    entries.foldl (fun file e => some (addContent (processText e) (file.getD ""))) (some content) =
      some (content ++ .ofList (entries.flatMap fun e => rowBody e ++ [','])) := by
  induction entries generalizing content with
  | nil => simp
  | cons e entries ih =>
    rw [List.foldl_cons, Option.getD_some, ih, addContent, ← rowBody, List.flatMap_cons,
      String.append_assoc, ← String.ofList_append]

variable {text : Str}

/-- The closing brace is put behind a last line that lacks it. -/
theorem addClosing_line :
    addClosing (.ofList (text ++ ['\n', '}', ','])) = .ofList (text ++ ['\n', '}', ',', '}']) := by
  obtain ⟨lines, -, -, hread⟩ := exists_readlines text
  have hlast : (some (String.ofList ['}', ','])).getD "" = "\x7d," := rfl
  rw [addClosing, hread ['}', ','] (by decide) (by decide), List.getLast?_concat, if_pos hlast,
    show "\x7d" = String.ofList ['}'] from rfl, ← String.ofList_append, List.append_assoc]
  rfl

theorem addClosing_closed :
    addClosing (.ofList (text ++ ['\n', '}', ',', '}'])) =
      .ofList (text ++ ['\n', '}', ',', '}']) := by
  obtain ⟨lines, -, -, hread⟩ := exists_readlines text
  rw [addClosing, hread ['}', ',', '}'] (by decide) (by decide), List.getLast?_concat, if_neg]
  decide

/-- Only the last line can be a line that is patched. -/
theorem patchClosing_line {last : Str} (hne : last ≠ []) (hlast : '\n' ∉ last) :
    patchClosing (.ofList (text ++ '\n' :: last)) = .ofList (text ++ ['\n']) ++
      if String.ofList last = "\x7d,\x7d" then "\x7d\x7d" else .ofList last := by
  obtain ⟨lines, hends, hjoin, hread⟩ := exists_readlines text
  have hsame : lines.map (fun line => if line = "\x7d,\x7d" then "\x7d\x7d" else line) = lines := by
    refine (List.map_congr_left fun line hline => if_neg ?_).trans (List.map_id lines)
    rintro rfl
    exact absurd (hends _ hline) (by decide)
  rw [patchClosing, hread last hne hlast, List.map_append, hsame, String.join_append, hjoin]
  simp

theorem patchClosing_open :
    patchClosing (.ofList (text ++ ['\n', '}', ',', '}'])) =
      .ofList (text ++ ['\n', '}', '}']) := by
  have hpatch : String.ofList ['}', ',', '}'] = "\x7d,\x7d" := rfl
  rw [patchClosing_line (by decide) (by decide), if_pos hpatch,
    show "\x7d\x7d" = String.ofList ['}', '}'] from rfl, ← String.ofList_append, List.append_assoc]
  rfl

theorem patchClosing_patched :
    patchClosing (.ofList (text ++ ['\n', '}', '}'])) = .ofList (text ++ ['\n', '}', '}']) := by
  rw [patchClosing_line (by decide) (by decide), if_neg (by decide), ← String.ofList_append,
    List.append_assoc]
  rfl

end Passes

/-- **The file of a group is the object of its rows.** -/
theorem excelToJsonGroup_file (files : Files) {entries : List TestEntry} {group : Str}
    (hne : groupEntries entries group ≠ []) :
    excelToJsonGroup files entries (groupPath group) =
      some (.ofList ('{' :: rowsText (groupEntries entries group))) := by
  unfold excelToJsonGroup
  rw [overRows_apply, overRows_apply, overRows_apply, overRows_apply, overRows_apply]
  generalize groupEntries entries group = rows at hne ⊢
  generalize files (groupPath group) = file
  have hremoved : rows.foldl (fun _ _ => none) file = none :=
    foldl_fixed (fun _ : Option String => none) hne rfl
  have hopened : rows.foldl (fun file _ => some (addOpening (file.getD ""))) none =
      some "\x7b" :=
    foldl_fixed (fun file => some (addOpening (file.getD ""))) hne (by decide)
  rw [hremoved, hopened, foldl_addContent]
  obtain ⟨front, e, rfl⟩ : ∃ front e, rows = front ++ [e] :=
    ⟨_, _, (List.dropLast_concat_getLast hne).symm⟩
  obtain ⟨body, hbody⟩ := exists_rowBody_eq e
  -- the file up to its last line
  obtain ⟨text, htext⟩ : ∃ text : Str,
      text = '{' :: (front.flatMap fun e => rowBody e ++ [',']) ++ body := ⟨_, rfl⟩
  have hcontent : "\x7b" ++ String.ofList ((front ++ [e]).flatMap fun e => rowBody e ++ [',']) =
      .ofList (text ++ ['\n', '}', ',']) := by
    rw [show "\x7b" = String.ofList ['{'] from rfl, ← String.ofList_append, htext]
    simp [hbody]
  have hrows : '{' :: rowsText (front ++ [e]) = text ++ ['\n', '}', '}'] := by
    rw [rowsText_concat, hbody, htext]
    simp
  have hclosed : (front ++ [e]).foldl (fun file _ => some (addClosing (file.getD "")))
      (some (.ofList (text ++ ['\n', '}', ',']))) =
        some (.ofList (text ++ ['\n', '}', ',', '}'])) := by
    have h := foldl_fixed (fun file => some (addClosing (file.getD "")))
      (b := some (.ofList (text ++ ['\n', '}', ',']))) hne
    simp only [Option.getD_some, addClosing_line, addClosing_closed, forall_const] at h
    exact h
  have hpatched : (front ++ [e]).foldl (fun file _ => some (patchClosing (file.getD "")))
      (some (.ofList (text ++ ['\n', '}', ',', '}']))) =
        some (.ofList (text ++ ['\n', '}', '}'])) := by
    have h := foldl_fixed (fun file => some (patchClosing (file.getD "")))
      (b := some (.ofList (text ++ ['\n', '}', ',', '}']))) hne
    simp only [Option.getD_some, patchClosing_open, patchClosing_patched, forall_const] at h
    exact h
  rw [hcontent, hclosed, hpatched, hrows]

end Testbench.Testplan
