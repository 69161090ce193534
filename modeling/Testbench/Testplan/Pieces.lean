import Testbench.Testplan.RowText

/-!
What the replacements of a row do to one string (`piece`).

A clean string keeps its place: the piece is the string with blanks around it, in which each `*`
is `[*]` (`piece_clean`). Any other string is broken by a line end put into it, or by a blank
put behind a backslash, and no later replacement repairs it (`piece_bad`).
-/

namespace Testbench.Testplan

open Testbench.Lib Testbench.Lib.Json

/-- A string that the replacements leave a string: no `{`, no comma at its front, behind a
quotation mark or behind `}`, and no name of the record behind a quotation mark at its end. -/
def Clean (d : Str) : Prop :=
  '{' ∉ d ∧ ¬ ['"', ','] <:+: '"' :: d ∧ ¬ ['}', ','] <:+: d ∧
    ∀ key ∈ recordKeys, ¬ '"' :: key <:+ d

instance (d : Str) : Decidable (Clean d) := inferInstanceAs (Decidable (_ ∧ _))

/-- A string with blanks before it and line ends behind it. -/
def Laid (d a : Str) : Prop :=
  ∃ lead trail : Str, (∀ c ∈ lead, c = ' ') ∧ (∀ c ∈ trail, c = '\n') ∧
    a = lead ++ quote d ++ trail

section Stages

variable {a d key : Str}

theorem opened_eq (h : '{' ∉ d) : opened d = '"' :: escape d := by
  rw [opened, replaceAll_of_not_infix]
  rw [infix_escape (by decide), List.singleton_infix_iff]
  exact h

theorem broken_eq (hopen : '{' ∉ d) (hcomma : ¬ ['"', ','] <:+: '"' :: d) :
    broken d = '"' :: replaceAll ['}', ','] ['}', ',', '\n'] (escape d) ++ ['"'] := by
  have hsame : replaceAll ['"', ','] ['"', ',', '\n'] ('"' :: escape d) = '"' :: escape d :=
    replaceAll_of_not_infix (by rwa [infix_quote_cons (by decide)])
  rw [broken, opened_eq hopen, hsame, ← replaceAll_quote (by decide) (by decide), quote]

theorem broken_eq_quote (hopen : '{' ∉ d) (hcomma : ¬ ['"', ','] <:+: '"' :: d)
    (hbrace : ¬ ['}', ','] <:+: d) : broken d = quote d := by
  rw [broken_eq hopen hcomma, replaceAll_of_not_infix, quote]
  rwa [infix_escape (by decide)]

/-! ### Line ends in a string -/

/-- An error before the end of the string is one of the string. -/
theorem run_broken_bad (h : run Shape.step .out
    (replaceAll ['"', ','] ['"', ',', '\n'] (opened d)) = .bad) :
    run Shape.step .out (broken d) = .bad := by
  refine run_inserts_bad (inserts_newline (by decide) _) ?_
  rw [run_append, h, run_bad]

theorem run_broken_of_brace (h : '{' ∈ d) : run Shape.step .out (broken d) = .bad := by
  refine run_broken_bad (run_inserts_bad (inserts_newline (by decide) _) ?_)
  rw [opened, run_cons]
  refine run_replaceAll_newline (by decide) ?_ (inside_escape d).1
  rw [infix_escape (by decide), List.singleton_infix_iff]
  exact h

theorem run_broken_of_comma (hopen : '{' ∉ d) (h : ['"', ','] <:+: '"' :: d) :
    run Shape.step .out (broken d) = .bad := by
  refine run_broken_bad ?_
  rw [opened_eq hopen]
  exact run_replaceAll_newline (by decide) ((infix_quote_cons (by decide)).mpr h) (inside_quote d)

theorem run_broken_of_braceComma (hopen : '{' ∉ d) (hcomma : ¬ ['"', ','] <:+: '"' :: d)
    (h : ['}', ','] <:+: d) : run Shape.step .out (broken d) = .bad := by
  have hbad : run Shape.step .str (replaceAll ['}', ','] ['}', ',', '\n'] (escape d)) = .bad :=
    run_replaceAll_newline (by decide) ((infix_escape (by decide)).mpr h) (inside_escape d).1
  have hquote : Shape.out.step '"' = .str := rfl
  rw [broken_eq hopen hcomma, List.cons_append, run_cons, hquote, run_append, hbad, run_bad]

/-! ### Blanks around a string -/

theorem laid_lined (h : broken d = quote d) : Laid d (lined d) := by
  rw [lined, h]
  by_cases hend : ['1', 'p', 's'] ++ ['"'] <:+ quote d
  · obtain ⟨front, hfront⟩ := hend
    have hbehind : replaceAll ['1', 'p', 's', '"'] ['1', 'p', 's', '"', '\n'] (quote d) =
        front ++ ['1', 'p', 's', '"', '\n'] :=
      replaceAll_quote_end (by decide) (by decide) hfront.symm
    exact ⟨[], ['\n'], by simp, by simp, by rw [hbehind, ← hfront]; simp⟩
  · have hsame : replaceAll ['1', 'p', 's', '"'] ['1', 'p', 's', '"', '\n'] (quote d) = quote d :=
      replaceAll_quote_eq_self (by decide) (by decide) hend
    exact ⟨[], [], by simp, by simp, by simp [hsame]⟩

/-- A name of the record is its own text. -/
theorem name_plain (hkey : key ∈ recordKeys) : '\\' ∉ escape key ∧ '\n' ∉ quote key := by
  have hall : ∀ key ∈ recordKeys, '\\' ∉ escape key ∧ '\n' ∉ quote key := by decide
  exact hall key hkey

/-- Blanks and line ends around a string are out of reach. -/
theorem indent_laid {lead trail : Str} (hkey : key ∈ recordKeys) (hlead : ∀ c ∈ lead, c = ' ')
    (htrail : ∀ c ∈ trail, c = '\n') :
    indent (lead ++ quote d ++ trail) key = lead ++ indent (quote d) key ++ trail := by
  have hfront : '"' ∉ lead := fun h => absurd (hlead _ h) (by decide)
  have hback : '"' ∉ trail := fun h => absurd (htrail _ h) (by decide)
  have hskip : replaceAll (quote key) (' ' :: quote key) (lead ++ (quote d ++ trail)) =
      lead ++ replaceAll (quote key) (' ' :: quote key) (quote d ++ trail) :=
    replaceAll_append_of_notMem hfront
  have hsame : replaceAll (quote key) (' ' :: quote key) trail = trail :=
    replaceAll_of_not_infix fun h => hback (h.subset List.mem_cons_self)
  have hapart : Apart (quote key) (quote d) trail := by
    rintro x - y hy h
    rw [htrail y (List.mem_of_mem_head? hy)] at h
    exact (name_plain hkey).2 (h.subset (List.mem_cons_of_mem _ List.mem_cons_self))
  have hne : quote key ≠ [] := List.cons_ne_nil _ _
  rw [indent, List.append_assoc, hskip, replaceAll_append hne hapart, hsame, ← List.append_assoc,
    indent]

theorem Laid.indent (h : Laid d a) (hkey : key ∈ recordKeys) (hname : ¬ '"' :: key <:+ d) :
    Laid d (indent a key) := by
  obtain ⟨lead, trail, hlead, htrail, rfl⟩ := h
  rw [indent_laid hkey hlead htrail]
  rcases replaceAll_quote_name (name_plain hkey).1 hname with heq | heq
  · exact ⟨lead, trail, hlead, htrail, by rw [Testplan.indent, heq]⟩
  · refine ⟨lead ++ [' '], trail, ?_, htrail, by rw [Testplan.indent, heq]; simp⟩
    intro c hc
    rw [List.mem_append, List.mem_singleton] at hc
    exact hc.elim (hlead c) id

theorem Laid.run_indent (h : Laid d a) (hkey : key ∈ recordKeys) (hname : '"' :: key <:+ d) :
    run Shape.step .out (Testplan.indent a key) = .bad := by
  obtain ⟨lead, trail, hlead, htrail, rfl⟩ := h
  have hblank : run Shape.step .out lead = .out :=
    (reads_blank fun c hc => .inl (hlead c hc)).run_shape
  rw [indent_laid hkey hlead htrail, run_append, run_append, hblank, Testplan.indent,
    run_replaceAll_quote_name (name_plain hkey).1 hname, run_bad]

theorem inserts_indent (a key : Str) : Inserts a (indent a key) :=
  inserts_replaceAll (List.cons_ne_nil _ _) (.insert (by decide) (.refl _)) a

theorem run_foldl_indent_bad {keys : List Str} (h : run Shape.step .out a = .bad) :
    run Shape.step .out (keys.foldl indent a) = .bad := by
  induction keys generalizing a with
  | nil => exact h
  | cons key keys ih => exact ih (run_inserts_bad (inserts_indent a key) h)

/-- The blanks before all names: of the names that are at the end of the string the first one
that is replaced breaks it. -/
theorem Laid.foldl_indent {keys : List Str} (h : Laid d a) (hkeys : keys ⊆ recordKeys) :
    if ∀ key ∈ keys, ¬ '"' :: key <:+ d then Laid d (keys.foldl Testplan.indent a)
    else run Shape.step .out (keys.foldl Testplan.indent a) = .bad := by
  induction keys generalizing a with
  | nil => simpa using h
  | cons key keys ih =>
    obtain ⟨hkey, hkeys⟩ := List.cons_subset.mp hkeys
    rw [List.foldl_cons]
    by_cases hname : '"' :: key <:+ d
    · rw [if_neg fun hall => hall key List.mem_cons_self hname]
      exact run_foldl_indent_bad (h.run_indent hkey hname)
    · simp only [List.forall_mem_cons, hname, not_false_eq_true, true_and]
      exact ih (h.indent hkey hname) hkeys

end Stages

theorem inserts_starred (a : Str) : Inserts a (starred a) :=
  inserts_replaceAll (by decide) (.insert (by decide) (.keep _ (.insert (by decide) .nil))) a

/-- Once a string is broken it stays so. -/
theorem run_piece_bad {d : Str} (h : run Shape.step .out (broken d) = .bad) :
    run Shape.step .out (piece d) = .bad :=
  run_inserts_bad (inserts_starred _)
    (run_foldl_indent_bad (run_inserts_bad (inserts_newline (by decide) _) h))

theorem starred_laid {lead trail : Str} (d : Str) (hlead : ∀ c ∈ lead, c = ' ')
    (htrail : ∀ c ∈ trail, c = '\n') :
    starred (lead ++ quote d ++ trail) = lead ++ quote (starred d) ++ trail := by
  have hfront : '*' ∉ lead := fun h => absurd (hlead _ h) (by decide)
  have hback : '*' ∉ trail := fun h => absurd (htrail _ h) (by decide)
  have hsame : replaceAll ['*'] ['[', '*', ']'] trail = trail :=
    replaceAll_of_not_infix (by rwa [List.singleton_infix_iff])
  have hapart : Apart ['*'] (quote d) trail := by
    rintro x - y - h
    exact absurd h.length_le (by simp)
  rw [starred, List.append_assoc, replaceAll_append_of_notMem hfront,
    replaceAll_append (by decide) hapart, hsame, ← List.append_assoc,
    replaceAll_quote_safe (by decide) rfl, starred]

/-- **A clean string is read where it was.** -/
theorem piece_clean {d : Str} (h : Clean d) : Reads (piece d) [.str (starred d)] := by
  obtain ⟨hopen, hcomma, hbrace, hname⟩ := h
  have hlaid := (laid_lined (broken_eq_quote hopen hcomma hbrace)).foldl_indent
    (List.Subset.refl recordKeys)
  rw [if_pos hname] at hlaid
  obtain ⟨lead, trail, hlead, htrail, heq⟩ := hlaid
  rw [piece, heq, starred_laid d hlead htrail]
  have hfront := reads_blank fun c hc => .inl (hlead c hc)
  have hback := reads_blank fun c hc => .inr (htrail c hc)
  exact (hfront.append (reads_quote (starred d))).append hback

/-- **Any other string is an error.** -/
theorem piece_bad {d : Str} (h : ¬ Clean d) : run Shape.step .out (piece d) = .bad := by
  by_cases hopen : '{' ∈ d
  · exact run_piece_bad (run_broken_of_brace hopen)
  by_cases hcomma : ['"', ','] <:+: '"' :: d
  · exact run_piece_bad (run_broken_of_comma hopen hcomma)
  by_cases hbrace : ['}', ','] <:+: d
  · exact run_piece_bad (run_broken_of_braceComma hopen hcomma hbrace)
  -- what is left is a name at the end
  have hlaid := (laid_lined (broken_eq_quote hopen hcomma hbrace)).foldl_indent
    (List.Subset.refl recordKeys)
  rw [if_neg fun hname => h ⟨hopen, hcomma, hbrace, hname⟩] at hlaid
  exact run_inserts_bad (inserts_starred _) hlaid

end Testbench.Testplan
