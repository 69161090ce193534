import Testbench.Testplan.GroupFile
import Testbench.Testplan.Pieces

/-!
What the file of a group says about its rows.

If all strings of the group are clean the file is an object, of the rows as the replacements
leave them (`loads_rowsText`); if one is not the file is no JSON text (`loads_bad`). So the file
gives back the rows iff the replacements leave every string as it is (`groupFile_roundTrips_iff`).
-/

namespace Testbench.Testplan

open Testbench.Lib Testbench.Lib.Json

/-! ### Reading the rows -/

/-- A row as it is written. -/
def TestEntry.written (e : TestEntry) : TestEntry where
  name := starred (stripped e.name)
  group := e.group
  uvmTestname := starred (stripped e.uvmTestname)
  simArgs := starred (stripped e.simArgs)
  tcl := starred (stripped e.tcl)

/-- The member of a row. -/
def TestEntry.member (e : TestEntry) : Str × Value := (e.name, e.value)

section Read

variable {e : TestEntry} {entries : List TestEntry}

/-- The gaps between tokens. -/
theorem bodyGaps_reads :
    Reads ": \x7b\n \"uvm_testname\": ".toList
      [.colon, .lbrace, .str "uvm_testname".toList, .colon] ∧
    Reads ",\n  \"sim_args\": ".toList [.comma, .str "sim_args".toList, .colon] ∧
    Reads ",\n  \"tcl\": ".toList [.comma, .str "tcl".toList, .colon] ∧
    Reads ",\n  \"timescale\": \"1ns/1ps\"\n\x7d".toList
      [.comma, .str "timescale".toList, .colon, .str "1ns/1ps".toList, .rbrace] :=
  ⟨rfl, rfl, rfl, rfl⟩

theorem rowBody_reads (h : ∀ c ∈ e.contents, Clean (stripped c)) :
    Reads (rowBody e)
      (.str e.written.name :: .colon :: e.written.value.tokens) := by
  obtain ⟨hrecord, hargs, htcl, hscale⟩ := bodyGaps_reads
  have hline : Reads ['\n'] [] := rfl
  simp only [TestEntry.contents, List.forall_mem_cons] at h
  obtain ⟨hname, huvm, hsim, hwave, -⟩ := h
  have hread := hline.append ((piece_clean hname).append (hrecord.append ((piece_clean huvm).append
    (hargs.append ((piece_clean hsim).append (htcl.append ((piece_clean hwave).append hscale)))))))
  have htext : rowBody e = ['\n'] ++ (piece (stripped e.name) ++
      (": \x7b\n \"uvm_testname\": ".toList ++ (piece (stripped e.uvmTestname) ++
        (",\n  \"sim_args\": ".toList ++ (piece (stripped e.simArgs) ++
          (",\n  \"tcl\": ".toList ++ (piece (stripped e.tcl) ++
            ",\n  \"timescale\": \"1ns/1ps\"\n\x7d".toList))))))) := by
    rw [rowBody_eq]
    simp only [rowText, weave, TestEntry.contents, bodyGaps, List.map_cons, List.map_nil,
      List.zip_cons_cons, List.zip_nil_right, List.flatMap_cons, List.flatMap_nil,
      List.append_assoc, List.append_nil]
  rw [htext]
  exact hread

theorem run_weave_bad {front : Str} {fields : List (Str × Str)}
    (hfront : run Shape.step .out front = .out)
    (hfields : ∀ f ∈ fields, (run Shape.step .out f.1 = .out ∨ run Shape.step .out f.1 = .bad) ∧
      run Shape.step .out f.2 = .out)
    (hbad : ∃ f ∈ fields, run Shape.step .out f.1 = .bad) :
    run Shape.step .out (weave front fields) = .bad := by
  rw [weave, run_append, hfront]
  induction fields with
  | nil => simp at hbad
  | cons f fields ih =>
    obtain ⟨⟨hpiece, hgap⟩, hrest⟩ := List.forall_mem_cons.mp hfields
    rw [List.flatMap_cons, run_append, run_append]
    rcases hpiece with hpiece | hpiece
    · rw [hpiece, hgap]
      refine ih hrest ?_
      obtain ⟨f', hf', hbad⟩ := hbad
      rcases List.mem_cons.mp hf' with rfl | hmem
      · exact absurd (hpiece.symm.trans hbad) (by decide)
      · exact ⟨f', hmem, hbad⟩
    · rw [hpiece, run_bad, run_bad]

theorem run_piece (d : Str) : run Shape.step .out (piece d) = if Clean d then .out else .bad := by
  split_ifs with h
  · exact (piece_clean h).run_shape
  · exact piece_bad h

theorem rowBody_bad (h : ¬ ∀ c ∈ e.contents, Clean (stripped c)) :
    run Shape.step .out (rowBody e) = .bad := by
  push Not at h
  obtain ⟨c, hc, hbad⟩ := h
  have hgaps : ∀ g ∈ bodyGaps, run Shape.step .out g = .out := by
    obtain ⟨hrecord, hargs, htcl, hscale⟩ := bodyGaps_reads
    simp only [bodyGaps, List.forall_mem_cons, List.not_mem_nil, false_implies, implies_true,
      and_true]
    exact ⟨hrecord.run_shape, hargs.run_shape, htcl.run_shape, hscale.run_shape⟩
  have hpieces : ((e.contents.map fun c => piece (stripped c)).zip bodyGaps).map Prod.fst =
      e.contents.map fun c => piece (stripped c) :=
    List.map_fst_zip (by simp [TestEntry.contents, bodyGaps])
  rw [rowBody_eq, rowText]
  refine run_weave_bad rfl ?_ ?_
  · intro f hf
    obtain ⟨c, -, hfc⟩ := List.mem_map.mp (List.of_mem_zip hf).1
    rw [← hfc, run_piece]
    refine ⟨?_, hgaps f.2 (List.of_mem_zip hf).2⟩
    split_ifs
    · exact .inl rfl
    · exact .inr rfl
  · have hmem : piece (stripped c) ∈
        ((e.contents.map fun c => piece (stripped c)).zip bodyGaps).map Prod.fst := by
      rw [hpieces]
      exact List.mem_map_of_mem hc
    obtain ⟨f, hf, hfst⟩ := List.mem_map.mp hmem
    exact ⟨f, hf, by rw [hfst, piece_bad hbad]⟩

theorem rowsText_reads (h : ∀ e ∈ entries, ∀ c ∈ e.contents, Clean (stripped c)) :
    Reads (rowsText entries) (membersTokens (entries.map fun e => e.written.member)) := by
  have hcomma : Reads [','] [.comma] := rfl
  have hbrace : Reads ['}'] [.rbrace] := rfl
  induction entries with
  | nil => exact hbrace
  | cons e entries ih =>
    rw [List.forall_mem_cons] at h
    have hbody := rowBody_reads h.1
    cases entries with
    | nil => exact hbody.append hbrace
    | cons e' entries => exact hbody.append (hcomma.append (ih h.2))

/-- A string that is not clean breaks the file. -/
theorem rowsText_bad (h : ¬ ∀ e ∈ entries, ∀ c ∈ e.contents, Clean (stripped c)) :
    run Shape.step .out (rowsText entries) = .bad := by
  have hcomma : run Shape.step .out [','] = .out := rfl
  induction entries with
  | nil => exact absurd (by simp) h
  | cons e entries ih =>
    have hrow : run Shape.step .out (rowBody e) = .bad ∨
        run Shape.step .out (rowBody e) = .out ∧
          ¬ ∀ e ∈ entries, ∀ c ∈ e.contents, Clean (stripped c) := by
      rw [List.forall_mem_cons] at h
      by_cases he : ∀ c ∈ e.contents, Clean (stripped c)
      · exact .inr ⟨(rowBody_reads he).run_shape, fun hall => h ⟨he, hall⟩⟩
      · exact .inl (rowBody_bad he)
    cases entries with
    | nil =>
      rcases hrow with hbad | ⟨-, hnone⟩
      · rw [rowsText, run_append, hbad, run_bad]
      · exact absurd (by simp) hnone
    | cons e' entries =>
      rcases hrow with hbad | ⟨hout, hrest⟩
      · rw [rowsText, run_append, hbad, run_bad]
      · rw [rowsText, run_append, hout]
        exact ih hrest

end Read

/-! ### Strings that survive -/

/-- A string without brackets that the replacements leave a string. -/
def Plain (d : Str) : Prop := '[' ∉ d ∧ ']' ∉ d ∧ Clean d

instance (d : Str) : Decidable (Plain d) := inferInstanceAs (Decidable (_ ∧ _))

/-- A plain string, in which each `*` is written `[*]`. -/
def Survives (c : Str) : Prop := ∃ d, Plain d ∧ starred d = c

section Survive

variable {c d : Str}

theorem notMem_stripped (c : Str) : '[' ∉ stripped c ∧ ']' ∉ stripped c := by
  have hremoved : ∀ (x : Char) (l : Str), x ∉ replaceAll [x] [] l := by
    intro x l hx
    rw [replaceAll_singleton, List.mem_flatMap] at hx
    obtain ⟨y, -, hy⟩ := hx
    split_ifs at hy with heq
    · simp at hy
    · exact heq (List.mem_singleton.mp hy).symm
  have hkept : ∀ (x : Char) (pat rep l : Str), pat ≠ [] → x ∉ rep → x ∉ l →
      x ∉ replaceAll pat rep l := fun x pat rep l hpat hrep hl hx =>
    (mem_replaceAll hpat hx).elim hl hrep
  exact ⟨hkept _ _ _ _ (by decide) (by decide) (hkept _ _ _ _ (by decide) (by decide)
    (hremoved '[' c)), hkept _ _ _ _ (by decide) (by decide) (hremoved ']' _)⟩

/-- The brackets of the last replacement are those that the first ones take away. -/
theorem stripped_starred (h : Plain d) : stripped (starred d) = d := by
  obtain ⟨hopen, hclose, hbrace, -⟩ := h
  have hbrackets : replaceAll [']'] [] (replaceAll ['['] [] (starred d)) = d := by
    rw [starred, replaceAll_singleton, replaceAll_singleton, replaceAll_singleton,
      List.flatMap_assoc, List.flatMap_assoc]
    calc d.flatMap _ = d.flatMap fun y => [y] := by
          refine List.flatMap_congr fun y hy => ?_
          have hy₁ : y ≠ '[' := fun h => hopen (h ▸ hy)
          have hy₂ : y ≠ ']' := fun h => hclose (h ▸ hy)
          by_cases hstar : y = '*'
          · rw [hstar]
            decide
          · simp [hstar, hy₁, hy₂]
      _ = d := List.flatMap_singleton' d
  rw [stripped, hbrackets]
  refine replaceAll_of_not_infix fun hocc => hbrace (hocc.subset ?_)
  decide

theorem survives_iff : Survives c ↔ Clean (stripped c) ∧ starred (stripped c) = c := by
  constructor
  · rintro ⟨d, hplain, rfl⟩
    rw [stripped_starred hplain]
    exact ⟨hplain.2.2, rfl⟩
  · rintro ⟨hclean, hsame⟩
    obtain ⟨hopen, hclose⟩ := notMem_stripped c
    exact ⟨stripped c, ⟨hopen, hclose, hclean⟩, hsame⟩

instance (c : Str) : Decidable (Survives c) := decidable_of_iff _ survives_iff.symm

/-- Writing a second time changes nothing more. -/
theorem starred_stripped_idem (h : Clean (stripped c)) :
    starred (stripped (starred (stripped c))) = starred (stripped c) := by
  obtain ⟨hopen, hclose⟩ := notMem_stripped c
  rw [stripped_starred ⟨hopen, hclose, h⟩]

/-- **Without a star a string survives iff it is plain.** -/
theorem survives_iff_plain (h : '*' ∉ c) : Survives c ↔ Plain c := by
  have hsame : ∀ d, '*' ∉ d → starred d = d := fun d hd =>
    replaceAll_of_not_infix (by rwa [List.singleton_infix_iff])
  constructor
  · rintro ⟨d, hplain, rfl⟩
    rwa [hsame d]
    intro hstar
    refine h ?_
    rw [starred, replaceAll_singleton]
    exact List.mem_flatMap.mpr ⟨'*', hstar, by decide⟩
  · exact fun hplain => ⟨c, hplain, hsame c h⟩

end Survive

/-! ### The files of a test plan -/

section Files

variable {entries : List TestEntry} {group : Str}

theorem loads_rowsText (h : ∀ e ∈ entries, ∀ c ∈ e.contents, Clean (stripped c)) :
    loads ('{' :: rowsText entries) = some (.obj (entries.map fun e => e.written.member)) := by
  have hbrace : Reads ['{'] [.lbrace] := rfl
  exact loads_eq_some (hbrace.append (rowsText_reads h))

theorem loads_bad (h : ¬ ∀ e ∈ entries, ∀ c ∈ e.contents, Clean (stripped c)) :
    loads ('{' :: rowsText entries) = none := by
  refine loads_eq_none ?_
  rw [run_cons]
  exact rowsText_bad h

/-- A row is written as it is iff the replacements leave its strings as they are. -/
theorem written_eq_iff (e : TestEntry) :
    e.written = e ↔ ∀ c ∈ e.contents, starred (stripped c) = c := by
  obtain ⟨name, group, uvmTestname, simArgs, tcl⟩ := e
  simp [TestEntry.written, TestEntry.contents]

theorem member_inj {e e' : TestEntry} (h : e.member = e'.member) : e.contents = e'.contents := by
  simp only [TestEntry.member, TestEntry.value, TestEntry.record, List.map_cons, List.map_nil,
    Prod.mk.injEq, Value.obj.injEq, List.cons.injEq, Value.str.injEq, true_and, and_true] at h
  obtain ⟨hname, huvm, hsim, hwave⟩ := h
  rw [TestEntry.contents, TestEntry.contents, hname, huvm, hsim, hwave]

/-- **The file of a group gives back its rows iff all their strings survive.** -/
theorem groupFile_roundTrips_iff (files : Files) (hne : groupEntries entries group ≠ [])
    (hnames : ((groupEntries entries group).map (·.name)).Nodup) :
    RoundTrips (excelToJsonGroup files entries (groupPath group)) (groupEntries entries group) ↔
      ∀ e ∈ groupEntries entries group, ∀ c ∈ e.contents, Survives c := by
  rw [excelToJsonGroup_file files hne]
  generalize groupEntries entries group = rows at hnames
  constructor
  · rintro ⟨text, members, htext, hloads, hget⟩ e he c hc
    obtain rfl := Option.some.inj htext
    rw [String.toList_ofList] at hloads
    have hclean : ∀ e ∈ rows, ∀ c ∈ e.contents, Clean (stripped c) := by
      by_contra hbad
      rw [loads_bad hbad] at hloads
      exact Option.some_ne_none _ hloads.symm
    rw [loads_rowsText hclean] at hloads
    obtain rfl := Value.obj.inj (Option.some.inj hloads)
    have hown : get (rows.map fun e => (e.name, e.value)) e.name = some e.value := by
      refine get_of_mem ?_ (List.mem_map_of_mem he)
      simpa [Function.comp_def] using hnames
    -- the row that is read under the name is written as this one
    obtain ⟨e', he', heq⟩ := List.mem_map.mp (mem_of_get ((hget e.name).trans hown))
    have hcontents : e'.written.contents = e.contents := member_inj heq
    rw [← hcontents] at hc
    obtain ⟨c', hc', rfl⟩ : ∃ c' ∈ e'.contents, c = starred (stripped c') := by
      simpa [TestEntry.contents, TestEntry.written] using hc
    refine survives_iff.mpr ⟨?_, starred_stripped_idem (hclean e' he' c' hc')⟩
    exact hclean e he _ (hcontents ▸ hc)
  · intro h
    have hclean : ∀ e ∈ rows, ∀ c ∈ e.contents, Clean (stripped c) := fun e he c hc =>
      (survives_iff.mp (h e he c hc)).1
    have hwritten : (rows.map fun e => e.written.member) = rows.map fun e => (e.name, e.value) := by
      refine List.map_congr_left fun e he => ?_
      rw [(written_eq_iff e).mpr fun c hc => (survives_iff.mp (h e he c hc)).2]
      rfl
    refine ⟨_, _, rfl, ?_, fun key => rfl⟩
    rw [String.toList_ofList, loads_rowsText hclean, hwritten]

end Files

/-! ### The rows of a sheet -/

/-- The rows that are tests, with their names. -/
def tests : List SheetRow → List (Str × SheetRow)
  | [] => []
  | row :: rows =>
      match row.testname with
      | none => []
      | some name => if "_test".toList <:+: name then (name, row) :: tests rows else tests rows

section Sheet

variable (flow : Flow)

/-- Each test has its entry, and each entry is of a test. -/
theorem forall_readExcel {P : TestEntry → Prop} {rows : List SheetRow} {entries : List TestEntry}
    (h : flow.readExcel rows = some entries) :
    (∀ e ∈ entries, P e) ↔ ∀ t ∈ tests rows, ∀ e ∈ flow.entry t.1 t.2, P e := by
  induction rows generalizing entries with
  | nil =>
    obtain rfl := Option.some.inj h
    simp [tests]
  | cons row rows ih =>
    rw [Flow.readExcel] at h
    rw [tests]
    cases hname : row.testname with
    | none =>
      rw [hname] at h
      obtain rfl := Option.some.inj h
      simp
    | some name =>
      simp only [hname] at h ⊢
      split_ifs at h ⊢ with htest
      · obtain ⟨e, he, hrest⟩ := Option.bind_eq_some_iff.mp h
        obtain ⟨rest, hread, rfl⟩ := Option.map_eq_some_iff.mp hrest
        rw [List.forall_mem_cons, List.forall_mem_cons, ih hread]
        refine and_congr_left fun _ => ?_
        rw [he]
        simp
      · exact ih h

end Sheet

/-- The flow with its defaults, and numbers as they are written in ASCII. -/
def defaultFlow : Flow where
  isdigit text := text ≠ [] && text.all Char.isDigit
  int base text := some (text.foldl (fun n c => base * n + (hexVal c).getD 0) 0)
  sqr := "uvm_test_top.env.wxx_vseqr".toList
  wave := "$VERIFY_HOME/tcl/wave.tcl".toList

/-- Two groups. -/
def planRows : List SheetRow :=
  [⟨some "name".toList, "group".toList, "args".toList, "uvm".toList⟩,
    ⟨some "smoke_test".toList, "smoke".toList, "cfg.len=8".toList, "smoke_test".toList⟩,
    ⟨some "fd_test".toList, "rate".toList, "cfg.brs=1\n cfg.mode=fast".toList,
      "rate_test".toList⟩,
    ⟨some "cc_test".toList, "rate".toList, "cfg.id='h1f".toList, "rate_test".toList⟩]

def planEntries : List TestEntry := (defaultFlow.readExcel planRows).getD []

/-- An element of an array is set. -/
def elementRows : List SheetRow :=
  [⟨some "rate_test".toList, "rate".toList, "cfg.rate[0]=1".toList, "rate_test".toList⟩]

def elementEntry : TestEntry where
  name := "rate_test".toList
  group := "rate".toList
  uvmTestname := "rate_test".toList
  simArgs := "+uvm_set_config_int=\"uvm_test_top.env.wxx_vseqr,cfg.rate[0],1\"".toList
  tcl := "$VERIFY_HOME/tcl/wave.tcl".toList

end Testbench.Testplan
