import Testbench.Run.KFile

/-!
The K-files of a compilation, with `run/xrun` and with `run/xrun_lib`.

xrun asks for `compile.opt` under a name that `WriteCfgFile` does not know, and its
`GetDefineInfo` returns nothing, so it expands each K-file as if no macro were defined. The
library reads the macros back from the options.
-/

namespace Testbench.Run

open Testbench.Lib

/-! ### Options -/

/-- The name `[+]define[+]\s*(\S+)` finds at the start of a text, and how long the match is. -/
def matchDefine (text : List Char) : Option (List Char × Nat) :=
  match text.dropPrefix? "+define+".toList with
  | none => none
  | some rest =>
      let blanks := rest.takeWhile isSpace
      let name := (rest.dropWhile isSpace).takeWhile fun c => !isSpace c
      if name = [] then none else some (name, "+define+".length + blanks.length + name.length)

/-- The names in a text, one match after the other: those characters are still of the last. -/
def findDefines : Nat → List Char → List String
  | _, [] => []
  | skip + 1, _ :: rest => findDefines skip rest
  | 0, c :: rest =>
      match matchDefine (c :: rest) with
      | none => findDefines 0 rest
      | some (name, length) => .ofList name :: findDefines (length - 1) rest

/-- `_extract_defines`, of a file that exists. -/
def extractDefines (content : String) : Finset String := (findDefines 0 content.toList).toFinset

/-! ### The old flow -/

/-- The option files of a directory. -/
structure CompileDir where
  compileOpt : Option String
  simulationOpt : Option String

def writeCfgFile (baseCompileOpt baseSimulationOpt : List String) (compSim : String)
    (dir : CompileDir) : CompileDir :=
  let dir :=
    if compSim = "comp" then { dir with compileOpt := some (unlines baseCompileOpt) } else dir
  if compSim = "sim" then { dir with simulationOpt := some (unlines baseSimulationOpt) } else dir

/-- `GetDefineInfo` looks for the macros of the file, and has no `return`. -/
def getDefineInfo (_cfgFile : Option String) : Option (List String) := none

/-- `gen_kf_ff_info`, of a K-file that exists. Its loop is the one of `_expand`. -/
def genKfFfInfo (lines : List String) (cfgFile : Option String) : String :=
  let defineSet := ((getDefineInfo cfgFile).getD []).toFinset
  String.join (((expandLines defineSet lines).result.filter (· ≠ "")).map (lstrip isSpace))

/-- What `RunCompCmd` makes of a K-file, in an empty directory. -/
def runCompCmd (baseCompileOpt baseSimulationOpt : List String) (kfile : String) : String :=
  let dir := writeCfgFile baseCompileOpt baseSimulationOpt "Comp"
    { compileOpt := none, simulationOpt := none }
  genKfFfInfo (readlines kfile) dir.compileOpt

/-! ### The new flow -/

/-- `KFileExpander._expand` with the options of a file. -/
def expand (lines : List String) (cfgFile : String) : String :=
  String.join (written (extractDefines cfgFile) lines)

/-- What `Compiler.run` makes of a K-file. -/
def compilerRun (baseOpts : List String) (kfile : String) : String :=
  expand (readlines kfile) (unlines baseOpts)

/-! ### Lines of a K-file -/

/-- The macros of a list of options. -/
def optionDefines (opts : List String) : Finset String := extractDefines (unlines opts)

/-- The plain lines of a K-file with the branches they stand in. -/
def plainLines (kfile : String) : List (String × List (Branch String)) :=
  labelled [] ((readlines kfile).map classify)

/-- The lines with text for which the branches are as told. -/
def linesWhere (kfile : String) (p : List (Branch String) → Bool) : List String :=
  kept (((plainLines kfile).filter fun line => p line.2).map Prod.fst)

section Lines

variable {kfile : String} {opts : List String}

theorem isBlankLine_iff {line : String} : isBlankLine line ↔ lstrip isSpace line = "" :=
  decide_eq_true_iff.trans strip_eq_empty_iff

/-- A blank line is written as nothing, or not written. -/
theorem join_lstrip (lines : List String) :
    String.join ((lines.filter (· ≠ "")).map (lstrip isSpace)) = String.join (kept lines) := by
  induction lines with
  | nil => rfl
  | cons line lines ih =>
    unfold kept at ih ⊢
    rw [List.filter_cons, List.filter_cons]
    by_cases hempty : line = ""
    · have hblank : isBlankLine "" := by decide
      simp [hempty, hblank, ← ih]
    · by_cases hblank : isBlankLine line
      · simp [hempty, hblank, ← ih, String.join_cons, isBlankLine_iff.mp hblank]
      · simp [hempty, hblank, ← ih, String.join_cons]

theorem plainLines_sublist : ((plainLines kfile).map Prod.fst).Sublist (readlines kfile) := by
  have hlabelled : ∀ (lines : List String) (ctx : List (Branch String)),
      ((labelled ctx (lines.map classify)).map Prod.fst).Sublist lines := by
    intro lines
    induction lines with
    | nil => exact fun _ => .slnil
    | cons line lines ih =>
      intro ctx
      rw [List.map_cons]
      cases hline : classify line with
      | plain text =>
        have htext : text = line := by
          unfold classify at hline
          dsimp only at hline
          split at hline
          · cases hline
          · split_ifs at hline
            exact (Token.plain.inj hline).symm
        rw [htext]
        exact (ih ctx).cons_cons line
      | ifdef name => exact (ih _).cons line
      | otherwise => exact (ih _).cons line
      | endif => exact (ih _).cons line
  exact hlabelled _ _

/-- Without its blanks a line with text is still a line, with the same end. -/
theorem lstrip_line {line : String} (h : ¬ isBlankLine line) :
    (IsLine line → IsLine (lstrip isSpace line)) ∧
      (Ended line → Ended (lstrip isSpace line)) := by
  have hne : line.toList.dropWhile isSpace ≠ [] := by
    intro hnil
    exact h (isBlankLine_iff.mpr (by rw [lstrip, hnil]))
  have hsplit : line.toList = line.toList.takeWhile isSpace ++ line.toList.dropWhile isSpace :=
    List.takeWhile_append_dropWhile.symm
  constructor
  · rintro ⟨-, hend⟩
    rw [hsplit, List.dropLast_append_of_ne_nil hne, List.mem_append, not_or] at hend
    refine ⟨by simpa [lstrip] using hne, ?_⟩
    rw [lstrip, String.toList_ofList]
    exact hend.2
  · intro hend
    rw [Ended, hsplit, List.getLast?_append_of_ne_nil _ hne] at hend
    rwa [Ended, lstrip, String.toList_ofList]

theorem areLines_kept {lines : List String} (h : AreLines lines) : AreLines (kept lines) := by
  obtain ⟨hall, hpair⟩ := h.sublist
    (List.filter_sublist (p := fun line => !isBlankLine line))
  have htext : ∀ line ∈ lines.filter fun line => !isBlankLine line, ¬ isBlankLine line := by
    intro line hline
    simpa using (List.mem_filter.mp hline).2
  constructor
  · intro line hline
    obtain ⟨line, hmem, rfl⟩ := List.mem_map.mp hline
    exact (lstrip_line (htext line hmem)).1 (hall line hmem)
  · refine List.pairwise_map.mpr (hpair.imp_of_mem fun hmem _ hend => ?_)
    exact (lstrip_line (htext _ hmem)).2 hend

theorem areLines_linesWhere (p : List (Branch String) → Bool) : AreLines (linesWhere kfile p) := by
  refine areLines_kept ((areLines_readlines kfile).sublist ?_)
  exact (List.filter_sublist.map _).trans plainLines_sublist

/-! ### What the flows write -/

/-- With no macro defined a branch is taken iff it is the one after `else`. -/
theorem taken_none : Branch.taken (fun name => decide (name ∈ (∅ : Finset String))) =
    Branch.inElse := by
  funext b
  cases hb : b.inElse <;> simp [Branch.taken, hb]

/-- The library writes the lines that are in taken branches. -/
theorem compilerRun_eq : compilerRun opts kfile = String.join
    (linesWhere kfile (List.all · (Branch.taken fun name => name ∈ optionDefines opts))) := by
  rw [compilerRun, expand, written_eq]
  rfl

/-- **xrun writes the lines that are in `else` branches only**, whatever the options are. -/
theorem runCompCmd_eq (simOpts : List String) :
    runCompCmd opts simOpts kfile = String.join (linesWhere kfile (List.all · Branch.inElse)) := by
  have hnone : runCompCmd opts simOpts kfile = String.join (written ∅ (readlines kfile)) :=
    join_lstrip _
  rw [hnone, written_eq, select, taken_none]
  rfl

/-- **Both flows write the same iff the lines in `else` branches only are the same as those in
the branches that the options take.** -/
theorem runCompCmd_eq_compilerRun_iff (opts simOpts : List String) (kfile : String) :
    runCompCmd opts simOpts kfile = compilerRun opts kfile ↔
      linesWhere kfile (List.all · Branch.inElse) =
        linesWhere kfile
          (List.all · (Branch.taken fun name => name ∈ optionDefines opts)) := by
  rw [runCompCmd_eq, compilerRun_eq, join_inj (areLines_linesWhere _) (areLines_linesWhere _)]

/-- A macro decides about a line: xrun leaves it out. -/
theorem fpga_not_alike :
    runCompCmd ["+define+FPGA"] [] "`ifdef FPGA\nfpga.v\n`endif\n" ≠
      compilerRun ["+define+FPGA"] "`ifdef FPGA\nfpga.v\n`endif\n" := by
  decide +kernel

/-! ### Options without macros -/

theorem mem_findDefines {skip : Nat} {text : List Char} {name : String}
    (h : name ∈ findDefines skip text) :
    name ≠ "" ∧ ∀ c ∈ name.toList, ¬ isSpace c := by
  induction text generalizing skip with
  | nil => cases skip <;> simp [findDefines] at h
  | cons c text ih =>
    cases skip with
    | succ skip => exact ih h
    | zero =>
      rw [findDefines] at h
      cases hmatch : matchDefine (c :: text) with
      | none =>
        rw [hmatch] at h
        exact ih h
      | some found =>
        rw [hmatch] at h
        rcases List.mem_cons.mp h with rfl | h
        · unfold matchDefine at hmatch
          split at hmatch
          · cases hmatch
          · dsimp only at hmatch
            split_ifs at hmatch with hempty
            obtain rfl := Option.some.inj hmatch
            refine ⟨by simpa using hempty, fun c hc => ?_⟩
            rw [String.toList_ofList] at hc
            simpa using List.mem_takeWhile_imp hc
        · exact ih h

/-- The blank at the end of a line that begins and ends with text. -/
theorem strip_line {c : Char} (hc : ¬ isSpace c) (front : List Char) {name : List Char}
    (hne : name ≠ []) (hname : ∀ c ∈ name, ¬ isSpace c) :
    strip isSpace (.ofList (c :: (front ++ name ++ ['\n']))) = .ofList (c :: (front ++ name)) := by
  have hnil : front ++ name ≠ [] := List.append_ne_nil_of_right_ne_nil front hne
  have hlast : ∀ hl : c :: (front ++ name) ≠ [], ¬ isSpace ((c :: (front ++ name)).getLast hl) := by
    intro hl
    rw [List.getLast_cons hnil, List.getLast_append_of_ne_nil hnil hne]
    exact hname _ (List.getLast_mem hne)
  rw [strip, String.toList_ofList, List.dropWhile_cons_of_neg hc, ← List.cons_append,
    List.rdropWhile_concat_pos _ _ _ (by decide), List.rdropWhile_eq_self_iff.mpr hlast]

theorem strip_ifdef {name : String} (hne : name ≠ "")
    (hname : ∀ c ∈ name.toList, ¬ isSpace c) :
    strip isSpace ("`ifdef " ++ name ++ "\n") = "`ifdef " ++ name := by
  have hline : "`ifdef " ++ name ++ "\n" =
      .ofList ('`' :: ("ifdef ".toList ++ name.toList ++ ['\n'])) := by
    rw [← String.toList_inj]
    simp
  have hstrip : "`ifdef " ++ name = .ofList ('`' :: ("ifdef ".toList ++ name.toList)) := by
    rw [← String.toList_inj]
    simp
  rw [hline, strip_line (by decide) _ (by simpa using hne) hname, hstrip]

theorem classify_ifdef {name : String} (hne : name ≠ "")
    (hname : ∀ c ∈ name.toList, ¬ isSpace c) :
    classify ("`ifdef " ++ name ++ "\n") = .ifdef name := by
  have hfirst : ("`ifdef " ++ name).toList.dropPrefix? "`ifdef".toList =
      some (' ' :: name.toList) := by
    rw [String.toList_append]
    rfl
  have hdrop : (' ' :: name.toList).dropWhile isSpace = name.toList := by
    rw [List.dropWhile_cons_of_pos (by decide)]
    exact List.dropWhile_eq_self_iff.mpr fun hl => hname _ (List.getElem_mem hl)
  have htake : (name.toList.takeWhile fun c => !isSpace c) = name.toList :=
    List.takeWhile_eq_self_iff.mpr fun c hc => by simpa using hname c hc
  have hifdef : ifdefName ("`ifdef " ++ name) = some name := by
    unfold ifdefName
    rw [hfirst]
    dsimp only
    rw [hdrop, htake, List.takeWhile_cons_of_pos (by decide), if_neg (by simpa using hne),
      String.ofList_toList]
  rw [classify, strip_ifdef hne hname, hifdef]

/-- A macro that decides about one line. -/
theorem linesWhere_ifdef {name : String} (hne : name ≠ "")
    (hname : ∀ c ∈ name.toList, ¬ isSpace c) (p : List (Branch String) → Bool) :
    linesWhere (String.join ["`ifdef " ++ name ++ "\n", "a.v\n", "`endif\n"]) p =
      if p [{ name := name, inElse := false }] then ["a.v\n"] else [] := by
  have hlines : AreLines ["`ifdef " ++ name ++ "\n", "a.v\n", "`endif\n"] := by
    have hend : '\n' ∉ name.toList := fun hmem => hname _ hmem (by decide)
    have hlast : ("`ifdef " ++ name ++ "\n").toList = ("`ifdef " ++ name).toList ++ ['\n'] :=
      String.toList_append
    refine ⟨?_, ?_⟩
    · refine List.forall_mem_cons.mpr ⟨⟨by simp, ?_⟩, by decide⟩
      rw [hlast, List.dropLast_concat, String.toList_append, List.mem_append, not_or]
      exact ⟨by decide, hend⟩
    · refine List.pairwise_cons.mpr ⟨fun _ _ => ?_, by decide⟩
      rw [Ended, hlast, List.getLast?_concat]
  have hplain : classify "a.v\n" = .plain "a.v\n" := by decide +kernel
  have hendif : classify "`endif\n" = .endif := by decide +kernel
  have hkept : kept ["a.v\n"] = ["a.v\n"] := by decide +kernel
  unfold linesWhere plainLines
  rw [readlines_join hlines, List.map_cons, List.map_cons, List.map_singleton,
    classify_ifdef hne hname, hplain, hendif]
  simp only [labelled, Token.after, List.filter_cons, List.filter_nil]
  split_ifs
  · exact hkept
  · rfl

/-- **The flows write the same for every K-file iff no option defines a macro.** -/
theorem forall_alike_iff (opts simOpts : List String) :
    (∀ kfile, runCompCmd opts simOpts kfile = compilerRun opts kfile) ↔
      optionDefines opts = ∅ := by
  constructor
  · intro h
    refine Finset.eq_empty_of_forall_notMem fun name hmem => ?_
    obtain ⟨hne, hname⟩ := mem_findDefines (List.mem_toFinset.mp hmem)
    have hsame := h (String.join ["`ifdef " ++ name ++ "\n", "a.v\n", "`endif\n"])
    rw [runCompCmd_eq, compilerRun_eq, linesWhere_ifdef hne hname,
      linesWhere_ifdef hne hname] at hsame
    simp [Branch.taken, hmem] at hsame
  · intro h kfile
    rw [runCompCmd_eq, compilerRun_eq, h, taken_none]

end Lines

end Testbench.Run
