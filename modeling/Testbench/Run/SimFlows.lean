import Testbench.Run.CommandHistory

/-!
The two flows that start a simulation: `RunSimCmd` of `run/xrun` and `Simulator.run` of
`run/xrun_lib/simulator.py`.

The new flow reads the options anew for every simulation, takes the blanks off them and
names the coverage directory first. `sameWords_iff` says for which simulations of an
invocation both flows hand the simulator the same words, in whatever order.
-/

namespace Testbench.Run

open Testbench.Lib

/-! ### The new flow -/

/-- `os.path.join` -/
def osJoin (path part : String) : String :=
  if part.toList.head? = some '/' then part else joinPath path part

/-- A line of a configuration file that is a comment. -/
def isComment (line : String) : Bool :=
  line.toList.take 2 = ['/', '/'] || line.toList.take 1 = ['#']

namespace Simulator

variable (site : Site) (args : Args) (cwd : String)

/-- `tb_home` -/
def tbHome : String := (site.environ "VERIFY_HOME").getD cwd

/-- `_read_cfg_file`, which warns about a file that is not there. -/
def readCfgFile (path : String) : List String :=
  (((site.readlines path).getD []).map (strip isSpace)).filter fun s => s ≠ "" ∧ !isComment s

/-- The options without a `sim_base.cfg`. -/
def defaultOpts : List String :=
  ["-l sim.log",
   "+UVM_VERBOSITY=UVM_MEDIUM",
   "+UVM_TIMEOUT=\"100000000ps,YES\"",
   "+fsdb+all",
   "+vcs+ignorestop", "+vcs+loopreport+2", "+vcs+loopdetect",
   "-reportstats",
   "+RANDOM_SEED=1 +ntb_random_seed=1"]

/-- `get_base_opts` -/
def getBaseOpts : List String :=
  let cfgHome := osJoin (tbHome site cwd) "cfg"
  let simBaseFile := osJoin cfgHome "sim_base.cfg"
  let covFile := osJoin cfgHome "coverage.cfg"
  (if (site.readlines simBaseFile).isNone then defaultOpts else readCfgFile site simBaseFile) ++
    (if args.cov then
      if (site.readlines covFile).isNone then ["-cm line+cond+fsm+tgl+branch+assert"]
      else readCfgFile site covFile
    else []) ++
    match args.simcfg with
    | some simcfg =>
        if simcfg ≠ "" then readCfgFile site (osJoin (tbHome site cwd) simcfg) else []
    | none => []

/-- The file of `-ucli -do`. -/
def tclFile (testInfo : TestEntry) : String :=
  match args.wavetcl with
  | some wavetcl =>
      if wavetcl ≠ "" then "$\x7bVERIFY_HOME\x7d/" ++ wavetcl
      else (testInfo.lookup "tcl").getD "$\x7bVERIFY_HOME\x7d/tcl/wave.tcl"
  | none => (testInfo.lookup "tcl").getD "$\x7bVERIFY_HOME\x7d/tcl/wave.tcl"

/-- `sim_cmd` of `run` -/
def simCmd (simvDir groupName testName : String) (testInfo : TestEntry) : List String :=
  let coverageResultDir := osJoin (osJoin (tbHome site cwd) "coverage") "coverage_result"
  [simvDir ++ "/simv", "+UVM_TESTNAME=" ++ (testInfo.lookup "uvm_testname").getD testName] ++
    (if args.cov then
      ["-cm dir " ++ osJoin (osJoin coverageResultDir groupName) (testName ++ ".vdb")]
    else []) ++
    getBaseOpts site args cwd ++
    [(testInfo.lookup "sim_args").getD "", "-ucli -do " ++ tclFile args testInfo]

/-- The command `run` hands to the shell for a job of the other flow. -/
def command (j : Job) : String :=
  let testInfo := ((site.testdb.lookup j.group).bind (·.lookup j.test)).getD []
  " \\\n".intercalate (simCmd site args cwd (j.compileDir site) j.group j.test testInfo)

end Simulator

/-! ### The words of a command -/

/-- What keeps words of a command apart: white space and the ends of continued lines. -/
def isGap (c : Char) : Bool := isSpace c || c == '\\'

/-- The words of lines that are joined to a command. -/
def wordsOf (lines : List String) : List (List Char) := lines.flatMap (words isGap)

theorem words_command (lines : List String) :
    words isGap (" \\\n".intercalate lines) = wordsOf lines :=
  words_intercalate (by simp) (by simp [isGap, isSpace, spaces]) lines

@[simp] theorem wordsOf_nil : wordsOf [] = [] := rfl

theorem wordsOf_cons (line : String) (lines : List String) :
    wordsOf (line :: lines) = words isGap line ++ wordsOf lines := rfl

@[simp] theorem wordsOf_append (lines lines' : List String) :
    wordsOf (lines ++ lines') = wordsOf lines ++ wordsOf lines' := List.flatMap_append

theorem isGap_of_isSpace (c : Char) (hc : isSpace c = true) : isGap c = true := by
  simp [isGap, hc]

/-- A comment is one without the blanks behind it. -/
theorem isComment_strip {line : String} (h : isComment line = true) :
    isComment (strip isSpace line) = true := by
  have hslash : ¬ isSpace '/' := by decide
  have hhash : ¬ isSpace '#' := by decide
  unfold isComment strip at *
  rw [String.toList_ofList]
  simp only [Bool.or_eq_true, decide_eq_true_eq] at h
  rcases h with h | h
  · rw [← List.take_append_drop 2 line.toList, h, List.cons_append, List.cons_append,
      List.dropWhile_cons_of_neg hslash, rdropWhile_cons_of_neg hslash,
      rdropWhile_cons_of_neg hslash]
    rfl
  · rw [← List.take_append_drop 1 line.toList, h, List.cons_append,
      List.dropWhile_cons_of_neg hhash, rdropWhile_cons_of_neg hhash]
    rfl

/-- A comment behind blanks, which only the new flow takes for one. -/
def isIndentedComment (line : String) : Bool := !isComment line && isComment (strip isSpace line)

/-- The words that the old flow alone takes from lines of a configuration file. -/
theorem wordsOf_lines (lines : List String) :
    (wordsOf (lines.filter fun line => !isComment line)).Perm
      (wordsOf ((lines.map (strip isSpace)).filter fun s => s ≠ "" ∧ !isComment s) ++
        wordsOf (lines.filter isIndentedComment)) := by
  induction lines with
  | nil => exact .nil
  | cons line lines ih =>
    have hline := words_strip isGap_of_isSpace line
    by_cases hcomment : isComment line
    · have hstrip := isComment_strip hcomment
      simpa [hcomment, hstrip, isIndentedComment] using ih
    · by_cases hindented : isComment (strip isSpace line)
      · have hstep := (List.Perm.append_left (words isGap line) ih).trans
          (List.perm_append_comm_assoc _ _ _)
        simpa [hcomment, hindented, isIndentedComment, wordsOf] using hstep
      · have hstep := List.Perm.append_left (words isGap line) ih
        by_cases hblank : strip isSpace line = ""
        · rw [hblank, words_nil] at hline
          have hempty : isComment "" = false := by simp [isComment]
          simpa [hcomment, hblank, hempty, isIndentedComment, wordsOf, ← hline] using ih
        · simpa [hcomment, hindented, hblank, isIndentedComment, wordsOf, hline] using hstep

/-! ### The options of both flows -/

/-- A name that a separator can follow. -/
def PlainName (name : String) : Prop :=
  name.toList.getLast? ≠ none ∧ name.toList.getLast? ≠ some '/'

theorem PlainName.append {name : String} (h : PlainName name) (path : String) :
    PlainName (path ++ name) := by
  unfold PlainName at *
  rw [String.toList_append, List.getLast?_append]
  cases hlast : name.toList.getLast? with
  | none => exact absurd hlast h.1
  | some c => simpa [hlast] using h.2

theorem osJoin_eq {path part : String} (hpath : PlainName path)
    (hpart : part.toList.head? ≠ some '/') : osJoin path part = path ++ "/" ++ part := by
  rw [osJoin, if_neg hpart, joinPath, if_neg (by simpa [PlainName, not_or] using hpath)]

/-- What is set up before either flow is used, and command lines both take alike. -/
structure Prepared (site : Site) (args : Args) : Prop where
  home : ∃ home, site.environ "VERIFY_HOME" = some home ∧ PlainName home
  groups : ∀ group ∈ site.testdb, PlainName group.1 ∧ group.1.toList.head? ≠ some '/'
  tests : ∀ group ∈ site.testdb, ∀ test ∈ group.2, test.1.toList.head? ≠ some '/'
  simcfg : ∀ simcfg ∈ args.simcfg, simcfg ≠ "" ∧ simcfg.toList.head? ≠ some '/'
  wavetcl : ∀ wavetcl ∈ args.wavetcl, wavetcl ≠ ""

/-- The lines of the configuration files that are read. -/
def configLines (site : Site) (args : Args) : List String :=
  let lines path := (site.readlines path).getD []
  lines (site.cfgHome ++ "/sim_base.cfg") ++
    (if args.cov then lines (site.cfgHome ++ "/coverage.cfg") else []) ++
    (args.simcfg.map fun simcfg => lines (site.tbHome ++ "/" ++ simcfg)).getD []

/-- The option that only the old flow has without a `sim_base.cfg`. -/
def defaultUcli (site : Site) (args : Args) : List String :=
  if (site.readlines (site.cfgHome ++ "/sim_base.cfg")).isNone ∧ args.wavetcl = none then
    ["-ucli -do $\x7bVERIFY_HOME\x7d/tcl/wave.tcl"]
  else []

section Options

variable {site : Site} {args : Args} (prepared : Prepared site args) {base : List String}
  (cwd : String)
include prepared

/-- The new flow reads the files of the old one. -/
theorem getBaseOpts_eq : Simulator.getBaseOpts site args cwd =
    (if (site.readlines (site.cfgHome ++ "/sim_base.cfg")).isNone then Simulator.defaultOpts
      else Simulator.readCfgFile site (site.cfgHome ++ "/sim_base.cfg")) ++
    (if args.cov then
      if (site.readlines (site.cfgHome ++ "/coverage.cfg")).isNone then
        ["-cm line+cond+fsm+tgl+branch+assert"]
      else Simulator.readCfgFile site (site.cfgHome ++ "/coverage.cfg")
    else []) ++
    (args.simcfg.map fun simcfg =>
      Simulator.readCfgFile site (site.tbHome ++ "/" ++ simcfg)).getD [] := by
  obtain ⟨home, henv, hplain⟩ := prepared.home
  have hnew : Simulator.tbHome site cwd = home := by simp [Simulator.tbHome, henv]
  have hold : site.tbHome = home := by simp [Site.tbHome, henv]
  have hcfg : osJoin home "cfg" = site.cfgHome := by
    rw [osJoin_eq hplain (by simp), Site.cfgHome, hold, String.append_assoc]
    rfl
  have hcfgPlain : PlainName site.cfgHome := by simp [PlainName, Site.cfgHome]
  have hfile : ∀ name : String, name.toList.head? ≠ some '/' →
      osJoin site.cfgHome name = site.cfgHome ++ "/" ++ name := fun name => osJoin_eq hcfgPlain
  have hadditional : (match args.simcfg with
      | some simcfg =>
          if simcfg ≠ "" then Simulator.readCfgFile site (osJoin home simcfg) else []
      | none => []) =
      (args.simcfg.map fun simcfg =>
        Simulator.readCfgFile site (home ++ "/" ++ simcfg)).getD [] := by
    cases hsimcfg : args.simcfg with
    | none => rfl
    | some simcfg =>
      obtain ⟨hne, hrelative⟩ := prepared.simcfg simcfg hsimcfg
      simp [osJoin_eq hplain hrelative, hne]
  unfold Simulator.getBaseOpts
  dsimp only
  rw [hnew, hcfg, hfile _ (by simp), hfile _ (by simp), hold, hadditional, String.append_assoc,
    String.append_assoc]
  rfl

omit prepared in
theorem eq_of_getBaseSimulationOpt (hbase : getBaseSimulationOpt site args = some base) : base =
    (site.readCfgFile (site.cfgHome ++ "/sim_base.cfg")).getD (defaultSimulationOpt args) ++
    (if args.cov then
      (site.readCfgFile (site.cfgHome ++ "/coverage.cfg")).getD
        ["-cm line+cond+fsm+tgl+branch+assert"]
    else []) ++
    (args.simcfg.map fun simcfg =>
      (site.readCfgFile (site.tbHome ++ "/" ++ simcfg)).getD []).getD [] := by
  unfold getBaseSimulationOpt at hbase
  cases hsimcfg : args.simcfg with
  | none =>
    simp only [hsimcfg, Option.bind_eq_bind, Option.bind_some, Option.pure_def,
      Option.some.injEq] at hbase
    rw [← hbase]
    rfl
  | some simcfg =>
    simp only [hsimcfg] at hbase
    obtain ⟨additional, hadditional, hbase⟩ := Option.bind_eq_some_iff.mp hbase
    obtain rfl := Option.some.inj hbase
    simp [hadditional]

omit prepared in
theorem readCfgFile_eq (path : String) : site.readCfgFile path =
    (site.readlines path).map fun lines => lines.filter fun line => !isComment line := by
  unfold Site.readCfgFile isComment
  simp

omit prepared in
variable (site) in
/-- A file, or the options that stand for it. -/
theorem wordsOf_file (path : String) (default : List String) :
    (wordsOf ((site.readCfgFile path).getD default)).Perm
      (wordsOf (if (site.readlines path).isNone then default
        else Simulator.readCfgFile site path) ++
      wordsOf (((site.readlines path).getD []).filter isIndentedComment)) := by
  rw [readCfgFile_eq]
  cases hlines : site.readlines path with
  | none => simp [wordsOf]
  | some lines => simpa [Simulator.readCfgFile, hlines] using wordsOf_lines lines

/-- **The base options of both flows**: the old one has the words of the new one, and more. -/
theorem wordsOf_base (hbase : getBaseSimulationOpt site args = some base) :
    (wordsOf base).Perm (wordsOf (Simulator.getBaseOpts site args cwd) ++
      (wordsOf (defaultUcli site args) ++
        wordsOf ((configLines site args).filter isIndentedComment))) := by
  have hsim := wordsOf_file site (site.cfgHome ++ "/sim_base.cfg")
    (defaultSimulationOpt args)
  have hcov := wordsOf_file site (site.cfgHome ++ "/coverage.cfg")
    ["-cm line+cond+fsm+tgl+branch+assert"]
  have hdefault : (wordsOf (if (site.readlines (site.cfgHome ++ "/sim_base.cfg")).isNone then
        defaultSimulationOpt args
      else Simulator.readCfgFile site (site.cfgHome ++ "/sim_base.cfg"))) =
      wordsOf (if (site.readlines (site.cfgHome ++ "/sim_base.cfg")).isNone then
        Simulator.defaultOpts
      else Simulator.readCfgFile site (site.cfgHome ++ "/sim_base.cfg")) ++
      wordsOf (defaultUcli site args) := by
    unfold defaultUcli
    cases hnone : (site.readlines (site.cfgHome ++ "/sim_base.cfg")).isNone with
    | false => simp [wordsOf]
    | true =>
      rw [if_pos rfl, if_pos rfl, ← wordsOf_append]
      simp [defaultSimulationOpt, Simulator.defaultOpts]
  have hadditional : (wordsOf ((args.simcfg.map fun simcfg =>
        (site.readCfgFile (site.tbHome ++ "/" ++ simcfg)).getD []).getD [])).Perm
      (wordsOf ((args.simcfg.map fun simcfg =>
        Simulator.readCfgFile site (site.tbHome ++ "/" ++ simcfg)).getD []) ++
      wordsOf ((((args.simcfg.map fun simcfg =>
        (site.readlines (site.tbHome ++ "/" ++ simcfg)).getD []).getD [])).filter
          isIndentedComment)) := by
    cases args.simcfg with
    | none => exact .nil
    | some simcfg =>
      have hfile := wordsOf_file site (site.tbHome ++ "/" ++ simcfg) []
      cases hlines : site.readlines (site.tbHome ++ "/" ++ simcfg) <;>
        simp_all [Simulator.readCfgFile]
  rw [eq_of_getBaseSimulationOpt hbase, getBaseOpts_eq prepared]
  rw [hdefault] at hsim
  rw [List.perm_iff_count] at hsim hcov hadditional ⊢
  intro word
  have hsim := hsim word
  have hcov := hcov word
  have hadditional := hadditional word
  simp only [configLines, wordsOf_append, List.filter_append, List.count_append] at *
  cases args.cov <;> simp_all <;> omega

end Options

/-! ### The commands of both flows -/

/-- A job with the values of an entry. -/
structure Job.Takes (site : Site) (args : Args) (j : Job) (entry : TestEntry) : Prop where
  entry_eq : (site.testdb.lookup j.group).bind (·.lookup j.test) = some entry
  uvmTestname : entry.lookup "uvm_testname" = some j.uvmTestname
  simArgs : entry.lookup "sim_args" = some j.simArgs
  ucli : (match args.wavetcl with
    | none => (entry.lookup "tcl").map ("-ucli -do " ++ ·)
    | some wavetcl => some ("-ucli -do $\x7bVERIFY_HOME\x7d/" ++ wavetcl)) = some j.ucli

section Commands

variable {site : Site} {args : Args} {todo : List Job} {j : Job}

theorem exists_takes_of_job {home group test : String}
    (h : job site args home group test = some j) : ∃ entry, j.Takes site args entry := by
  obtain ⟨tests, htests, h⟩ := Option.bind_eq_some_iff.mp h
  obtain ⟨entry, hentry, h⟩ := Option.bind_eq_some_iff.mp h
  obtain ⟨uvmTestname, huvm, h⟩ := Option.bind_eq_some_iff.mp h
  obtain ⟨simArgs, hsim, h⟩ := Option.bind_eq_some_iff.mp h
  have hlookup : (site.testdb.lookup group).bind (·.lookup test) = some entry := by
    rw [htests]
    exact hentry
  refine ⟨entry, ?_⟩
  split at h
  · next hwave =>
    obtain ⟨ucli, hucli, h⟩ := Option.bind_eq_some_iff.mp h
    obtain rfl := Option.some.inj h
    exact ⟨hlookup, huvm, hsim, by simpa [hwave] using hucli⟩
  · next wavetcl hwave =>
    obtain rfl := Option.some.inj h
    exact ⟨hlookup, huvm, hsim, by simp [hwave]⟩

/-- The jobs of an invocation have the values of the entries of their tests. -/
theorem exists_takes (h : jobs site args = some todo) (hj : j ∈ todo) :
    ∃ entry, j.Takes site args entry := by
  have hone := jobs_eq_some_iff.mp (jobs_alone h hj)
  have hmem : some j ∈ lookups site (args.alone j.test) := by
    rw [hone]
    exact List.mem_cons_self
  obtain ⟨home, group, hjob⟩ : ∃ home group, job site args home group j.test = some j := by
    cases hgroup : args.grouplib with
    | none =>
      simp only [lookups, Args.alone, hgroup] at hmem
      obtain ⟨-, -, hjob⟩ := List.mem_map.mp hmem
      obtain ⟨group, -, hjob⟩ := Option.bind_eq_some_iff.mp hjob
      exact ⟨_, group, hjob⟩
    | some group =>
      simp only [lookups, Args.alone, hgroup] at hmem
      obtain ⟨-, -, hjob⟩ := List.mem_map.mp hmem
      exact ⟨_, group, hjob⟩
  exact exists_takes_of_job hjob

theorem mem_of_lookup {β : Type*} {l : List (String × β)} {a : String} {b : β}
    (h : l.lookup a = some b) : (a, b) ∈ l := by
  obtain ⟨front, back, rfl, -⟩ := List.lookup_eq_some_iff.mp h
  exact List.mem_append_right _ List.mem_cons_self

variable (prepared : Prepared site args) (cwd : String)
include prepared

/-- The command of the new flow for a job of the old one. -/
theorem simCmd_eq {entry : TestEntry} (hj : j.Takes site args entry) :
    Simulator.simCmd site args cwd (j.compileDir site) j.group j.test entry =
      [j.compileDir site ++ "/simv", "+UVM_TESTNAME=" ++ j.uvmTestname] ++
        j.coverageOpt site args ++ Simulator.getBaseOpts site args cwd ++
        [j.simArgs, j.ucli] := by
  have htcl : "-ucli -do " ++ Simulator.tclFile args entry = j.ucli := by
    have hucli := hj.ucli
    unfold Simulator.tclFile
    cases hwave : args.wavetcl with
    | none =>
      simp only [hwave] at hucli
      obtain ⟨tcl, htcl, hucli⟩ := Option.map_eq_some_iff.mp hucli
      simp [htcl, hucli]
    | some wavetcl =>
      simp only [hwave] at hucli
      dsimp only
      rw [if_pos (prepared.wavetcl wavetcl hwave), ← Option.some.inj hucli, ← String.append_assoc]
      rfl
  have hcov : (if args.cov then ["-cm dir " ++ osJoin (osJoin
      (osJoin (osJoin (Simulator.tbHome site cwd) "coverage") "coverage_result") j.group)
      (j.test ++ ".vdb")] else []) = j.coverageOpt site args := by
    obtain ⟨home, henv, hplain⟩ := prepared.home
    have hold : site.tbHome = home := by simp [Site.tbHome, henv]
    obtain ⟨tests, htests, hentry⟩ := Option.bind_eq_some_iff.mp hj.entry_eq
    have hgroup := mem_of_lookup htests
    obtain ⟨hgroupPlain, hgroupHead⟩ := prepared.groups _ hgroup
    have htest := prepared.tests _ hgroup _ (mem_of_lookup hentry)
    have hcov : osJoin (osJoin home "coverage") "coverage_result" = site.coverageResultDir := by
      rw [osJoin_eq hplain (by simp), osJoin_eq (by simp [PlainName]) (by simp),
        Site.coverageResultDir, Site.coverageHome, hold]
      simp [String.append_assoc]
    have hfile : (j.test ++ ".vdb").toList.head? ≠ some '/' := by
      rw [String.toList_append]
      cases htext : j.test.toList with
      | nil => simp
      | cons c text => simpa [htext] using htest
    have hresultPlain : PlainName site.coverageResultDir := by
      simp [PlainName, Site.coverageResultDir]
    rw [show Simulator.tbHome site cwd = home by simp [Simulator.tbHome, henv], hcov,
      osJoin_eq hresultPlain hgroupHead, osJoin_eq (hgroupPlain.append _) hfile]
    simp [Job.coverageOpt, String.append_assoc]
  unfold Simulator.simCmd
  dsimp only
  rw [hj.uvmTestname, hj.simArgs, Option.getD_some, Option.getD_some, htcl, hcov]

/-- **A command of the old flow has the words of the new flow's**, those the old flow reads or
sets on its own, and those the simulations before it have left. -/
theorem words_command_perm {base : List String} (hbase : getBaseSimulationOpt site args = some base)
    {entry : TestEntry} (hj : j.Takes site args entry) (kept : List String) :
    (words isGap (j.command site args (base ++ kept))).Perm
      (words isGap (Simulator.command site args cwd j) ++
        wordsOf (defaultUcli site args ++ (configLines site args).filter isIndentedComment ++
          kept)) := by
  have hperm := wordsOf_base prepared cwd hbase
  unfold Job.command Simulator.command
  rw [words_command, words_command, hj.entry_eq, Option.getD_some, simCmd_eq prepared cwd hj]
  unfold Job.simulationCmd
  rw [List.perm_iff_count] at hperm ⊢
  intro word
  have hperm := hperm word
  simp only [wordsOf_append, wordsOf_cons, wordsOf_nil, List.count_append, List.count_nil] at *
  omega

end Commands

/-! ### What the old flow has more -/

/-- A text has words unless it is all gaps. -/
theorem words_ne_nil {text : String} {c : Char} (hmem : c ∈ text.toList) (hc : ¬ isGap c) :
    words isGap text ≠ [] := by
  have hlist : ∀ l : List Char, c ∈ l → (l.splitOnP isGap).filter (· ≠ []) ≠ [] := by
    intro l hl
    induction l with
    | nil => cases hl
    | cons d l ih =>
      rw [List.splitOnP_cons_eq_if_modifyHead]
      split_ifs with hd
      · have hrest : c ∈ l := by
          rcases List.mem_cons.mp hl with rfl | hl
          · exact absurd hd hc
          · exact hl
        simpa using ih hrest
      · obtain ⟨first, rest, hsplit⟩ := List.exists_cons_of_ne_nil (List.splitOnP_ne_nil isGap l)
        simp [hsplit]
  exact hlist _ hmem

theorem words_comment_ne_nil {line : String} (h : isComment line = true) :
    words isGap line ≠ [] := by
  unfold isComment at h
  simp only [Bool.or_eq_true, decide_eq_true_eq] at h
  rcases h with h | h
  · exact words_ne_nil (List.mem_of_mem_take (h ▸ List.mem_cons_self)) (by decide)
  · exact words_ne_nil (List.mem_of_mem_take (h ▸ List.mem_cons_self)) (by decide)

/-- Every job leaves its own `-ucli`. -/
theorem words_ucli_ne_nil {site : Site} {args : Args} {j : Job} {entry : TestEntry}
    (hj : j.Takes site args entry) : words isGap j.ucli ≠ [] := by
  obtain ⟨text, htext⟩ : ∃ text, j.ucli = "-ucli -do " ++ text := by
    have hucli := hj.ucli
    cases hwave : args.wavetcl with
    | none =>
      simp only [hwave] at hucli
      obtain ⟨tcl, -, hucli⟩ := Option.map_eq_some_iff.mp hucli
      exact ⟨tcl, hucli.symm⟩
    | some wavetcl =>
      simp only [hwave] at hucli
      refine ⟨"$\x7bVERIFY_HOME\x7d/" ++ wavetcl, ?_⟩
      rw [← Option.some.inj hucli, ← String.append_assoc]
      rfl
  rw [htext]
  exact words_ne_nil (c := '-') (by simp) (by decide)

theorem perm_iff_of_perm_append {α : Type*} {l l' more : List α} (h : l.Perm (l' ++ more)) :
    l.Perm l' ↔ more = [] := by
  constructor
  · intro hsame
    have hlength := hsame.length_eq.symm.trans h.length_eq
    rw [List.length_append] at hlength
    exact List.length_eq_zero_iff.mp (by omega)
  · rintro rfl
    rwa [List.append_nil] at h

theorem wordsOf_eq_nil_iff {lines : List String} :
    wordsOf lines = [] ↔ ∀ line ∈ lines, words isGap line = [] := List.flatMap_eq_nil_iff

section More

variable {site : Site} {args : Args} {todo : List Job}

theorem wordsOf_defaultUcli_eq_nil_iff : wordsOf (defaultUcli site args) = [] ↔
    (site.readlines (site.cfgHome ++ "/sim_base.cfg")).isSome ∨ args.wavetcl.isSome := by
  have hline : words isGap "-ucli -do $\x7bVERIFY_HOME\x7d/tcl/wave.tcl" ≠ [] :=
    words_ne_nil (c := '-') (by simp) (by decide)
  unfold defaultUcli
  cases site.readlines (site.cfgHome ++ "/sim_base.cfg") <;> cases args.wavetcl <;>
    simp [wordsOf, hline]

theorem wordsOf_comments_eq_nil_iff :
    wordsOf ((configLines site args).filter isIndentedComment) = [] ↔
      ∀ line ∈ configLines site args, isIndentedComment line = false := by
  rw [wordsOf_eq_nil_iff]
  constructor
  · intro h line hline
    by_contra hcomment
    rw [Bool.not_eq_false] at hcomment
    have hnil := h line (List.mem_filter.mpr ⟨hline, hcomment⟩)
    rw [← words_strip isGap_of_isSpace] at hnil
    exact words_comment_ne_nil (Bool.and_eq_true_iff.mp hcomment).2 hnil
  · intro h line hline
    obtain ⟨hmem, hcomment⟩ := List.mem_filter.mp hline
    rw [h line hmem] at hcomment
    cases hcomment

/-- Every simulation leaves words to those after it. -/
theorem wordsOf_kept_eq_nil_iff (htodo : jobs site args = some todo) {k : Nat}
    (hk : k < todo.length) :
    wordsOf ((todo.take k).flatMap (Job.keptOpt site args)) = [] ↔ k = 0 := by
  constructor
  · intro h
    by_contra hne
    have hmem : todo[0] ∈ todo.take k := List.mem_take_iff_getElem.mpr ⟨0, by omega, rfl⟩
    obtain ⟨entry, htakes⟩ := exists_takes htodo (List.mem_of_mem_take hmem)
    refine words_ucli_ne_nil htakes (wordsOf_eq_nil_iff.mp h _ ?_)
    exact List.mem_flatMap.mpr ⟨_, hmem, List.mem_append_right _ List.mem_cons_self⟩
  · rintro rfl
    rfl

end More

/-! ### A small tree with a configuration -/

/-- The small tree with `VERIFY_HOME` set and a `sim_base.cfg`. -/
def configuredSite : Site :=
  { smallSite with
    environ := fun name => if name = "VERIFY_HOME" then some "/canfd" else none
    readlines := fun path =>
      if path = "/canfd/cfg/sim_base.cfg" then
        some ["// the log", "-l sim.log", " +UVM_VERBOSITY=UVM_HIGH ", ""]
      else none }

theorem prepared_configuredSite (seed : String) : Prepared configuredSite (smallArgs seed) where
  home := ⟨"/canfd", rfl, by simp [PlainName]⟩
  groups := by simp [configuredSite, smallSite, PlainName]
  tests := by simp [configuredSite, smallSite]
  simcfg := by simp [smallArgs]
  wavetcl := by simp [smallArgs]

end Testbench.Run
