import Testbench.Run.Xrun

/-!
`run/regression.py`: the status of a test, read off an xrun invocation.

xrun exits with 0 whatever its simulations came to, and `regression.py` searches what xrun
prints for the names of UVM's severities. The logs of the simulations are not among it:
`stdout_mentions_iff` says what is.
-/

namespace Testbench.Run

open Testbench.Lib

/-- The options of a regression that reach xrun. -/
structure Opts where
  cov : Bool := false
  seed : Option Int := none
  n : Int := 1

/-- `subprocess.CompletedProcess` -/
structure CompletedProcess where
  returncode : Int
  stdout : String
  stderr : String

inductive RecordStatus where
  | pass
  | fail
  deriving DecidableEq, Repr

/-- An entry of the report. -/
structure TestRecord where
  test : String
  group : String
  seed : Int
  status : RecordStatus

/-! ### Invocations -/

/-- `opts.get("seed") or random.randint(0, 2**16)` -/
def Opts.drawSeed (opts : Opts) (draw : Fin (2 ^ 16 + 1)) : Int :=
  match opts.seed with
  | some seed => if seed = 0 then draw.val else seed
  | none => draw.val

/-- The command line of `run_group` for one test; `none` when argparse rejects it. -/
def runGroupArgs (opts : Opts) (group tname : String) (seed : Int) : Option Args :=
  -- the filter on `xrun_args` takes a count away that is the name of the group or test
  if 1 < opts.n ∧ (toString opts.n = group ∨ toString opts.n = tname) then none
  else some
    { grouplib := some group
      testlib := some tname
      iterationNum := if 1 < opts.n then opts.n else 1
      cov := opts.cov
      seed := some (toString seed) }

/-- The command line of `run_parallel.run_one`. -/
def runOneArgs (opts : Opts) (group tname : String) (seed : Int) : Option Args :=
  some
    { grouplib := some group
      testlib := some tname
      cov := opts.cov
      seed := some (toString seed) }

/-- The exit code and output of xrun. After a traceback the code is 1, whatever was printed. -/
def runXrun (site : Site) (args : Option Args) (world : World) : CompletedProcess :=
  match args with
  | none => { returncode := 2, stdout := "", stderr := "" }
  | some args =>
      match doSimulation site args world with
      | none => { returncode := 1, stdout := "", stderr := "" }
      | some r => { returncode := 0, stdout := r.stdout, stderr := "" }

/-- The status both callers record. -/
def statusOf (result : CompletedProcess) : RecordStatus :=
  if result.returncode ≠ 0 then .fail
  else if Occurs "UVM_FATAL" (result.stdout ++ result.stderr) then .fail
  else if Occurs "UVM_ERROR" (result.stdout ++ result.stderr) then .fail
  else .pass

/-- The two functions that run a test. -/
inductive Caller where
  | runGroup
  | runOne

def Caller.args : Caller → Opts → String → String → Int → Option Args
  | .runGroup => runGroupArgs
  | .runOne => runOneArgs

/-- What the caller appends to its results for one test. -/
def Caller.record (caller : Caller) (site : Site) (opts : Opts) (group tname : String)
    (draw : Fin (2 ^ 16 + 1)) (world : World) : TestRecord :=
  let seed := opts.drawSeed draw
  { test := tname
    group := group
    seed := seed
    status := statusOf (runXrun site (caller.args opts group tname seed) world) }

/-! ### What is searched for -/

def markers : List String := ["UVM_FATAL", "UVM_ERROR"]

theorem statusOf_eq_pass_iff (result : CompletedProcess) :
    statusOf result = .pass ↔
      result.returncode = 0 ∧ ¬ Mentions markers (result.stdout ++ result.stderr) := by
  simp only [statusOf, Mentions, markers, List.mem_cons, List.not_mem_nil, or_false,
    exists_eq_or_imp, exists_eq_left]
  split_ifs <;> simp_all

/-- No marker has a space, and none a line end. -/
theorem space : Opens markers " " ∧ Closes markers " " := by decide

theorem newline : Opens markers "\n" ∧ Closes markers "\n" := by decide

theorem not_marked_empty : ¬ Mentions markers "" := by decide

/-- The texts an invocation prints: they come from the command line, the environment and
the configuration. -/
def echoed (site : Site) (args : Args) : List String :=
  site.scriptPath :: site.unset.map (·.2) ++ (getBaseSimulationOpt site args).getD [] ++
    ((jobs site args).getD []).flatMap fun j => j.test :: j.ownTexts site args

/-! ### What is printed -/

section Printed

variable {site : Site} {args : Args} {world : World}

theorem marked_unset {var default : String} (h : (var, default) ∈ site.unset) :
    Mentions markers ("[WARN] " ++ var ++ " not set, using: " ++ default) ↔
      Mentions markers default := by
  have hvar : var ∈ ["VERIFY_HOME", "TESTPLAN_HOME", "TOOLS_HOME", "VCS_HOME", "VERDI_HOME"] := by
    have hmem := List.mem_map_of_mem (f := Prod.fst) (List.mem_of_mem_filter h)
    simpa [Site.envDefaults] using hmem
  have hnames : ∀ name ∈ ["VERIFY_HOME", "TESTPLAN_HOME", "TOOLS_HOME", "VCS_HOME", "VERDI_HOME"],
      ¬ Mentions markers name := by decide +kernel
  rw [mentions_between (by decide +kernel) (by decide +kernel),
    mentions_after (by decide +kernel), or_iff_right (hnames var hvar)]

theorem marked_init (base : List String) :
    (∃ line ∈ (Xrun.init site base).printed, Mentions markers line) ↔
      Mentions markers site.scriptPath ∨ ∃ text ∈ site.unset.map (·.2), Mentions markers text := by
  rw [Xrun.init, List.exists_mem_cons_iff, mentions_after (by decide +kernel)]
  refine or_congr_right ?_
  constructor
  · rintro ⟨line, hline, hmarked⟩
    obtain ⟨⟨var, default⟩, hmem, rfl⟩ := List.mem_map.mp hline
    exact ⟨default, List.mem_map_of_mem hmem, (marked_unset hmem).mp hmarked⟩
  · rintro ⟨text, htext, hmarked⟩
    obtain ⟨⟨var, default⟩, hmem, rfl⟩ := List.mem_map.mp htext
    exact ⟨_, List.mem_map_of_mem hmem, (marked_unset hmem).mpr hmarked⟩

theorem marked_command (opts : List String) (j : Job) :
    Mentions markers (j.command site args opts) ↔
      (∃ text ∈ opts, Mentions markers text) ∨
        ∃ text ∈ j.ownTexts site args, Mentions markers text := by
  rw [Job.command, mentions_intercalate (by decide) (by decide) not_marked_empty]
  simp only [mem_simulationCmd, or_and_right, exists_or]

/-- Of an entry only the name and the seed could be marked. -/
theorem marked_resultEntry (test seed : String) (log : Option String) :
    Mentions markers (resultEntry test seed log) ↔
      Mentions markers test ∨ Mentions markers seed := by
  cases log with
  | none =>
    rw [resultEntry, mentions_before (by decide +kernel), mentions_between space.1 space.2]
  | some log =>
    have hend : ∀ v ∈ verdicts, ¬ Mentions markers
        ((if v.1 = .pass then "\x1b[32;1m" else "\x1b[31;1m") ++ v.1.text ++ " (" ++ v.2 ++
          ")\x1b[0m") := by decide +kernel
    rw [resultEntry, mentions_between space.1 space.2, mentions_between space.1 space.2,
      or_iff_left (hend _ (verdict_mem log))]

theorem not_marked_nat (n : Nat) : ¬ Mentions markers (toString n) := by
  refine not_mentions_of_not_mem (c := 'U') (by decide) fun hmem => ?_
  rw [Nat.toString_eq_ofList_toDigits, String.toList_ofList] at hmem
  exact absurd (Nat.isDigit_of_mem_toDigits (by decide) (by decide) hmem) (by decide)

theorem not_marked_int (n : Int) : ¬ Mentions markers (toString n) := by
  rw [Int.toString_eq_repr, Int.repr_eq_if]
  split_ifs
  · exact not_marked_nat n.toNat
  · rw [mentions_after (by decide +kernel)]
    exact not_marked_nat (-n).toNat

theorem marked_calls (base : List String) (todo : List Job) :
    (∃ call ∈ (simulateAll site args world base todo).calls, Mentions markers call.command) ↔
      (todo ≠ [] ∧ ∃ text ∈ base, Mentions markers text) ∨
        ∃ j ∈ todo, ∃ text ∈ j.ownTexts site args, Mentions markers text := by
  simp only [exists_call_iff, callAt, marked_command, optionsAt, List.mem_append]
  constructor
  · rintro ⟨k, j, hk, ⟨text, hbase | hearlier, hmarked⟩ | hown⟩
    · exact .inl ⟨List.ne_nil_of_mem (List.mem_of_getElem? hk), text, hbase, hmarked⟩
    · obtain ⟨i, hi, hmem⟩ := List.mem_flatMap.mp hearlier
      exact .inr ⟨i, List.mem_of_mem_take hi, text, List.mem_append_right _ hmem, hmarked⟩
    · exact .inr ⟨j, List.mem_of_getElem? hk, hown⟩
  · rintro (⟨hne, text, hbase, hmarked⟩ | ⟨j, hj, hown⟩)
    · obtain ⟨j, rest, rfl⟩ := List.exists_cons_of_ne_nil hne
      exact ⟨0, j, rfl, .inl ⟨text, .inl hbase, hmarked⟩⟩
    · obtain ⟨k, hk⟩ := List.mem_iff_getElem?.mp hj
      exact ⟨k, j, hk, .inr hown⟩

/-- An exit code is printed without a trace of what was wrong. -/
theorem marked_simulate (s : Xrun) (j : Job) :
    (∃ line ∈ (simulate site args world s j).printed, Mentions markers line) ↔
      (∃ line ∈ s.printed, Mentions markers line) ∨
        Mentions markers (callOf site args world s j).command := by
  have hcode : ∀ code : Int,
      ¬ Mentions markers ("[WARN] Simulation exited with code " ++ toString code) := by
    intro code
    rw [mentions_after (by decide +kernel)]
    exact not_marked_int code
  rw [simulate_printed]
  split_ifs
  · simp only [List.mem_append, List.mem_cons, List.not_mem_nil, or_false, or_and_right,
      exists_or, exists_eq_left, hcode]
  · simp only [List.mem_append, List.mem_cons, List.not_mem_nil, or_false, or_and_right,
      exists_or, exists_eq_left]

/-- What was printed so far is marked at its start or in a command, the result log in a name
or a seed. -/
structure EchoesCalls (site : Site) (base : List String) (s : Xrun) : Prop where
  printed : (∃ line ∈ s.printed, Mentions markers line) ↔
    (∃ line ∈ (Xrun.init site base).printed, Mentions markers line) ∨
      ∃ call ∈ s.calls, Mentions markers call.command
  resultlog : Mentions markers s.resultlog ↔
    ∃ call ∈ s.calls, Mentions markers call.test ∨ Mentions markers call.seed

theorem simulate_echoesCalls {base : List String} (s : Xrun) (j : Job)
    (hs : EchoesCalls site base s) : EchoesCalls site base (simulate site args world s j) where
  printed := by
    rw [marked_simulate, hs.printed, simulate_calls]
    simp only [List.mem_append, List.mem_singleton, or_and_right, exists_or, exists_eq_left,
      or_assoc]
  resultlog := by
    rw [simulate_resultlog, ← String.append_assoc, mentions_between newline.1 newline.2,
      hs.resultlog, marked_resultEntry, simulate_calls]
    simp only [List.mem_append, List.mem_singleton, or_and_right, exists_or, exists_eq_left]
    rfl

theorem echoesCalls (base : List String) (todo : List Job) :
    EchoesCalls site base (simulateAll site args world base todo) :=
  run_invariant simulate_echoesCalls
    { printed := by simp [Xrun.init]
      resultlog := by simpa [Xrun.init] using space.1.2 }
    todo

theorem marked_tests (base : List String) (todo : List Job)
    (hseed : ∀ k, ¬ Mentions markers (seedGen args (world.randint k))) :
    (∃ call ∈ (simulateAll site args world base todo).calls,
      Mentions markers call.test ∨ Mentions markers call.seed) ↔
        ∃ j ∈ todo, Mentions markers j.test := by
  simp only [exists_call_iff, callAt, hseed, or_false]
  constructor
  · rintro ⟨k, j, hk, hmarked⟩
    exact ⟨j, List.mem_of_getElem? hk, hmarked⟩
  · rintro ⟨j, hj, hmarked⟩
    obtain ⟨k, hk⟩ := List.mem_iff_getElem?.mp hj
    exact ⟨k, j, hk, hmarked⟩

theorem marked_echoed {base : List String} {todo : List Job}
    (hbase : getBaseSimulationOpt site args = some base) (htodo : jobs site args = some todo) :
    (∃ text ∈ echoed site args, Mentions markers text) ↔
      ((Mentions markers site.scriptPath ∨ ∃ text ∈ site.unset.map (·.2), Mentions markers text) ∨
        ∃ text ∈ base, Mentions markers text) ∨
      (∃ j ∈ todo, ∃ text ∈ j.ownTexts site args, Mentions markers text) ∨
        ∃ j ∈ todo, Mentions markers j.test := by
  have hjobs : (∃ text ∈ todo.flatMap fun j => j.test :: j.ownTexts site args,
      Mentions markers text) ↔
        ∃ j ∈ todo, Mentions markers j.test ∨ ∃ text ∈ j.ownTexts site args,
          Mentions markers text := by
    simp only [List.mem_flatMap, ← List.exists_mem_cons_iff (Mentions markers)]
    constructor
    · rintro ⟨text, ⟨j, hj, htext⟩, hmarked⟩
      exact ⟨j, hj, text, htext, hmarked⟩
    · rintro ⟨j, hj, text, htext, hmarked⟩
      exact ⟨text, ⟨j, hj, htext⟩, hmarked⟩
  simp only [echoed, hbase, htodo, Option.getD_some, List.mem_append, or_and_right, exists_or]
  rw [hjobs, List.exists_mem_cons_iff]
  simp only [and_or_left, exists_or]
  rw [or_comm (b := ∃ j ∈ todo, Mentions markers j.test)]

/-- **What xrun prints is marked iff one of the texts it echoes is.** No log is among them. -/
theorem marked_stdout_iff {r : Xrun} {todo : List Job} (h : doSimulation site args world = some r)
    (htodo : jobs site args = some todo) (hne : todo ≠ [])
    (hseed : ∀ k, ¬ Mentions markers (seedGen args (world.randint k))) :
    Mentions markers r.stdout ↔ ∃ text ∈ echoed site args, Mentions markers text := by
  obtain ⟨base, todo', hbase, htodo', rfl⟩ := doSimulation_eq_some_iff.mp h
  obtain rfl : todo = todo' := Option.some.inj (htodo.symm.trans htodo')
  have hlast : Mentions markers
      (title ++ "\n" ++ (simulateAll site args world base todo).resultlog) ↔
        Mentions markers (simulateAll site args world base todo).resultlog :=
    mentions_after (by decide +kernel)
  rw [Xrun.stdout, mentions_unlines newline.1 newline.2 not_marked_empty, printResultLog,
    printLog_printed, marked_echoed hbase htodo]
  simp only [List.mem_append, List.mem_singleton, or_and_right, exists_or, exists_eq_left]
  rw [hlast, (echoesCalls base todo).resultlog, marked_tests base todo hseed,
    (echoesCalls base todo).printed, marked_init, marked_calls, and_iff_right hne, ← or_assoc,
    or_assoc]

end Printed

/-! ### What is recorded -/

/-- **Verdict propagation**: the status recorded for the test agrees with what
`CheckSimLog` made of each of its simulations. -/
def Propagates (r : Xrun) (recorded : RecordStatus) : Prop :=
  ∀ call ∈ r.calls, (logStatus call.log ≠ .pass → recorded ≠ .pass) ∧
    (logStatus call.log = .pass → recorded = .pass)

section Recorded

variable {site : Site} {opts : Opts} {group tname : String} {draw : Fin (2 ^ 16 + 1)}
  {world : World} {args : Args} {r : Xrun}

theorem Caller.args_eq_some {caller : Caller} {seed : Int}
    (h : caller.args opts group tname seed = some args) :
    args.grouplib = some group ∧ args.testlib = some tname ∧
      args.seed = some (toString seed) ∧ 1 ≤ args.iterationNum := by
  cases caller with
  | runGroup =>
    simp only [Caller.args, runGroupArgs] at h
    split at h
    · cases h
    · obtain rfl := Option.some.inj h
      refine ⟨rfl, rfl, rfl, ?_⟩
      dsimp only
      split_ifs with hn
      · exact hn.le
      · exact le_rfl
  | runOne =>
    obtain rfl := Option.some.inj h
    exact ⟨rfl, rfl, rfl, le_rfl⟩

theorem not_marked_seedGen {seed : Int} (h : args.seed = some (toString seed))
    (draw : Fin (2 ^ 16 + 1)) : ¬ Mentions markers (seedGen args draw) := by
  unfold seedGen
  rw [h]
  dsimp only
  split_ifs
  · exact not_marked_nat draw.val
  · exact not_marked_int seed

/-- **A test is recorded as passed iff nothing xrun echoes is marked**, whatever the logs
and exit codes of its simulations are. -/
theorem recorded_pass_iff {caller : Caller}
    (hargs : caller.args opts group tname (opts.drawSeed draw) = some args)
    (hrun : doSimulation site args world = some r) :
    (caller.record site opts group tname draw world).status = .pass ↔
      ¬ ∃ text ∈ echoed site args, Mentions markers text := by
  obtain ⟨hgroup, htest, hseed, hnum⟩ := Caller.args_eq_some hargs
  obtain ⟨base, todo, hbase, htodo, -⟩ := doSimulation_eq_some_iff.mp hrun
  have hlength := length_jobs hgroup htest htodo
  have hne : todo ≠ [] := by
    rintro rfl
    rw [List.length_nil] at hlength
    omega
  have hstdout := marked_stdout_iff hrun htodo hne fun k => not_marked_seedGen hseed _
  rw [← hstdout, Caller.record]
  dsimp only
  rw [hargs, runXrun, hrun, statusOf_eq_pass_iff]
  simp

/-- **The verdicts reach the record iff each simulation passes just when nothing echoed is
marked.** -/
theorem propagates_iff {caller : Caller}
    (hargs : caller.args opts group tname (opts.drawSeed draw) = some args)
    (hrun : doSimulation site args world = some r) :
    Propagates r (caller.record site opts group tname draw world).status ↔
      ∀ k < args.iterationNum.toNat, (logStatus (world.simv k).log = .pass ↔
        ¬ ∃ text ∈ echoed site args, Mentions markers text) := by
  obtain ⟨hgroup, htest, -, -⟩ := Caller.args_eq_some hargs
  obtain ⟨base, todo, -, htodo, rfl⟩ := doSimulation_eq_some_iff.mp hrun
  have hagree : ∀ status : Status, (status ≠ .pass →
      (caller.record site opts group tname draw world).status ≠ .pass) ∧
        (status = .pass → (caller.record site opts group tname draw world).status = .pass) ↔
          (status = .pass ↔ ¬ ∃ text ∈ echoed site args, Mentions markers text) := by
    intro status
    rw [← recorded_pass_iff hargs hrun, not_imp_not, and_comm]
    exact iff_iff_implies_and_implies.symm
  have hcalls : Propagates (printResultLog (simulateAll site args world base todo))
      (caller.record site opts group tname draw world).status ↔
        ∀ call ∈ (simulateAll site args world base todo).calls, (logStatus call.log = .pass ↔
          ¬ ∃ text ∈ echoed site args, Mentions markers text) :=
    forall₂_congr fun call _ => hagree (logStatus call.log)
  rw [hcalls, forall_calls_iff, ← length_jobs hgroup htest htodo]
  constructor
  · intro h k hk
    exact h k todo[k] (List.getElem?_eq_getElem hk)
  · intro h k j hk
    exact h k (List.getElem?_eq_some_iff.mp hk).1

end Recorded

/-! ### One test -/

theorem echoed_small : ¬ ∃ text ∈ echoed smallSite (smallArgs "7"), Mentions markers text := by
  decide +kernel

/-- Both callers ask for one simulation of the test. -/
theorem Caller.args_small (caller : Caller) (draw : Fin (2 ^ 16 + 1)) :
    caller.args { seed := some 7 } "T1" "reg_rw_test" (Opts.drawSeed { seed := some 7 } draw) =
      some (smallArgs "7") := by
  cases caller <;> rfl

theorem logStatus_passed : logStatus (some "UVM TEST PASSED") = .pass := by decide +kernel

/-- A test that passes is recorded as passed. -/
theorem propagates_passed :
    Propagates
      (printResultLog (simulateAll smallSite (smallArgs "7") (worldOf 0 (some "UVM TEST PASSED"))
        (defaultSimulationOpt (smallArgs "7")) [smallJob]))
      (Caller.record .runOne smallSite { seed := some 7 } "T1" "reg_rw_test" 0
        (worldOf 0 (some "UVM TEST PASSED"))).status :=
  (propagates_iff (Caller.args_small .runOne 0)
    (doSimulation_small "7" (worldOf 0 (some "UVM TEST PASSED")))).mpr
      fun _ _ => iff_of_true logStatus_passed echoed_small

/-- A test whose log has errors, and whose simulator gave up, is recorded as passed. -/
theorem error_not_propagated :
    ∃ r, doSimulation smallSite (smallArgs "7")
        (worldOf 1 (some "UVM_ERROR @ 0: reporter [SB] mismatch")) = some r ∧
      (∃ call ∈ r.calls, logStatus call.log = .fail) ∧
      ∀ caller : Caller,
        (caller.record smallSite { seed := some 7 } "T1" "reg_rw_test" 0
          (worldOf 1 (some "UVM_ERROR @ 0: reporter [SB] mismatch"))).status = .pass ∧
        ¬ Propagates r (caller.record smallSite { seed := some 7 } "T1" "reg_rw_test" 0
          (worldOf 1 (some "UVM_ERROR @ 0: reporter [SB] mismatch"))).status := by
  have hlog : logStatus (some "UVM_ERROR @ 0: reporter [SB] mismatch") = .fail := by
    decide +kernel
  have hfail : ∃ call ∈ (simulateAll smallSite (smallArgs "7")
      (worldOf 1 (some "UVM_ERROR @ 0: reporter [SB] mismatch"))
      (defaultSimulationOpt (smallArgs "7")) [smallJob]).calls, logStatus call.log = .fail :=
    exists_call_iff.mpr ⟨0, smallJob, rfl, hlog⟩
  refine ⟨_, doSimulation_small "7" _, hfail, fun caller => ?_⟩
  have hpass := (recorded_pass_iff (Caller.args_small caller 0) (doSimulation_small "7"
    (worldOf 1 (some "UVM_ERROR @ 0: reporter [SB] mismatch")))).mpr echoed_small
  refine ⟨hpass, fun h => ?_⟩
  obtain ⟨call, hcall, hstatus⟩ := hfail
  exact (h call hcall).1 (by rw [hstatus]; decide) hpass

end Testbench.Run
