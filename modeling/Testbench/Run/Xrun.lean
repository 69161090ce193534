import Testbench.Lib.Lists
import Testbench.Lib.Run
import Testbench.Lib.Text

/-!
`run/xrun -s`: one simulation after the other, from the command to the result log.

`lookups` are the simulations an invocation asks for, one by one, `simulate` runs one of them
and `simulateLoop` goes through them until one raises: a name is not in `testdb`, or a
simulation is not through in time. `doSimulation` is the whole of `DoSimulation`, and `none`
when it raises: nothing is written to the regression log then.

What a simulation does outside the script is an input: `World` has the exit code and the log
of each one, and the random draws.
-/

namespace Testbench.Run

open Testbench.Lib

/-- A test of `test.json`, key by key. -/
abbrev TestEntry := List (String × String)

/-- The machine xrun is started on. -/
structure Site where
  /-- The directory of the script, links resolved. -/
  scriptPath : String
  environ : String → Option String
  /-- The tests of each group directory, in the order of `os.walk`, variables expanded. -/
  testdb : List (String × List (String × TestEntry))
  /-- The lines of a file without their line ends, if there is such a file. -/
  readlines : String → Option (List String)

/-- The command line. Of `-g` and `-t` only the first name is read. -/
structure Args where
  grouplib : Option String := none
  testlib : Option String := none
  iterationNum : Int := 1
  cov : Bool := false
  seed : Option String := none
  simcfg : Option String := none
  wavetcl : Option String := none

/-- What the simulator leaves behind. -/
structure Simulation where
  exitCode : Int
  log : Option String

/-- Everything outside the script that a run of it depends on, by number of the simulation. -/
structure World where
  randint : Nat → Fin (2 ^ 16 + 1)
  simv : Nat → Simulation

/-! ### Environment -/

/-- `os.path.dirname` -/
def dirname (path : String) : String :=
  let head := path.toList.rdropWhile (· ≠ '/')
  if head.all (· = '/') then .ofList head else .ofList (head.rdropWhile (· = '/'))

/-- `os.path.join` with a relative second part -/
def joinPath (path part : String) : String :=
  if path.toList.getLast? = none ∨ path.toList.getLast? = some '/' then path ++ part
  else path ++ "/" ++ part

namespace Site

def verifyHome (site : Site) : String := dirname site.scriptPath

def envDefaults (site : Site) : List (String × String) :=
  [("VERIFY_HOME", site.verifyHome),
   ("TESTPLAN_HOME", joinPath site.verifyHome "testplan"),
   ("TOOLS_HOME", joinPath site.verifyHome "tools"),
   ("VCS_HOME", joinPath site.verifyHome "vcs"),
   ("VERDI_HOME", joinPath site.verifyHome "verdi")]

/-- The variables that `GetEnv` sets itself. -/
def unset (site : Site) : List (String × String) :=
  site.envDefaults.filter fun (var, _) => (site.environ var).isNone

def tbHome (site : Site) : String := (site.environ "VERIFY_HOME").getD site.verifyHome

def buildHome (site : Site) : String := site.tbHome ++ "/build"

def cfgHome (site : Site) : String := site.tbHome ++ "/cfg"

def coverageHome (site : Site) : String := site.tbHome ++ "/coverage"

def coverageResultDir (site : Site) : String := site.coverageHome ++ "/coverage_result"

/-- The last group that has the test. -/
def matchGroupAccordingToCase (site : Site) (test : String) : Option String :=
  (site.testdb.filter fun group => group.2.any (·.1 == test)).getLast?.map (·.1)

/-- `ReadCfgFile`: the lines that are no comments. -/
def readCfgFile (site : Site) (path : String) : Option (List String) :=
  (site.readlines path).map fun lines => lines.filter fun line =>
    line.toList.take 2 ≠ ['/', '/'] ∧ line.toList.take 1 ≠ ['#']

end Site

/-! ### Options -/

/-- The options without a `sim_base.cfg`. -/
def defaultSimulationOpt (args : Args) : List String :=
  ["-l sim.log",
   "+UVM_VERBOSITY=UVM_MEDIUM",
   "+UVM_TIMEOUT=\"100000000ps,YES\"",
   "+fsdb+all",
   "+vcs+ignorestop",
   "+vcs+loopreport+2",
   "+vcs+loopdetect",
   "-reportstats",
   "+RANDOM_SEED=1 +ntb_random_seed=1"] ++
  if args.wavetcl = none then ["-ucli -do $\x7bVERIFY_HOME\x7d/tcl/wave.tcl"] else []

/-- `GetBaseSimulationOpt`. An additional file that does not exist raises. -/
def getBaseSimulationOpt (site : Site) (args : Args) : Option (List String) := do
  let base := (site.readCfgFile (site.cfgHome ++ "/sim_base.cfg")).getD (defaultSimulationOpt args)
  let cov :=
    if args.cov then
      (site.readCfgFile (site.cfgHome ++ "/coverage.cfg")).getD
        ["-cm line+cond+fsm+tgl+branch+assert"]
    else []
  let additional ← match args.simcfg with
    | none => some []
    | some simcfg => site.readCfgFile (site.tbHome ++ "/" ++ simcfg)
  return base ++ cov ++ additional

/-! ### Jobs -/

/-- One simulation `DoSimulation` is to run. -/
structure Job where
  /-- The directory of the simulation under `build`. -/
  home : String
  group : String
  test : String
  uvmTestname : String
  simArgs : String
  ucli : String

/-- The lookups in `testdb` for one simulation. A missing key raises. -/
def job (site : Site) (args : Args) (home group test : String) : Option Job := do
  let tests ← site.testdb.lookup group
  let entry ← tests.lookup test
  let uvmTestname ← entry.lookup "uvm_testname"
  let simArgs ← entry.lookup "sim_args"
  let ucli ← match args.wavetcl with
    | none => (entry.lookup "tcl").map ("-ucli -do " ++ ·)
    | some wavetcl => some ("-ucli -do $\x7bVERIFY_HOME\x7d/" ++ wavetcl)
  return { home, group, test, uvmTestname, simArgs, ucli }

/-- The simulations of the three modes of `DoSimulation`, in order. A lookup that raises when
the loops get to it is `none`. -/
def lookups (site : Site) (args : Args) : List (Option Job) :=
  let iterations := List.range args.iterationNum.toNat
  match args.grouplib, args.testlib with
  | none, none => [none]
  | none, some test => iterations.map fun _ => do
      let group ← site.matchGroupAccordingToCase test
      job site args test group test
  | some group, none => iterations.flatMap fun _ =>
      (site.testdb.lookup group).elim [none] fun tests =>
        tests.map fun (test, _) => job site args group group test
  | some group, some test => iterations.map fun _ => job site args group group test

/-- The simulations of an invocation none of whose lookups raises. -/
def jobs (site : Site) (args : Args) : Option (List Job) := (lookups site args).mapM id

theorem jobs_eq_some_iff {site : Site} {args : Args} {todo : List Job} :
    jobs site args = some todo ↔ lookups site args = todo.map some := mapM_id_eq_some_iff

/-- A job is what one of the lookups gives. -/
theorem mem_lookups {site : Site} {args : Args} {todo : List Job} {j : Job}
    (h : jobs site args = some todo) (hj : j ∈ todo) : some j ∈ lookups site args := by
  rw [jobs_eq_some_iff.mp h]
  exact List.mem_map_of_mem hj

/-- With `-g` and `-t` there is one simulation each iteration. -/
theorem length_jobs {site : Site} {args : Args} {group test : String} {todo : List Job}
    (hgroup : args.grouplib = some group) (htest : args.testlib = some test)
    (h : jobs site args = some todo) : todo.length = args.iterationNum.toNat := by
  have hlength := congrArg List.length (jobs_eq_some_iff.mp h)
  simp only [lookups, hgroup, htest, List.length_map, List.length_range] at hlength
  exact hlength.symm

/-! ### Verdicts on a log -/

inductive Status where
  | pass
  | fail
  | exception
  deriving DecidableEq, Repr

def Status.text : Status → String
  | .pass => "PASS"
  | .fail => "FAIL"
  | .exception => "EXCEPTION"

/-- Status and reason `CheckSimLog` reads off a log. -/
def verdict (log : String) : Status × String :=
  let hasFatal := Occurs "UVM_FATAL" log
  let hasError := Occurs "UVM_ERROR" log
  let hasPassed := Occurs "UVM TEST PASSED" log
  let hasFailed := Occurs "UVM TEST FAILED" log
  let hasTimeout := Occurs "UVM TIMEOUT" log
  let hasExit := Occurs "$finish" log ∧ ¬ hasPassed ∧ ¬ hasFailed
  if hasTimeout then (.fail, "TIMEOUT")
  else if hasFatal then (.fail, "FATAL")
  else if hasError then (.fail, "ERROR")
  else if hasFailed ∧ ¬ hasPassed then (.fail, "FAILED")
  else if hasPassed then (.pass, "")
  else if hasExit then (.exception, "no PASS/FAIL")
  else (.exception, "incomplete log")

/-- The verdicts there are. -/
def verdicts : List (Status × String) :=
  [(.fail, "TIMEOUT"), (.fail, "FATAL"), (.fail, "ERROR"), (.fail, "FAILED"), (.pass, ""),
   (.exception, "no PASS/FAIL"), (.exception, "incomplete log")]

theorem verdict_mem (log : String) : verdict log ∈ verdicts := by
  unfold verdict
  dsimp only
  split_ifs <;> simp [verdicts]

/-- The status of a simulation, with or without a log. -/
def logStatus : Option String → Status
  | none => .exception
  | some log => (verdict log).1

/-- A line of the result log. -/
def resultEntry (test seed : String) : Option String → String
  | none => test ++ " " ++ seed ++ " \x1b[31;1m EXCEPTION (no log) \x1b[0m"
  | some log =>
      let (status, reason) := verdict log
      let color := if status = .pass then "\x1b[32;1m" else "\x1b[31;1m"
      test ++ " " ++ seed ++ " " ++ (color ++ status.text ++ " (" ++ reason ++ ")\x1b[0m")

/-- A line of the regression log. -/
def regressionEntry (test seed : String) : Option String → String
  | none => test ++ " " ++ seed ++ " EXCEPTION (no log)"
  | some log =>
      let (status, reason) := verdict log
      test ++ " " ++ seed ++ " " ++ (status.text ++ " (" ++ reason ++ ")")

/-! ### A run of the script -/

/-- A simulation that was run, with the command that ran it. -/
structure Call where
  test : String
  seed : String
  command : String
  log : Option String

/-- The object of the script; `printed` is its output so far and `calls` its history. -/
structure Xrun where
  baseSimulationOpt : List String
  resultlog : String
  regressionlog : String
  printed : List String
  calls : List Call

namespace Xrun

def printLog (s : Xrun) (line : String) : Xrun := { s with printed := s.printed ++ [line] }

/-- The object before the loops of `DoSimulation`, with the options it has read. -/
def init (site : Site) (base : List String) : Xrun where
  baseSimulationOpt := base
  resultlog := " "
  regressionlog := " "
  printed := ("[Script Path]: " ++ site.scriptPath) ::
    site.unset.map fun (var, default) => "[WARN] " ++ var ++ " not set, using: " ++ default
  calls := []

/-- The regression log has one entry for each simulation, in order. -/
def LogsCalls (s : Xrun) : Prop :=
  s.regressionlog = " " ++ String.join
    (s.calls.map fun call => "\n" ++ regressionEntry call.test call.seed call.log)

/-- What the script prints, line by line, as one text. -/
def stdout (s : Xrun) : String := unlines s.printed

end Xrun

/-- `SeedGen`, for the number drawn when no seed is given. -/
def seedGen (args : Args) (draw : Fin (2 ^ 16 + 1)) : String :=
  match args.seed with
  | some seed => if seed = "" then toString draw.val else seed
  | none => toString draw.val

namespace Job

def compileDir (site : Site) (j : Job) : String := site.buildHome ++ "/" ++ j.home ++ "/comp"

/-- The coverage option of one simulation. -/
def coverageOpt (site : Site) (args : Args) (j : Job) : List String :=
  if args.cov then
    ["-cm dir " ++ (site.coverageResultDir ++ "/" ++ j.group ++ "/" ++ j.test ++ ".vdb")]
  else []

/-- What a simulation adds to the base options for good. -/
def keptOpt (site : Site) (args : Args) (j : Job) : List String :=
  j.coverageOpt site args ++ [j.ucli]

/-- What the job itself brings into its command. -/
def ownTexts (site : Site) (args : Args) (j : Job) : List String :=
  [j.compileDir site ++ "/simv", "+UVM_TESTNAME=" ++ j.uvmTestname, j.simArgs] ++
    j.keptOpt site args

/-- `Simulation_CMD` -/
def simulationCmd (site : Site) (args : Args) (base : List String) (j : Job) : List String :=
  (j.compileDir site ++ "/simv") :: ("+UVM_TESTNAME=" ++ j.uvmTestname) ::
    (base ++ j.coverageOpt site args ++ [j.simArgs, j.ucli])

/-- The command line handed to the shell. -/
def command (site : Site) (args : Args) (base : List String) (j : Job) : String :=
  " \\\n".intercalate (j.simulationCmd site args base)

end Job

def runSimCmd (site : Site) (args : Args) (exitCode : Int) (s : Xrun) (j : Job) : Xrun :=
  let s := s.printLog (j.command site args s.baseSimulationOpt)
  let s := if exitCode ≠ 0 then
      s.printLog ("[WARN] Simulation exited with code " ++ toString exitCode)
    else s
  { s with baseSimulationOpt := s.baseSimulationOpt ++ j.keptOpt site args }

def checkSimLog (test seed : String) (log : Option String) (s : Xrun) : Xrun :=
  { s with
    resultlog := s.resultlog ++ ("\n" ++ resultEntry test seed log)
    regressionlog := s.regressionlog ++ ("\n" ++ regressionEntry test seed log) }

/-- The simulation a job asks for, in the state it is run in. -/
def callOf (site : Site) (args : Args) (world : World) (s : Xrun) (j : Job) : Call where
  test := j.test
  seed := seedGen args (world.randint s.calls.length)
  command := j.command site args s.baseSimulationOpt
  log := (world.simv s.calls.length).log

/-- One round of the loops of `DoSimulation`. -/
def simulate (site : Site) (args : Args) (world : World) (s : Xrun) (j : Job) : Xrun :=
  let call := callOf site args world s j
  let s' := runSimCmd site args (world.simv s.calls.length).exitCode s j
  { checkSimLog call.test call.seed call.log s' with calls := s.calls ++ [call] }

/-- `RunSimCmd`, when the simulation is not through after `timeout` seconds: `subprocess.run`
raises. -/
def expire (site : Site) (args : Args) (world : World) (s : Xrun) (j : Job) : Xrun :=
  let call := callOf site args world s j
  { s.printLog call.command with
    baseSimulationOpt := s.baseSimulationOpt ++ j.coverageOpt site args
    calls := s.calls ++ [call] }

/-- How the loops of `DoSimulation` end. -/
structure Ended where
  state : Xrun
  raised : Bool

/-- The loops of `DoSimulation`, from an object on. `expires` are the simulations that are not
through in time. -/
def simulateLoop (site : Site) (args : Args) (world : World) (expires : Nat → Bool) (s : Xrun) :
    List (Option Job) → Ended
  | [] => { state := s, raised := false }
  | none :: _ => { state := s, raised := true }
  | some j :: todo =>
      if expires s.calls.length then { state := expire site args world s j, raised := true }
      else simulateLoop site args world expires (simulate site args world s j) todo

def title : String :=
  "\n************************************************************" ++
  "\n**     Regression Result Log                              **" ++
  "\n************************************************************"

def printResultLog (s : Xrun) : Xrun := s.printLog (title ++ "\n" ++ s.resultlog)

/-- The loops of `DoSimulation` through all of these jobs. -/
def simulateAll (site : Site) (args : Args) (world : World) (base : List String)
    (todo : List Job) : Xrun :=
  run (simulate site args world) (Xrun.init site base) todo

/-- `DoSimulation` up to `PrintResultLog`. -/
def doLoops (site : Site) (args : Args) (world : World) (expires : Nat → Bool) : Ended :=
  match getBaseSimulationOpt site args with
  | none => { state := Xrun.init site [], raised := true }
  | some base =>
      simulateLoop site args world expires (Xrun.init site base) (lookups site args)

/-- **`xrun -s`, when it does not raise** and every simulation is through in time. -/
def doSimulation (site : Site) (args : Args) (world : World) : Option Xrun :=
  let ended := doLoops site args world fun _ => false
  if ended.raised then none else some (printResultLog ended.state)

/-! ### What one simulation adds -/

section Step

variable (site : Site) (args : Args) (world : World) (s : Xrun) (j : Job)

@[simp] theorem printLog_printed (line : String) :
    (s.printLog line).printed = s.printed ++ [line] := rfl

@[simp] theorem simulate_baseSimulationOpt :
    (simulate site args world s j).baseSimulationOpt =
      s.baseSimulationOpt ++ j.keptOpt site args := by
  unfold simulate runSimCmd
  dsimp only [checkSimLog]
  split <;> rfl

@[simp] theorem simulate_calls :
    (simulate site args world s j).calls = s.calls ++ [callOf site args world s j] := rfl

theorem simulate_resultlog :
    (simulate site args world s j).resultlog =
      s.resultlog ++ ("\n" ++ resultEntry j.test (callOf site args world s j).seed
        (callOf site args world s j).log) := by
  unfold simulate runSimCmd
  dsimp only [checkSimLog]
  split <;> rfl

theorem simulate_regressionlog :
    (simulate site args world s j).regressionlog =
      s.regressionlog ++ ("\n" ++ regressionEntry j.test (callOf site args world s j).seed
        (callOf site args world s j).log) := by
  unfold simulate runSimCmd
  dsimp only [checkSimLog]
  split <;> rfl

/-- The command is printed, and after it an exit code that is not zero. -/
theorem simulate_printed :
    (simulate site args world s j).printed =
      s.printed ++ (callOf site args world s j).command ::
        if (world.simv s.calls.length).exitCode ≠ 0 then
          ["[WARN] Simulation exited with code " ++
            toString (world.simv s.calls.length).exitCode]
        else [] := by
  unfold simulate runSimCmd
  dsimp only [checkSimLog]
  split
  · exact List.append_assoc _ _ _
  · rfl

end Step

/-! ### What an invocation adds up to -/

section Invocation

variable {site : Site} {args : Args} {world : World} {base : List String} {todo : List Job}
  {r : Xrun}

/-- One round more of the loops, without an exception. -/
theorem simulateLoop_cons_eq_iff {expires : Nat → Bool} {s : Xrun} {look : Option Job}
    {found : List (Option Job)} :
    simulateLoop site args world expires s (look :: found) = { state := r, raised := false } ↔
      ∃ j, look = some j ∧ expires s.calls.length = false ∧
        simulateLoop site args world expires (simulate site args world s j) found =
          { state := r, raised := false } := by
  cases look with
  | none => simp [simulateLoop]
  | some j =>
    rw [simulateLoop]
    split_ifs with hexpires <;> simp [hexpires]

/-- **The loops end without an exception iff each lookup finds a job and each simulation is
through in time.** -/
theorem simulateLoop_eq_iff {expires : Nat → Bool} {s : Xrun} {found : List (Option Job)} :
    simulateLoop site args world expires s found = { state := r, raised := false } ↔
      ∃ todo : List Job, found = todo.map some ∧
        (∀ k < todo.length, expires (s.calls.length + k) = false) ∧
        run (simulate site args world) s todo = r := by
  induction found generalizing s with
  | nil => simp [simulateLoop]
  | cons look found ih =>
    have hcount : ∀ j k, (simulate site args world s j).calls.length + k =
        s.calls.length + (k + 1) := by
      intro j k
      rw [simulate_calls, List.length_append, List.length_singleton]
      omega
    rw [simulateLoop_cons_eq_iff]
    constructor
    · rintro ⟨j, rfl, hnow, hloop⟩
      obtain ⟨todo, rfl, htime, hrun⟩ := ih.mp hloop
      refine ⟨j :: todo, rfl, fun k hk => ?_, hrun⟩
      cases k with
      | zero => exact hnow
      | succ k =>
        rw [← hcount j]
        exact htime k (Nat.lt_of_succ_lt_succ hk)
    · rintro ⟨todo, htodo, htime, hrun⟩
      obtain ⟨j, todo, rfl, hj, rfl⟩ := List.map_eq_cons_iff.mp htodo.symm
      refine ⟨j, hj.symm, htime 0 (Nat.zero_lt_succ _), ih.mpr ⟨todo, rfl, fun k hk => ?_, hrun⟩⟩
      rw [hcount]
      exact htime (k + 1) (Nat.succ_lt_succ hk)

/-- So do those of an invocation whose options are found. -/
theorem doLoops_eq_iff {expires : Nat → Bool} :
    doLoops site args world expires = { state := r, raised := false } ↔
      ∃ base todo, getBaseSimulationOpt site args = some base ∧ jobs site args = some todo ∧
        (∀ k < todo.length, expires k = false) ∧ simulateAll site args world base todo = r := by
  unfold doLoops
  simp only [jobs_eq_some_iff]
  cases hbase : getBaseSimulationOpt site args with
  | none => simp
  | some base =>
    rw [simulateLoop_eq_iff]
    simp [Xrun.init, simulateAll]

theorem doSimulation_eq_some_iff :
    doSimulation site args world = some r ↔
      ∃ base todo, getBaseSimulationOpt site args = some base ∧ jobs site args = some todo ∧
        printResultLog (simulateAll site args world base todo) = r := by
  have hended : doSimulation site args world = some r ↔
      ∃ s, doLoops site args world (fun _ => false) = { state := s, raised := false } ∧
        printResultLog s = r := by
    unfold doSimulation
    rcases doLoops site args world fun _ => false with ⟨s, raised⟩
    cases raised <;> simp
  rw [hended]
  simp only [doLoops_eq_iff]
  constructor
  · rintro ⟨s, ⟨base, todo, hbase, htodo, -, rfl⟩, rfl⟩
    exact ⟨base, todo, hbase, htodo, rfl⟩
  · rintro ⟨base, todo, hbase, htodo, rfl⟩
    exact ⟨_, ⟨base, todo, hbase, htodo, fun _ _ => trivial, rfl⟩, rfl⟩

/-- The options in force when the job of that number is run. -/
def optionsAt (site : Site) (args : Args) (base : List String) (todo : List Job) (k : Nat) :
    List String :=
  base ++ (todo.take k).flatMap (Job.keptOpt site args)

theorem calls_eq_trace (todo : List Job) :
    (simulateAll site args world base todo).calls =
      trace (simulate site args world) (callOf site args world) (Xrun.init site base) todo :=
  (run_log (f := Xrun.calls) (simulate_calls site args world) _ todo).trans (List.nil_append _)

theorem length_calls (todo : List Job) :
    (simulateAll site args world base todo).calls.length = todo.length := by
  rw [calls_eq_trace, length_trace]

/-- Every text of a command is an option in force or comes with the job. -/
theorem mem_simulationCmd {site : Site} {args : Args} {opts : List String} {j : Job}
    {text : String} :
    text ∈ j.simulationCmd site args opts ↔ text ∈ opts ∨ text ∈ j.ownTexts site args := by
  simp only [Job.simulationCmd, Job.ownTexts, Job.keptOpt, List.mem_cons, List.mem_append,
    List.not_mem_nil, or_false]
  tauto

/-- The simulation of that number. -/
def callAt (site : Site) (args : Args) (world : World) (base : List String) (todo : List Job)
    (k : Nat) (j : Job) : Call where
  test := j.test
  seed := seedGen args (world.randint k)
  command := j.command site args (optionsAt site args base todo k)
  log := (world.simv k).log

/-- **Each simulation is run with the options of the configuration and those that the
simulations before it have left.** -/
theorem getElem?_calls (k : Nat) :
    (simulateAll site args world base todo).calls[k]? =
      todo[k]?.map (callAt site args world base todo k) := by
  have hopt : (simulateAll site args world base (todo.take k)).baseSimulationOpt =
      optionsAt site args base todo k :=
    run_flatMap (f := Xrun.baseSimulationOpt) (simulate_baseSimulationOpt site args world)
      (Xrun.init site base) (todo.take k)
  have hcount : (simulateAll site args world base (todo.take k)).calls.length =
      (todo.take k).length := length_calls _
  rw [calls_eq_trace, getElem?_trace]
  cases hk : todo[k]? with
  | none => rfl
  | some j =>
    have hlt : k < todo.length := (List.getElem?_eq_some_iff.mp hk).1
    rw [List.length_take, min_eq_left hlt.le] at hcount
    change some (callOf site args world (simulateAll site args world base (todo.take k)) j) = _
    rw [callOf, hcount, hopt]
    rfl

theorem forall_calls_iff {p : Call → Prop} :
    (∀ call ∈ (simulateAll site args world base todo).calls, p call) ↔
      ∀ k j, todo[k]? = some j → p (callAt site args world base todo k j) := by
  constructor
  · intro h k j hk
    refine h _ (List.mem_of_getElem? (i := k) ?_)
    rw [getElem?_calls, hk]
    rfl
  · intro h call hcall
    obtain ⟨k, hk⟩ := List.mem_iff_getElem?.mp hcall
    rw [getElem?_calls] at hk
    obtain ⟨j, hj, rfl⟩ := Option.map_eq_some_iff.mp hk
    exact h k j hj

theorem exists_call_iff {p : Call → Prop} :
    (∃ call ∈ (simulateAll site args world base todo).calls, p call) ↔
      ∃ k j, todo[k]? = some j ∧ p (callAt site args world base todo k j) := by
  have hforall : (∀ call ∈ (simulateAll site args world base todo).calls, ¬ p call) ↔
      ∀ k j, todo[k]? = some j → ¬ p (callAt site args world base todo k j) := forall_calls_iff
  simpa using not_congr hforall

theorem simulate_logsCalls (s : Xrun) (j : Job) (hs : s.LogsCalls) :
    (simulate site args world s j).LogsCalls := by
  unfold Xrun.LogsCalls at hs ⊢
  rw [simulate_regressionlog, simulate_calls, hs, List.map_append, String.join_append,
    String.append_assoc]
  simp [callOf]

theorem logsCalls : (simulateAll site args world base todo).LogsCalls :=
  run_invariant simulate_logsCalls (by simp [Xrun.LogsCalls, Xrun.init]) todo

end Invocation

/-! ### A small tree -/

/-- One group with one test, and no files under `cfg`. -/
def smallSite : Site where
  scriptPath := "/canfd/run"
  environ _ := none
  testdb := [("T1", [("reg_rw_test",
    [("uvm_testname", "reg_rw_test"), ("sim_args", "+UVM_VERBOSITY=UVM_MEDIUM"),
     ("tcl", "/canfd/tcl/wave.tcl")])])]
  readlines _ := none

/-- Its only test. -/
def smallJob : Job where
  home := "T1"
  group := "T1"
  test := "reg_rw_test"
  uvmTestname := "reg_rw_test"
  simArgs := "+UVM_VERBOSITY=UVM_MEDIUM"
  ucli := "-ucli -do /canfd/tcl/wave.tcl"

/-- `-g T1 -t reg_rw_test --seed` -/
def smallArgs (seed : String) : Args :=
  { grouplib := some "T1", testlib := some "reg_rw_test", seed := some seed }

/-- Every simulation ends with this exit code and this log. -/
def worldOf (exitCode : Int) (log : Option String) : World where
  randint _ := 0
  simv _ := { exitCode, log }

theorem doSimulation_small (seed : String) (world : World) :
    doSimulation smallSite (smallArgs seed) world =
      some (printResultLog (simulateAll smallSite (smallArgs seed) world
        (defaultSimulationOpt (smallArgs seed)) [smallJob])) := by
  rfl

end Testbench.Run
