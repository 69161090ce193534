import Testbench.Run.Regression

/-!
`run/regression.py`: the serial and the parallel runner of a group.

`runGroup` starts xrun once for each test and stops at the first one that is not back in
time; `runParallel` catches that and does not pass the repeat count on. What is asked of
both is `required`. They do it for one repetition with a seed that is not 0
(`runnersAgree_iff`).
-/

namespace Testbench.Run

open Testbench.Lib

/-- The options of a regression, all of them. -/
structure RunOpts extends Opts where
  gls : Bool := false
  fsdb : Bool := false

/-- The command line of xrun. -/
structure Invocation extends Args where
  gls : Bool
  fsdb : Bool

/-- A simulation, as xrun is asked for it. -/
structure Simulated where
  group : String
  test : String
  seed : String
  cov : Bool
  gls : Bool
  fsdb : Bool
  deriving DecidableEq

/-- How `subprocess.run` ends once xrun is started: it is back, or it is stopped after two
hours. -/
inductive Outcome where
  | completed (result : CompletedProcess)
  | timeoutExpired

inductive EntryStatus where
  | ended (status : RecordStatus)
  | timeout
  deriving DecidableEq

/-- A dictionary of the results. -/
structure Entry where
  test : String
  group : String
  seed : Int
  status : EntryStatus

/-- What a runner does: the command lines in order, `none` where argparse rejects one, and
the list it returns, `none` when it raises. -/
structure Regression where
  invocations : List (Option Invocation)
  results : Option (List Entry)

/-- The numbers `random.randint(0, 2**16)` has for each repetition of each test. -/
abbrev Draws := String → Nat → Fin (2 ^ 16 + 1)

/-! ### Command lines -/

/-- What argparse takes for a number after a dash. -/
def isNumber (digits : List Char) : Bool :=
  match digits.dropWhile Char.isDigit with
  | [] => digits ≠ []
  | c :: frac => c = '.' ∧ frac ≠ [] ∧ frac.all Char.isDigit

/-- A word that argparse does not take as the name after `-g` or `-t`. -/
def isOption (word : String) : Bool :=
  match word.toList with
  | [] => false
  | c :: rest => c = '-' ∧ rest ≠ [] ∧ ' ' ∉ rest ∧ ¬ isNumber rest

namespace RunOpts

/-- A command line with these names in it; the other arguments are `args`. -/
def call (opts : RunOpts) (group tname : String) (args : Option Args) : Option Invocation :=
  if isOption group ∨ isOption tname then none
  else args.map fun args => { args with gls := opts.gls, fsdb := opts.fsdb }

def runGroupCall (opts : RunOpts) (group tname : String) (seed : Int) : Option Invocation :=
  opts.call group tname (runGroupArgs opts.toOpts group tname seed)

def runOneCall (opts : RunOpts) (group tname : String) (seed : Int) : Option Invocation :=
  opts.call group tname (runOneArgs opts.toOpts group tname seed)

end RunOpts

/-- The simulations a command line asks for. -/
def Invocation.simulations (inv : Invocation) : List Simulated :=
  List.replicate inv.iterationNum.toNat
    { group := inv.grouplib.getD ""
      test := inv.testlib.getD ""
      seed := inv.seed.getD ""
      cov := inv.cov
      gls := inv.gls
      fsdb := inv.fsdb }

def Regression.simulations (r : Regression) : List Simulated :=
  r.invocations.flatMap fun inv => inv.elim [] Invocation.simulations

/-! ### The runners -/

/-- `sorted(tests.keys())` -/
def sortedKeys (tests : List String) : List String :=
  tests.mergeSort fun tname tname' => decide (tname ≤ tname')

/-- The loop of `run_group`. Nothing catches `TimeoutExpired`. -/
def runGroupLoop (opts : RunOpts) (group : String) (draw : Draws) (outcome : String → Outcome) :
    List String → Regression
  | [] => { invocations := [], results := some [] }
  | tname :: tests =>
      let seed := opts.drawSeed (draw tname 0)
      let inv := opts.runGroupCall group tname seed
      match outcome tname with
      | .timeoutExpired => { invocations := [inv], results := none }
      | .completed result =>
          let rest := runGroupLoop opts group draw outcome tests
          let entry : Entry :=
            { test := tname, group := group, seed := seed, status := .ended (statusOf result) }
          { invocations := inv :: rest.invocations
            results := rest.results.map (entry :: ·) }

def runGroup (opts : RunOpts) (group : String) (draw : Draws) (outcome : String → Outcome)
    (tests : List String) : Regression :=
  runGroupLoop opts group draw outcome (sortedKeys tests)

/-- The status of an outcome where the timeout is caught. -/
def Outcome.status : Outcome → EntryStatus
  | .completed result => .ended (statusOf result)
  | .timeoutExpired => .timeout

/-- The dictionary `run_parallel.run_one` returns. -/
def runOne (opts : RunOpts) (group : String) (draw : Draws) (outcome : String → Outcome)
    (tname : String) : Entry where
  test := tname
  group := group
  seed := opts.drawSeed (draw tname 0)
  status := (outcome tname).status

/-- `run_parallel`, with the tests in the order in which their futures complete. -/
def runParallel (opts : RunOpts) (group : String) (draw : Draws) (outcome : String → Outcome)
    (tests completed : List String) : Regression where
  invocations := tests.map fun tname =>
    opts.runOneCall group tname (opts.drawSeed (draw tname 0))
  results := some (completed.map (runOne opts group draw outcome))

/-! ### What is asked of them -/

/-- The seed of a repetition: the given one, else a number drawn for it. -/
def Opts.seedOf (opts : Opts) (draw : Fin (2 ^ 16 + 1)) : Int := opts.seed.getD draw.val

/-- The simulation of a test with a seed. -/
def RunOpts.simulated (opts : RunOpts) (group tname : String) (seed : Int) : Simulated where
  group := group
  test := tname
  seed := toString seed
  cov := opts.cov
  gls := opts.gls
  fsdb := opts.fsdb

/-- Each test as often as asked for. -/
def required (opts : RunOpts) (group : String) (draw : Draws) (tests : List String) :
    List Simulated :=
  tests.flatMap fun tname => (List.range opts.n.toNat).map fun i =>
    opts.simulated group tname (opts.seedOf (draw tname i))

/-- Its status as often. -/
def requiredReport (opts : RunOpts) (outcome : String → Outcome) (tests : List String) :
    List (String × EntryStatus) :=
  tests.flatMap fun tname => List.replicate opts.n.toNat (tname, (outcome tname).status)

/-- A runner returns, and has run and reported what is asked for. -/
structure Regression.Meets (r : Regression) (simulations : List Simulated)
    (report : List (String × EntryStatus)) : Prop where
  simulations_perm : r.simulations.Perm simulations
  report_perm : ∃ results, r.results = some results ∧
    (results.map fun entry => (entry.test, entry.status)).Perm report

/-- **Both runners do what is asked**, for every draw and every order of completion. -/
structure RunnersAgree (opts : RunOpts) (group : String) (tests : List String)
    (outcome : String → Outcome) : Prop where
  serial : ∀ draw, (runGroup opts group draw outcome tests).Meets
    (required opts group draw tests) (requiredReport opts outcome tests)
  parallel : ∀ draw, ∀ completed, completed.Perm tests →
    (runParallel opts group draw outcome tests completed).Meets
      (required opts group draw tests) (requiredReport opts outcome tests)

/-- Two runners that do what is asked run the same simulations and report the same. -/
theorem Regression.Meets.agree {r r' : Regression} {simulations : List Simulated}
    {report : List (String × EntryStatus)} (h : r.Meets simulations report)
    (h' : r'.Meets simulations report) :
    r.simulations.Perm r'.simulations ∧ ∃ results results',
      r.results = some results ∧ r'.results = some results' ∧
        (results.map fun entry => (entry.test, entry.status)).Perm
          (results'.map fun entry => (entry.test, entry.status)) := by
  obtain ⟨results, hresults, hperm⟩ := h.report_perm
  obtain ⟨results', hresults', hperm'⟩ := h'.report_perm
  exact ⟨h.simulations_perm.trans h'.simulations_perm.symm, results, results', hresults, hresults',
    hperm.trans hperm'.symm⟩

section Runners

variable {opts : RunOpts} {group : String} {draw : Draws} {outcome : String → Outcome}
  {tests : List String}

/-! ### One test -/

/-- `run_one` asks for one simulation. -/
theorem simulations_runOneCall (tname : String) (seed : Int) :
    (opts.runOneCall group tname seed).elim [] Invocation.simulations =
      if isOption group ∨ isOption tname then [] else [opts.simulated group tname seed] := by
  unfold RunOpts.runOneCall RunOpts.call runOneArgs
  split_ifs <;> rfl

/-- Without a count the two command lines are the same. -/
theorem runGroupCall_eq_runOneCall (hn : opts.n = 1) (tname : String) (seed : Int) :
    opts.runGroupCall group tname seed = opts.runOneCall group tname seed := by
  have hargs : runGroupArgs opts.toOpts group tname seed =
      runOneArgs opts.toOpts group tname seed := by
    simp [runGroupArgs, runOneArgs, hn]
  unfold RunOpts.runGroupCall RunOpts.runOneCall
  rw [hargs]

/-- A seed that is given and not 0 is the one that is used. -/
theorem drawSeed_eq_seedOf {opts : Opts} (hseed : opts.seed ≠ some 0)
    (draw : Fin (2 ^ 16 + 1)) : opts.drawSeed draw = opts.seedOf draw := by
  unfold Opts.drawSeed Opts.seedOf
  split
  · rename_i seed hsome
    have hne : seed ≠ 0 := by
      rintro rfl
      exact hseed hsome
    rw [hsome, Option.getD_some, if_neg hne]
  · rename_i hnone
    rw [hnone, Option.getD_none]

/-! ### A group -/

theorem sortedKeys_perm (tests : List String) : (sortedKeys tests).Perm tests :=
  List.mergeSort_perm _ _

/-- The loop returns iff each test is back in time. -/
theorem runGroupLoop_results_eq_none_iff :
    (runGroupLoop opts group draw outcome tests).results = none ↔
      ∃ tname ∈ tests, outcome tname = .timeoutExpired := by
  induction tests with
  | nil => simp [runGroupLoop]
  | cons tname tests ih =>
    rw [List.exists_mem_cons_iff, ← ih, runGroupLoop]
    split
    · rename_i hout
      simp [hout]
    · rename_i result hout
      simp [hout]

/-- The loop without a timeout. -/
theorem runGroupLoop_eq (h : ∀ tname ∈ tests, outcome tname ≠ .timeoutExpired) :
    runGroupLoop opts group draw outcome tests =
      { invocations := tests.map fun tname =>
          opts.runGroupCall group tname (opts.drawSeed (draw tname 0))
        results := some (tests.map (runOne opts group draw outcome)) } := by
  induction tests with
  | nil => rfl
  | cons tname tests ih =>
    obtain ⟨hhead, htail⟩ := List.forall_mem_cons.mp h
    rw [runGroupLoop, ih htail]
    cases hout : outcome tname with
    | timeoutExpired => exact absurd hout hhead
    | completed result => simp [runOne, hout, Outcome.status]

/-- What `run_parallel` runs. -/
theorem mem_simulations_runParallel {completed : List String} {sim : Simulated} :
    sim ∈ (runParallel opts group draw outcome tests completed).simulations ↔
      ∃ tname ∈ tests, ¬ (isOption group ∨ isOption tname) ∧
        sim = opts.simulated group tname (opts.drawSeed (draw tname 0)) := by
  unfold Regression.simulations runParallel
  simp only [List.flatMap_map, List.mem_flatMap, simulations_runOneCall]
  refine exists_congr fun tname => and_congr_right fun _ => ?_
  split_ifs with hoption <;> simp [hoption]

/-- Each test has its turn, once. -/
theorem required_one (hn : opts.n = 1) :
    required opts group draw tests = tests.map fun tname =>
      opts.simulated group tname (opts.seedOf (draw tname 0)) := by
  simp [required, hn, List.range_one, ← List.map_eq_flatMap]

theorem requiredReport_one (hn : opts.n = 1) :
    requiredReport opts outcome tests =
      tests.map fun tname => (tname, (outcome tname).status) := by
  simp [requiredReport, hn, ← List.map_eq_flatMap]

theorem length_requiredReport :
    (requiredReport opts outcome tests).length = opts.n.toNat * tests.length := by
  simp [requiredReport, List.length_flatMap, mul_comm]

/-! ### Where they agree -/

/-- One repetition with a proper seed is what both run. -/
theorem simulations_eq_required (hn : opts.n = 1) (hseed : opts.seed ≠ some 0)
    (hgroup : ¬ isOption group) (htests : ∀ tname ∈ tests, ¬ isOption tname) :
    (tests.flatMap fun tname =>
      (opts.runOneCall group tname (opts.drawSeed (draw tname 0))).elim []
        Invocation.simulations) = required opts group draw tests := by
  rw [required_one hn, List.map_eq_flatMap]
  refine List.flatMap_congr fun tname htname => ?_
  rw [simulations_runOneCall, if_neg (not_or.mpr ⟨hgroup, htests tname htname⟩),
    drawSeed_eq_seedOf hseed]

theorem runnersAgree_of (hn : opts.n = 1) (hseed : opts.seed ≠ some 0)
    (hout : ∀ tname ∈ tests, outcome tname ≠ .timeoutExpired) (hgroup : ¬ isOption group)
    (htests : ∀ tname ∈ tests, ¬ isOption tname) : RunnersAgree opts group tests outcome := by
  constructor
  · intro draw
    have hperm := sortedKeys_perm tests
    have hloop : runGroupLoop opts group draw outcome _ = _ :=
      runGroupLoop_eq fun tname htname => hout tname (hperm.mem_iff.mp htname)
    refine ⟨?_, _, congrArg Regression.results hloop, ?_⟩
    · rw [runGroup, hloop, Regression.simulations, List.flatMap_map,
        ← simulations_eq_required hn hseed hgroup htests]
      simp only [runGroupCall_eq_runOneCall hn]
      exact hperm.flatMap_right _
    · rw [requiredReport_one hn, List.map_map]
      exact hperm.map _
  · intro draw completed hcompleted
    refine ⟨?_, _, rfl, ?_⟩
    · rw [runParallel, Regression.simulations, List.flatMap_map,
        simulations_eq_required hn hseed hgroup htests]
    · rw [requiredReport_one hn, List.map_map]
      exact hcompleted.map _

/-- With nothing to run they agree. -/
theorem runnersAgree_nil : RunnersAgree opts group [] outcome := by
  have hloop : ∀ draw, runGroup opts group draw outcome [] =
      { invocations := [], results := some [] } := by
    intro draw
    rw [runGroup, sortedKeys, List.mergeSort_nil, runGroupLoop]
  refine ⟨fun draw => ?_, fun draw completed hcompleted => ?_⟩
  · rw [hloop]
    exact ⟨.nil, [], rfl, .nil⟩
  · obtain rfl := hcompleted.eq_nil
    exact ⟨.nil, [], rfl, .nil⟩

namespace RunnersAgree

variable (h : RunnersAgree opts group tests outcome)
include h

/-- The parallel runner has one result for each test. -/
theorem n_eq_one (hn : 1 ≤ opts.n) (hne : tests ≠ []) : opts.n = 1 := by
  obtain ⟨results, hresults, hperm⟩ := (h.parallel (fun _ _ => 1) tests (.refl _)).report_perm
  obtain rfl := Option.some.inj hresults
  have hlength := hperm.length_eq
  rw [List.length_map, List.length_map, length_requiredReport] at hlength
  have hpos : 0 < tests.length := List.length_pos_iff.mpr hne
  have hrepeat : opts.n.toNat = 1 := Nat.eq_of_mul_eq_mul_right hpos (by omega)
  omega

/-- The serial runner has no results after a timeout. -/
theorem ne_timeoutExpired {tname : String} (htname : tname ∈ tests) :
    outcome tname ≠ .timeoutExpired := by
  intro htimeout
  obtain ⟨results, hresults, -⟩ := (h.serial fun _ _ => 1).report_perm
  have hraises : (runGroup opts group (fun _ _ => 1) outcome tests).results = none :=
    runGroupLoop_results_eq_none_iff.mpr
      ⟨tname, (sortedKeys_perm tests).mem_iff.mpr htname, htimeout⟩
  rw [hraises] at hresults
  cases hresults

/-- What is asked for a test is among what is run, for the same test. -/
theorem runs (hone : opts.n = 1) {tname : String} (htname : tname ∈ tests) :
    ¬ (isOption group ∨ isOption tname) ∧
      toString (opts.seedOf 1) = toString (opts.drawSeed 1) := by
  have hperm := (h.parallel (fun _ _ => 1) tests (.refl _)).simulations_perm
  have hmem : opts.simulated group tname (opts.seedOf 1) ∈
      required opts group (fun _ _ => 1) tests := by
    rw [required_one hone]
    exact List.mem_map.mpr ⟨tname, htname, rfl⟩
  obtain ⟨tname', -, hnames, heq⟩ := mem_simulations_runParallel.mp (hperm.mem_iff.mpr hmem)
  obtain rfl : tname = tname' := congrArg Simulated.test heq
  exact ⟨hnames, congrArg Simulated.seed heq⟩

end RunnersAgree

/-- The seed 0 is drawn anew. -/
theorem ne_some_zero_of_seed (h : toString (opts.seedOf 1) = toString (opts.drawSeed 1)) :
    opts.seed ≠ some 0 := by
  intro hzero
  simp only [Opts.seedOf, Opts.drawSeed, hzero, Option.getD_some, if_true] at h
  exact absurd h (by decide)

end Runners

/-! ### One test -/

/-- xrun comes back with nothing to report. -/
def passed (_ : String) : Outcome := .completed { returncode := 0, stdout := "", stderr := "" }

end Testbench.Run
