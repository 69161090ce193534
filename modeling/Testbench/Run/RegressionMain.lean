import Testbench.Run.Runners
import Testbench.Run.RegressionReport

/-!
`regression.py --run`: from the group names to the report.

`load_test_db` reads the tests of group `T1` from the directory `T1_group`, and the runners
pass `-g T1` to xrun, whose test database has the names of the directories. So where the
directories are named that way, no simulation is ever started and every result is FAIL
(`regression_fails`).
-/

namespace Testbench.Run

open Testbench.Lib

/-- `GROUPS` -/
def GROUPS : List String := ["T1", "T2", "T3", "T4", "T5", "T6", "T7"]

/-- What a regression finds and what becomes of its simulations. The file of xrun can be
executed. -/
structure Machine where
  site : Site
  /-- The keys of `test.json` in a directory of the test plan, if there is such a file. -/
  testJson : String → Option (List String)
  world : String → String → World
  /-- The simulation of a test takes more than two hours. -/
  late : String → String → Bool
  draw : String → Draws
  /-- The order in which the futures of a group complete. -/
  completed : (group : String) → (tests : List String) → { order : List String // order.Perm tests }

/-- The arguments of `main` with `--run`. -/
structure MainArgs extends RunOpts where
  run : String
  parallel : Int := 0

namespace Machine

variable (m : Machine) (args : MainArgs)

/-- `load_test_db` -/
def loadTestDb : List (String × List String) :=
  GROUPS.map fun g => (g, (m.testJson (g ++ "_group")).getD [])

/-- How xrun ends. It can only be late with a simulation. -/
def outcome (inv : Option Invocation) (group tname : String) : Outcome :=
  let args := inv.map Invocation.toArgs
  let started := args.bind fun args => doSimulation m.site args (m.world group tname)
  if m.late group tname ∧ started.isSome then .timeoutExpired
  else .completed (runXrun m.site args (m.world group tname))

/-- The body of the loop of `main` over the groups. -/
def runTests (group : String) (tests : List String) : Option (List Entry) :=
  let opts := args.toRunOpts
  let seed := fun tname => opts.drawSeed (m.draw group tname 0)
  if 0 < args.parallel then
    let outcome := fun tname => m.outcome (opts.runOneCall group tname (seed tname)) group tname
    (runParallel opts group (m.draw group) outcome (sortedKeys tests)
      (m.completed group (sortedKeys tests))).results
  else
    let outcome := fun tname => m.outcome (opts.runGroupCall group tname (seed tname)) group tname
    (runGroup opts group (m.draw group) outcome tests).results

/-- `GROUPS if args.run == "all" else [args.run]` -/
def groupsToRun : List String := if args.run = "all" then GROUPS else [args.run]

/-- The loop of `main`: `all_results`, or `none` when a runner raises. -/
def mainRun : Option (List Entry) :=
  (groupsToRun args).foldlM (fun all g =>
    match (m.loadTestDb.lookup g).getD [] with
    | [] => some all
    | tests => (m.runTests args g tests).map (all ++ ·)) []

end Machine

/-- The status in the dictionary of a result. -/
def EntryStatus.text : EntryStatus → String
  | .ended .pass => "PASS"
  | .ended .fail => "FAIL"
  | .timeout => "TIMEOUT"

def Entry.toResultRecord (e : Entry) : ResultRecord where
  test := e.test
  group := e.group
  seed := e.seed
  status := e.status.text

section Runs

variable {m : Machine} {args : MainArgs}

/-! ### A group xrun does not know -/

theorem jobs_eq_none {site : Site} {args : Args} {group tname : String}
    (hgroup : args.grouplib = some group) (htest : args.testlib = some tname)
    (hn : 0 < args.iterationNum) (h : site.testdb.lookup group = none) :
    jobs site args = none := by
  obtain ⟨n, hn⟩ : ∃ n, args.iterationNum.toNat = n + 1 :=
    Nat.exists_eq_succ_of_ne_zero (by omega)
  have hjob : job site args group group tname = none := by simp [job, h]
  simp only [jobs, lookups, hgroup, htest, hn, List.range_succ_eq_map, List.map_cons,
    List.mapM_cons, hjob]
  rfl

/-- The command line has the group in it, if argparse takes it. -/
theorem toArgs_call {opts : RunOpts} {group tname : String} {seed : Int} (caller : Caller)
    {args : Args} (h : (opts.call group tname (caller.args opts.toOpts group tname seed)).map
      Invocation.toArgs = some args) :
    args.grouplib = some group ∧ args.testlib = some tname ∧ 0 < args.iterationNum := by
  obtain ⟨inv, hinv, rfl⟩ := Option.map_eq_some_iff.mp h
  unfold RunOpts.call at hinv
  split at hinv
  · cases hinv
  · obtain ⟨args, hargs, rfl⟩ := Option.map_eq_some_iff.mp hinv
    obtain ⟨hgroup, htest, -, hn⟩ := Caller.args_eq_some hargs
    exact ⟨hgroup, htest, hn⟩

/-- xrun fails at the group, before it starts a simulation. -/
theorem outcome_of_unknown {opts : RunOpts} {group tname : String} {seed : Int} (caller : Caller)
    (h : m.site.testdb.lookup group = none) :
    (m.outcome (opts.call group tname (caller.args opts.toOpts group tname seed))
      group tname).status = .ended .fail := by
  unfold Machine.outcome
  dsimp only
  cases hargs : (opts.call group tname (caller.args opts.toOpts group tname seed)).map
      Invocation.toArgs with
  | none => simp [Outcome.status, runXrun, statusOf]
  | some args =>
    obtain ⟨hgroup, htest, hn⟩ := toArgs_call caller hargs
    have hsim : doSimulation m.site args (m.world group tname) = none := by
      refine Option.eq_none_iff_forall_ne_some.mpr fun r hr => ?_
      obtain ⟨-, todo, -, htodo, -⟩ := doSimulation_eq_some_iff.mp hr
      rw [jobs_eq_none hgroup htest hn h] at htodo
      cases htodo
    simp [hsim, Outcome.status, runXrun, statusOf]

/-! ### The loops -/

/-- What a runner returns for a group, when each test comes back and fails. -/
structure Fails (group : String) (tests : List String) (results : List Entry) : Prop where
  status : ∀ e ∈ results, e.status = .ended .fail
  group : ∀ e ∈ results, e.group = group
  tests : (results.map Entry.test).Perm tests

theorem fails_runOne {opts : RunOpts} {group : String} {draw : Draws} {outcome : String → Outcome}
    {order tests : List String} (hperm : order.Perm tests)
    (h : ∀ tname, (outcome tname).status = .ended .fail) :
    Fails group tests (order.map (runOne opts group draw outcome)) := by
  constructor
  · intro e he
    obtain ⟨tname, -, rfl⟩ := List.mem_map.mp he
    exact h tname
  · intro e he
    obtain ⟨tname, -, rfl⟩ := List.mem_map.mp he
    rfl
  · rw [List.map_map]
    have hid : (Entry.test ∘ runOne opts group draw outcome) = id := rfl
    rw [hid, List.map_id]
    exact hperm

theorem runTests_of_unknown {group : String} (h : m.site.testdb.lookup group = none)
    (tests : List String) : ∃ results, m.runTests args group tests = some results ∧
      Fails group tests results := by
  have hperm := sortedKeys_perm tests
  unfold Machine.runTests
  dsimp only
  split_ifs
  · exact ⟨_, rfl, fails_runOne ((m.completed group (sortedKeys tests)).2.trans hperm)
      fun tname => outcome_of_unknown .runOne h⟩
  · have hstatus : ∀ tname, (m.outcome (args.runGroupCall group tname
        (args.drawSeed (m.draw group tname 0))) group tname).status = .ended .fail :=
      fun tname => outcome_of_unknown .runGroup h
    rw [runGroup, runGroupLoop_eq]
    · exact ⟨_, rfl, fails_runOne hperm hstatus⟩
    · intro tname _ hlate
      have hfail := hstatus tname
      rw [hlate] at hfail
      cases hfail

/-- The tests that `--run` selects. -/
def selected (m : Machine) (args : MainArgs) : List String :=
  (Machine.groupsToRun args).flatMap fun g => (m.loadTestDb.lookup g).getD []

theorem lookup_eq_none_of_names {site : Site}
    (hnames : ∀ dir ∈ site.testdb, dir.1 ∈ GROUPS.map (· ++ "_group")) {group : String}
    (hgroup : group ∈ GROUPS) : site.testdb.lookup group = none := by
  have hdisjoint : ∀ g ∈ GROUPS, g ∉ GROUPS.map (· ++ "_group") := by decide
  rw [List.lookup_eq_none_iff]
  intro dir hdir
  rw [bne_iff_ne]
  rintro rfl
  exact hdisjoint dir.1 hgroup (hnames dir hdir)

/-- Only the groups of `GROUPS` have tests. -/
theorem mem_groups_of_tests {m : Machine} {group tname : String} {tests : List String}
    (h : (m.loadTestDb.lookup group).getD [] = tname :: tests) : group ∈ GROUPS := by
  by_contra hgroup
  have hnone : m.loadTestDb.lookup group = none := by
    rw [List.lookup_eq_none_iff]
    intro entry hentry
    obtain ⟨g, hg, rfl⟩ := List.mem_map.mp hentry
    rw [bne_iff_ne]
    rintro rfl
    exact hgroup hg
  rw [hnone] at h
  cases h

/-- What the loop of `main` adds to the results, group by group. -/
theorem mainRun_loop (hnames : ∀ g ∈ GROUPS, m.site.testdb.lookup g = none)
    (groups : List String) (all : List Entry) :
    ∃ results, groups.foldlM (fun all g =>
        match (m.loadTestDb.lookup g).getD [] with
        | [] => some all
        | tests => (m.runTests args g tests).map (all ++ ·)) all = some (all ++ results) ∧
      (results.map Entry.test).Perm
        (groups.flatMap fun g => (m.loadTestDb.lookup g).getD []) ∧
      ∀ e ∈ results, e.status = .ended .fail := by
  induction groups generalizing all with
  | nil => exact ⟨[], by simp, .nil, nofun⟩
  | cons g groups ih =>
    rw [List.flatMap_cons]
    cases htests : (m.loadTestDb.lookup g).getD [] with
    | nil =>
      obtain ⟨results, hresults, hperm, hstatus⟩ := ih all
      refine ⟨results, ?_, hperm, hstatus⟩
      simpa [htests] using hresults
    | cons tname tests =>
      have hunknown : m.site.testdb.lookup g = none := hnames g (mem_groups_of_tests htests)
      obtain ⟨here, hhere, hfails⟩ : ∃ here, m.runTests args g (tname :: tests) = some here ∧
        Fails g (tname :: tests) here := runTests_of_unknown hunknown _
      obtain ⟨rest, hrest, hperm, hstatus⟩ := ih (all ++ here)
      refine ⟨here ++ rest, ?_, ?_, ?_⟩
      · rw [List.append_assoc] at hrest
        simpa [htests, hhere] using hrest
      · rw [List.map_append]
        exact hfails.tests.append hperm
      · intro e he
        rcases List.mem_append.mp he with he | he
        · exact hfails.status e he
        · exact hstatus e he

/-- **Where the directories of the test plan are named as `load_test_db` has them, a
regression comes to its end and has a result for each test, and each result is FAIL.** -/
theorem regression_fails (m : Machine) (args : MainArgs)
    (hnames : ∀ dir ∈ m.site.testdb, dir.1 ∈ GROUPS.map (· ++ "_group")) (timestamp : String) :
    ∃ results, m.mainRun args = some results ∧
      (results.map Entry.test).Perm (selected m args) ∧
      (∀ e ∈ results, e.status = .ended .fail) ∧
      (generateReport timestamp (results.map Entry.toResultRecord)).passed = 0 := by
  have hunknown : ∀ g ∈ GROUPS, m.site.testdb.lookup g = none :=
    fun g hg => lookup_eq_none_of_names hnames hg
  obtain ⟨results, hresults, hperm, hstatus⟩ := mainRun_loop hunknown (Machine.groupsToRun args) []
  refine ⟨results, hresults, hperm, hstatus, ?_⟩
  refine List.countP_eq_zero.mpr ?_
  intro r hr
  obtain ⟨e, he, rfl⟩ := List.mem_map.mp hr
  simp [Entry.toResultRecord, hstatus e he, EntryStatus.text]

end Runs

/-- One directory with one test, whose simulation would pass. -/
def deliveredTree : Machine where
  site := { smallSite with testdb := [("T1_group", [("canfd_T_01_01_reg_rw_test",
    [("uvm_testname", "canfd_T_01_01_reg_rw_test"), ("sim_args", "+UVM_VERBOSITY=UVM_MEDIUM"),
     ("tcl", "/canfd/tcl/wave.tcl")])])] }
  testJson dir := if dir = "T1_group" then some ["canfd_T_01_01_reg_rw_test"] else none
  world _ _ := worldOf 0 (some "UVM TEST PASSED")
  late _ _ := false
  draw _ _ := (worldOf 0 none).randint
  completed _ tests := ⟨tests, .refl tests⟩

theorem regression_delivered : ∃ results,
    deliveredTree.mainRun { run := "all" } = some results ∧
      (results.map Entry.test).Perm (selected deliveredTree { run := "all" }) ∧
      (∀ e ∈ results, e.status = .ended .fail) ∧
      (generateReport "" (results.map Entry.toResultRecord)).passed = 0 :=
  regression_fails deliveredTree { run := "all" } (by decide) ""

end Testbench.Run
