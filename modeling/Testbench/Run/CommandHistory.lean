import Testbench.Run.Xrun

/-!
The command of a simulation and what was simulated before it.

`RunSimCmd` takes its options from a list of the object and adds to that list, so a command
carries the options of all simulations before it (`getElem?_calls`). Only the first one is
what the test would get in a process of its own.
-/

namespace Testbench.Run

open Testbench.Lib

/-- The command line that asks for one simulation of one test. -/
def Args.alone (args : Args) (test : String) : Args :=
  { args with testlib := some test, iterationNum := 1 }

/-- **Independence of history**: a test gets the same command each time, the one it has in a
process that runs nothing else. The group is the same throughout an invocation. -/
structure HistoryIndependent (site : Site) (args : Args) (r : Xrun) : Prop where
  same : ∀ call ∈ r.calls, ∀ call' ∈ r.calls, call.test = call'.test →
    call.command = call'.command
  alone : ∀ call ∈ r.calls, ∀ world', ∃ r',
    doSimulation site (args.alone call.test) world' = some r' ∧
      r'.calls.map Call.command = [call.command]

/-- How many simulations an invocation asks for. -/
def requested (site : Site) (args : Args) : Nat :=
  match args.grouplib, args.testlib with
  | some group, none => args.iterationNum.toNat * ((site.testdb.lookup group).getD []).length
  | _, _ => args.iterationNum.toNat

/-! ### Lookups -/

section Lookups

variable {site : Site} {args : Args} {todo : List Job} {j : Job}

theorem job_test {home group test : String} (h : job site args home group test = some j) :
    j.test = test := by
  obtain ⟨tests, -, h⟩ := Option.bind_eq_some_iff.mp h
  obtain ⟨entry, -, h⟩ := Option.bind_eq_some_iff.mp h
  obtain ⟨uvmTestname, -, h⟩ := Option.bind_eq_some_iff.mp h
  obtain ⟨simArgs, -, h⟩ := Option.bind_eq_some_iff.mp h
  split at h
  · obtain ⟨ucli, -, h⟩ := Option.bind_eq_some_iff.mp h
    obtain rfl := Option.some.inj h
    rfl
  · obtain rfl := Option.some.inj h
    rfl

/-- The lookups do not depend on what else is asked for. -/
theorem jobs_alone (h : jobs site args = some todo) (hj : j ∈ todo) :
    jobs site (args.alone j.test) = some [j] := by
  have hfound := mem_lookups h hj
  rw [jobs_eq_some_iff]
  cases hgroup : args.grouplib with
  | none =>
    cases htest : args.testlib with
    | none => simp [lookups, hgroup, htest] at hfound
    | some test =>
      simp only [lookups, hgroup, htest] at hfound
      obtain ⟨-, -, hjob⟩ := List.mem_map.mp hfound
      obtain ⟨group, hmatch, hjob⟩ := Option.bind_eq_some_iff.mp hjob
      obtain rfl := job_test hjob
      have hjob' : job site (args.alone j.test) j.test group j.test = some j := hjob
      have hone : lookups site (args.alone j.test) =
          [job site (args.alone j.test) j.test group j.test] := by
        simp [lookups, Args.alone, hgroup, hmatch]
      rw [hone, hjob', List.map_singleton]
  | some group =>
    have hone : ∀ test, job site args group group test = some j →
        lookups site (args.alone j.test) = [j].map some := by
      intro test hjob
      obtain rfl := job_test hjob
      have hjob' : job site (args.alone j.test) group group j.test = some j := hjob
      have hone : lookups site (args.alone j.test) =
          [job site (args.alone j.test) group group j.test] := by
        simp [lookups, Args.alone, hgroup]
      rw [hone, hjob', List.map_singleton]
    cases htest : args.testlib with
    | none =>
      simp only [lookups, hgroup, htest] at hfound
      obtain ⟨-, -, hround⟩ := List.mem_flatMap.mp hfound
      cases htests : site.testdb.lookup group with
      | none => simp [htests] at hround
      | some tests =>
        rw [htests] at hround
        obtain ⟨⟨test, entry⟩, -, hjob⟩ := List.mem_map.mp hround
        exact hone test hjob
    | some test =>
      simp only [lookups, hgroup, htest] at hfound
      obtain ⟨-, -, hjob⟩ := List.mem_map.mp hfound
      exact hone test hjob

theorem length_jobs_eq_requested (h : jobs site args = some todo) :
    todo.length = requested site args := by
  have hfound := jobs_eq_some_iff.mp h
  have hnone : none ∉ lookups site args := by simp [hfound]
  have hlength : todo.length = (lookups site args).length := by rw [hfound, List.length_map]
  rw [hlength]
  cases hgroup : args.grouplib with
  | none =>
    cases htest : args.testlib with
    | none => simp [lookups, hgroup, htest] at hnone
    | some test => simp [lookups, requested, hgroup, htest]
  | some group =>
    cases htest : args.testlib with
    | none =>
      cases htests : site.testdb.lookup group with
      | none =>
        -- without a round nothing is looked up
        have hzero : args.iterationNum ≤ 0 := by
          have hle : ∀ n : Nat, args.iterationNum ≤ n := by
            simpa [lookups, hgroup, htest, htests] using hnone
          exact hle 0
        simp [lookups, requested, hgroup, htest, Int.toNat_of_nonpos hzero]
      | some tests => simp [lookups, requested, hgroup, htest, htests]
    | some test => simp [lookups, requested, hgroup, htest]

end Lookups

/-! ### Commands -/

section Commands

variable {site : Site} {args : Args} {world : World} {base : List String} {todo : List Job}

/-- More options make a longer command. -/
theorem command_ne_of_append {base more : List String} {j : Job} (hmore : more ≠ []) :
    j.command site args (base ++ more) ≠ j.command site args base := by
  have hlength : ∀ opts, (j.command site args opts).length + " \\\n".length =
      ((j.simulationCmd site args opts).map fun text => text.length + " \\\n".length).sum :=
    fun opts => length_intercalate (List.cons_ne_nil _ _)
  intro heq
  have hmore' : 0 < (more.map fun text => text.length + " \\\n".length).sum := by
    obtain ⟨text, more, rfl⟩ := List.exists_cons_of_ne_nil hmore
    have hsep : 0 < " \\\n".length := by decide
    rw [List.map_cons, List.sum_cons]
    omega
  have hsum := (hlength (base ++ more)).symm.trans ((congrArg (·.length + _) heq).trans
    (hlength base))
  simp only [Job.simulationCmd, List.map_cons, List.map_append, List.sum_cons,
    List.sum_append] at hsum
  omega

/-- A process that runs only the test uses the options of the configuration. -/
theorem doSimulation_alone (hbase : getBaseSimulationOpt site args = some base)
    (htodo : jobs site args = some todo) {j : Job} (hj : j ∈ todo) (world' : World) :
    ∃ r', doSimulation site (args.alone j.test) world' = some r' ∧
      r'.calls.map Call.command = [j.command site args base] :=
  ⟨_, doSimulation_eq_some_iff.mpr ⟨base, [j], hbase, jobs_alone htodo hj, rfl⟩, rfl⟩

theorem callAt_test (k : Nat) (j : Job) : (callAt site args world base todo k j).test = j.test :=
  rfl

theorem callAt_command (k : Nat) (j : Job) : (callAt site args world base todo k j).command =
    j.command site args (optionsAt site args base todo k) := rfl

theorem optionsAt_zero : optionsAt site args base todo 0 = base := by
  rw [optionsAt, List.take_zero, List.flatMap_nil, List.append_nil]

/-- From the second simulation on there are options left by the ones before. -/
theorem exists_optionsAt_eq (site : Site) (args : Args) (base : List String) (todo : List Job)
    {k : Nat} (hk : 0 < k) (hlt : k < todo.length) :
    ∃ more ≠ [], optionsAt site args base todo k = base ++ more := by
  refine ⟨(todo.take k).flatMap (Job.keptOpt site args), fun hnil => ?_, rfl⟩
  have hfirst : todo[0] ∈ todo.take k := List.mem_take_iff_getElem.mpr ⟨0, by omega, rfl⟩
  have hkept := List.flatMap_eq_nil_iff.mp hnil _ hfirst
  exact absurd hkept (by simp [Job.keptOpt])

end Commands

/-! ### Histories -/

/-- **A command is independent of history iff no invocation has a history**: at most one
simulation is asked for. -/
theorem historyIndependent_iff {site : Site} {args : Args} {world : World} {r : Xrun}
    (h : doSimulation site args world = some r) :
    HistoryIndependent site args r ↔ requested site args ≤ 1 := by
  obtain ⟨base, todo, hbase, htodo, rfl⟩ := doSimulation_eq_some_iff.mp h
  rw [← length_jobs_eq_requested htodo]
  constructor
  · intro hind
    by_contra hmany
    have hlt : 1 < todo.length := not_le.mp hmany
    -- the second simulation, in this process and in one of its own
    have hsecond : (simulateAll site args world base todo).calls[1]? =
        some (callAt site args world base todo 1 todo[1]) := by
      rw [getElem?_calls, List.getElem?_eq_getElem hlt, Option.map_some]
    obtain ⟨r', hr', hcommand⟩ := hind.alone _ (List.mem_of_getElem? hsecond) world
    obtain ⟨r'', hr'', hcommand'⟩ := doSimulation_alone hbase htodo (List.getElem_mem hlt) world
    obtain ⟨more, hmore, hopt⟩ := exists_optionsAt_eq site args base todo one_pos hlt
    rw [callAt_test, hr'', Option.some.injEq] at hr'
    rw [← hr', hcommand', callAt_command, hopt, List.singleton_inj] at hcommand
    exact command_ne_of_append hmore hcommand.symm
  · intro hone
    have hcalls : ∀ call ∈ (simulateAll site args world base todo).calls,
        ∃ j ∈ todo, call.test = j.test ∧ call.command = j.command site args base := by
      refine forall_calls_iff.mpr fun k j hk => ⟨j, List.mem_of_getElem? hk, callAt_test k j, ?_⟩
      have hlt := (List.getElem?_eq_some_iff.mp hk).1
      obtain rfl : k = 0 := by omega
      rw [callAt_command, optionsAt_zero]
    constructor
    · intro call hcall call' hcall' _
      obtain ⟨j, hj, -, hcommand⟩ := hcalls call hcall
      obtain ⟨j', hj', -, hcommand'⟩ := hcalls call' hcall'
      obtain ⟨k, hk, rfl⟩ := List.mem_iff_getElem.mp hj
      obtain ⟨k', hk', rfl⟩ := List.mem_iff_getElem.mp hj'
      obtain rfl : k = k' := by omega
      rw [hcommand, hcommand']
    · intro call hcall world'
      obtain ⟨j, hj, htest, hcommand⟩ := hcalls call hcall
      rw [htest, hcommand]
      exact doSimulation_alone hbase htodo hj world'

/-- One simulation has no history. -/
theorem historyIndependent_small :
    HistoryIndependent smallSite (smallArgs "7")
      (printResultLog (simulateAll smallSite (smallArgs "7") (worldOf 0 (some "UVM TEST PASSED"))
        (defaultSimulationOpt (smallArgs "7")) [smallJob])) :=
  (historyIndependent_iff (doSimulation_small "7" (worldOf 0 (some "UVM TEST PASSED")))).mpr
    (by decide)

/-- `-n 2`: the second command has the `-ucli` option of the first one as well. -/
theorem twice_not_historyIndependent :
    ∃ r, doSimulation smallSite { smallArgs "7" with iterationNum := 2 }
        (worldOf 0 (some "UVM TEST PASSED")) = some r ∧
      ¬ HistoryIndependent smallSite { smallArgs "7" with iterationNum := 2 } r := by
  refine ⟨printResultLog (simulateAll smallSite { smallArgs "7" with iterationNum := 2 }
    (worldOf 0 (some "UVM TEST PASSED")) (defaultSimulationOpt (smallArgs "7"))
      [smallJob, smallJob]), rfl, fun h => ?_⟩
  obtain ⟨more, hmore, hopt⟩ := exists_optionsAt_eq smallSite
    { smallArgs "7" with iterationNum := 2 } (defaultSimulationOpt (smallArgs "7"))
    [smallJob, smallJob] one_pos one_lt_two
  have hsame := h.same _ (List.mem_of_getElem? (i := 1) (getElem?_calls 1)) _
    (List.mem_of_getElem? (i := 0) (getElem?_calls 0)) rfl
  rw [callAt_command, callAt_command, hopt, optionsAt_zero] at hsame
  exact command_ne_of_append hmore hsame

end Testbench.Run
