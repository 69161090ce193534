import Testbench.Run.Xrun

/-!
The seeds xrun records and the seeds it simulates.

`SeedGen` draws a seed for each simulation; it names the directory and stands in the logs.
The command is put together from the configuration alone (`map_command_eq`), so a
simulation runs with the recorded seed only where the configuration happens to name it
(`seedFaithful_iff`).
-/

namespace Testbench.Run

open Testbench.Lib

/-- Where the shell cuts a command line. -/
def isBlank (c : Char) : Bool := c = ' ' || c = '\t' || c = '\n' || c = '\\'

/-- The random seeds a command line gives to the simulator. -/
def seedsIn (text : String) : List String :=
  (words isBlank text).filterMap fun word =>
    (word.dropPrefix? "+ntb_random_seed=".toList).map String.ofList

/-- One of the seeds, at least, and every one of them is this one. -/
def OnlySeed (seeds : List String) (seed : String) : Prop :=
  seeds ≠ [] ∧ ∀ named ∈ seeds, named = seed

instance (seeds : List String) (seed : String) : Decidable (OnlySeed seeds seed) :=
  inferInstanceAs (Decidable (_ ∧ _))

/-- The simulation was run with the seed recorded for it. -/
def Call.Carries (call : Call) : Prop := OnlySeed (seedsIn call.command) call.seed

/-- **What a recorded seed is for**: it is the one that was simulated, so different seeds
are different commands and `--seed` brings a command back. -/
structure SeedFaithful (site : Site) (args : Args) (r : Xrun) : Prop where
  carried : ∀ call ∈ r.calls, call.Carries
  distinct : ∀ call ∈ r.calls, ∀ call' ∈ r.calls, call.test = call'.test →
    call.seed ≠ call'.seed → call.command ≠ call'.command
  rerun : ∀ (k : Nat) (call : Call), r.calls[k]? = some call → ∀ world' r',
    doSimulation site { args with seed := some call.seed } world' = some r' →
      (r'.calls[k]?).map Call.command = some call.command

/-- The seeds a simulation is configured with: by the option files, by what the jobs before
it have left and by its own job. -/
def configuredSeeds (site : Site) (args : Args) (base : List String) (earlier : List Job)
    (j : Job) : List String :=
  (base ++ earlier.flatMap (Job.keptOpt site args) ++ j.ownTexts site args).flatMap seedsIn

/-- Each simulation is configured with the seed given or drawn for it, and no other. -/
def SeedsConfigured (site : Site) (args : Args) (world : World) : Prop :=
  ∀ base ∈ getBaseSimulationOpt site args, ∀ todo ∈ jobs site args, ∀ k j, todo[k]? = some j →
    OnlySeed (configuredSeeds site args base (todo.take k) j) (seedGen args (world.randint k))

/-! ### Seeds of a command -/

theorem seedsIn_command (site : Site) (args : Args) (opts : List String) (j : Job) :
    seedsIn (j.command site args opts) = (j.simulationCmd site args opts).flatMap seedsIn := by
  unfold seedsIn Job.command
  rw [words_intercalate (by decide) (by simp [isBlank]), List.filterMap_flatMap]

/-- The order in which seeds are named does not matter. -/
theorem onlySeed_congr {seeds seeds' : List String} {seed : String}
    (h : ∀ named, named ∈ seeds ↔ named ∈ seeds') : OnlySeed seeds seed ↔ OnlySeed seeds' seed := by
  simp only [OnlySeed, ne_eq, List.eq_nil_iff_forall_not_mem, h]

theorem OnlySeed.unique {seeds : List String} {seed seed' : String} (h : OnlySeed seeds seed)
    (h' : OnlySeed seeds seed') : seed = seed' := by
  obtain ⟨named, hnamed⟩ := List.exists_mem_of_ne_nil _ h.1
  rw [← h.2 named hnamed, ← h'.2 named hnamed]

/-- Two simulations with the seeds recorded for them are told apart by their commands. -/
theorem Call.Carries.command_ne {call call' : Call} (h : call.Carries) (h' : call'.Carries)
    (hseed : call.seed ≠ call'.seed) : call.command ≠ call'.command := by
  intro heq
  unfold Call.Carries at h
  rw [heq] at h
  exact hseed (h.unique h')

section Invocation

variable {site : Site} {args : Args} {world : World} {base : List String} {todo : List Job}
  {r : Xrun}

/-- The command of each simulation, from the configuration. -/
theorem getElem?_map_command (k : Nat) :
    ((simulateAll site args world base todo).calls[k]?).map Call.command =
      todo[k]?.map (Job.command site args (optionsAt site args base todo k)) := by
  rw [getElem?_calls, Option.map_map]
  rfl

/-- **The commands do not depend on the seed**, be it given or drawn. -/
theorem map_command_eq (seed : Option String) (world' : World) (k : Nat) :
    ((simulateAll site { args with seed := seed } world' base todo).calls[k]?).map Call.command =
      ((simulateAll site args world base todo).calls[k]?).map Call.command := by
  rw [getElem?_map_command, getElem?_map_command]
  rfl

theorem onlySeed_command_iff (k : Nat) (j : Job) (seed : String) :
    OnlySeed (seedsIn (j.command site args (optionsAt site args base todo k))) seed ↔
      OnlySeed (configuredSeeds site args base (todo.take k) j) seed := by
  refine onlySeed_congr fun named => ?_
  rw [seedsIn_command, configuredSeeds, ← optionsAt, List.mem_flatMap, List.mem_flatMap]
  simp only [mem_simulationCmd, List.mem_append]

theorem carried_iff (hbase : getBaseSimulationOpt site args = some base)
    (htodo : jobs site args = some todo) :
    (∀ call ∈ (simulateAll site args world base todo).calls, call.Carries) ↔
      SeedsConfigured site args world := by
  unfold SeedsConfigured
  rw [hbase, htodo]
  simp only [Option.mem_def, Option.some.injEq, forall_eq']
  rw [forall_calls_iff]
  simp only [Call.Carries, callAt, onlySeed_command_iff]

end Invocation

/-! ### The shipped configuration -/

/-- Where only the base options name a seed, it has to be the recorded one each time. -/
theorem seedsConfigured_iff_of_base {site : Site} {args : Args} {world : World}
    {base : List String} {todo : List Job} {seed : String}
    (hbase : getBaseSimulationOpt site args = some base) (htodo : jobs site args = some todo)
    (hseed : base.flatMap seedsIn = [seed])
    (hjobs : ∀ j ∈ todo, (j.ownTexts site args).flatMap seedsIn = []) :
    SeedsConfigured site args world ↔
      ∀ k < todo.length, seedGen args (world.randint k) = seed := by
  have hkept : ∀ j ∈ todo, (j.keptOpt site args).flatMap seedsIn = [] := by
    intro j hj
    have hown := hjobs j hj
    rw [Job.ownTexts, List.flatMap_append, List.append_eq_nil_iff] at hown
    exact hown.2
  have hnames : ∀ k j, todo[k]? = some j →
      configuredSeeds site args base (todo.take k) j = [seed] := by
    intro k j hk
    have hbefore : ((todo.take k).flatMap (Job.keptOpt site args)).flatMap seedsIn = [] := by
      rw [List.flatMap_assoc, List.flatMap_eq_nil_iff]
      exact fun i hi => hkept i (List.mem_of_mem_take hi)
    rw [configuredSeeds, List.flatMap_append, List.flatMap_append, hseed, hbefore,
      hjobs j (List.mem_of_getElem? hk)]
    rfl
  unfold SeedsConfigured
  rw [hbase, htodo]
  simp only [Option.mem_def, Option.some.injEq, forall_eq']
  constructor
  · intro h k hk
    have honly := h k todo[k] (List.getElem?_eq_getElem hk)
    rw [hnames k _ (List.getElem?_eq_getElem hk)] at honly
    exact (honly.2 seed (List.mem_singleton_self seed)).symm
  · intro h k j hk
    have hlt : k < todo.length := (List.getElem?_eq_some_iff.mp hk).1
    rw [hnames k j hk, h k hlt]
    exact ⟨List.cons_ne_nil _ _, fun named hmem => List.mem_singleton.mp hmem⟩

/-- Without a `sim_base.cfg` that seed is 1. -/
theorem seedsConfigured_small (seed : String) (world : World) :
    SeedsConfigured smallSite (smallArgs seed) world ↔
      seedGen (smallArgs seed) (world.randint 0) = "1" := by
  have hbase : (defaultSimulationOpt {}).flatMap seedsIn = ["1"] := by decide +kernel
  have hjob : (smallJob.ownTexts smallSite {}).flatMap seedsIn = [] := by decide +kernel
  have hjobs : ∀ j ∈ [smallJob], (j.ownTexts smallSite (smallArgs seed)).flatMap seedsIn = [] :=
    fun j hj => List.mem_singleton.mp hj ▸ hjob
  rw [seedsConfigured_iff_of_base rfl rfl hbase hjobs]
  simp

/-! ### The recorded seed -/

/-- **The recorded seeds are the simulated ones iff the configuration names them.** -/
theorem seedFaithful_iff {site : Site} {args : Args} {world : World} {r : Xrun}
    (h : doSimulation site args world = some r) :
    r.LogsCalls ∧ (SeedFaithful site args r ↔ SeedsConfigured site args world) := by
  obtain ⟨base, todo, hbase, htodo, rfl⟩ := doSimulation_eq_some_iff.mp h
  refine ⟨logsCalls, fun hf => (carried_iff hbase htodo).mp hf.carried, fun hc => ?_⟩
  have hcarried := (carried_iff hbase htodo).mpr hc
  refine ⟨hcarried, fun call hcall call' hcall' _ hseed => ?_, fun k call hk world' r' hr' => ?_⟩
  · exact (hcarried call hcall).command_ne (hcarried call' hcall') hseed
  · -- the rerun reads the same configuration and asks for the same simulations
    obtain ⟨base', todo', hbase', htodo', rfl⟩ := doSimulation_eq_some_iff.mp hr'
    obtain rfl : base = base' := Option.some.inj (hbase.symm.trans hbase')
    obtain rfl : todo = todo' := Option.some.inj (htodo.symm.trans htodo')
    exact (map_command_eq (some call.seed) world' k).trans (congrArg (Option.map Call.command) hk)

/-- `--seed 1` names the seed of the configuration. -/
theorem seedFaithful_one :
    SeedFaithful smallSite (smallArgs "1") (printResultLog (simulateAll smallSite (smallArgs "1")
      (worldOf 0 (some "UVM TEST PASSED")) (defaultSimulationOpt (smallArgs "1")) [smallJob])) :=
  (seedFaithful_iff (doSimulation_small "1" (worldOf 0 (some "UVM TEST PASSED")))).2.mpr
    ((seedsConfigured_small "1" _).mpr (by decide))

/-- `--seed 7` is recorded, and 1 is simulated. -/
theorem seedSeven_not_faithful :
    ∃ r, doSimulation smallSite (smallArgs "7") (worldOf 0 (some "UVM TEST PASSED")) = some r ∧
      r.regressionlog = " \nreg_rw_test 7 PASS ()" ∧
      ¬ SeedFaithful smallSite (smallArgs "7") r := by
  refine ⟨_, doSimulation_small "7" _, by decide +kernel, fun h => ?_⟩
  have htodo : jobs smallSite (smallArgs "7") = some [smallJob] := rfl
  have hconfigured := (carried_iff rfl htodo).mp h.carried
  have hone := (seedsConfigured_small "7" _).mp hconfigured
  exact absurd hone (by decide)

end Testbench.Run
