import Testbench.Lib.Binary64
import Testbench.Lib.Grouping

/-!
`generate_report` of `run/regression.py`: the numbers of the report.

The totals are counts over all results and what is left after subtracting them; the
numbers of a group are kept while the results are read one by one. `report_accounts` says
that they fit together for all groups and status strings, and do not depend on the order of
the results.
-/

namespace Testbench.Run

open Testbench.Lib

/-- A dictionary of `results`. -/
structure ResultRecord where
  test : String
  group : String
  seed : Int
  status : String

/-- The dictionary of a group in `by_group`. -/
structure GroupStats where
  total : Nat := 0
  passed : Nat := 0
  failed : Nat := 0

/-- The report, with the fields of `meta` in it. -/
structure Report where
  timestamp : String
  total : Nat
  passed : Nat
  failed : Nat
  timeout : Nat
  exception : Int
  passRate : ℚ
  byGroup : List (String × GroupStats)
  details : List ResultRecord

/-- The body of the loop over `results`, for the entry of the group. -/
def GroupStats.add (s : GroupStats) (r : ResultRecord) : GroupStats :=
  if r.status = "PASS" then { s with total := s.total + 1, passed := s.passed + 1 }
  else { s with total := s.total + 1, failed := s.failed + 1 }

/-- `sum(1 for r in results if r["status"] == status)` -/
def countStatus (results : List ResultRecord) (status : String) : Nat :=
  results.countP (·.status = status)

/-- `round(passed / total * 100, 1) if total > 0 else 0` -/
def passRate (passed total : Nat) : ℚ :=
  if 0 < total then roundDigits (toBinary64 (toBinary64 (passed / total) * 100)) 1 else 0

/-- `generate_report` -/
def generateReport (timestamp : String) (results : List ResultRecord) : Report :=
  let total := results.length
  let passed := countStatus results "PASS"
  let failed := countStatus results "FAIL"
  let timeout := countStatus results "TIMEOUT"
  { timestamp, total, passed, failed, timeout
    exception := (total : Int) - passed - failed - timeout
    passRate := passRate passed total
    byGroup := groupFold ResultRecord.group {} GroupStats.add results
    details := results }

/-- The numbers of a report on some results fit together. -/
structure Report.Accounts (rep : Report) (results : List ResultRecord) : Prop where
  total : (rep.total : Int) = rep.passed + rep.failed + rep.timeout + rep.exception
  exception : 0 ≤ rep.exception
  groupTotal : (rep.byGroup.map fun g => g.2.total).sum = rep.total
  groupPassed : (rep.byGroup.map fun g => g.2.passed).sum = rep.passed
  groupFailed : ((rep.byGroup.map fun g => g.2.failed).sum : Nat) =
    (rep.failed : Int) + rep.timeout + rep.exception
  groupSplit : ∀ g ∈ rep.byGroup, g.2.passed + g.2.failed = g.2.total
  once : ∀ r ∈ results, (rep.byGroup.map Prod.fst).count r.group = 1
  rate : 0 ≤ rep.passRate ∧ rep.passRate ≤ 100

/-- Two reports have the same numbers, in the same groups. -/
structure Report.SameNumbers (rep rep' : Report) : Prop where
  total : rep.total = rep'.total
  passed : rep.passed = rep'.passed
  failed : rep.failed = rep'.failed
  timeout : rep.timeout = rep'.timeout
  exception : rep.exception = rep'.exception
  passRate : rep.passRate = rep'.passRate
  byGroup : rep.byGroup.Perm rep'.byGroup

/-! ### The numbers of a group -/

/-- The entry of a group counts its results, those that passed and those that did not. -/
theorem foldl_add (results : List ResultRecord) :
    results.foldl GroupStats.add {} =
      { total := results.countP fun _ => true
        passed := results.countP (·.status = "PASS")
        failed := results.countP (¬ ·.status = "PASS") } := by
  induction results using List.reverseRecOn with
  | nil => rfl
  | append_singleton results r ih =>
    rw [List.foldl_append, ih, List.foldl_cons, List.foldl_nil, GroupStats.add]
    by_cases h : r.status = "PASS"
    · simp [h, List.countP_append]
    · simp [h, List.countP_append]

theorem GroupStats.add_comm (s : GroupStats) (r r' : ResultRecord) :
    (s.add r).add r' = (s.add r').add r := by
  unfold add
  split <;> split <;> rfl

/-! ### The totals -/

/-- No status is counted twice. -/
theorem count_statuses_le (results : List ResultRecord) :
    countStatus results "PASS" + countStatus results "FAIL" + countStatus results "TIMEOUT" ≤
      results.length := by
  unfold countStatus
  induction results with
  | nil => rfl
  | cons r results ih =>
    simp only [List.countP_cons, List.length_cons, decide_eq_true_eq]
    by_cases hpass : r.status = "PASS"
    · simp [hpass]
      omega
    · by_cases hfail : r.status = "FAIL"
      · simp [hfail]
        omega
      · by_cases htimeout : r.status = "TIMEOUT"
        · simp [htimeout]
          omega
        · simp [hpass, hfail, htimeout]
          omega

theorem passRate_mem {passed total : Nat} (h : passed ≤ total) :
    0 ≤ passRate passed total ∧ passRate passed total ≤ 100 := by
  unfold passRate
  split
  · next hpos =>
    have hpos : (0 : ℚ) < total := by exact_mod_cast hpos
    have hle : (passed : ℚ) ≤ total := by exact_mod_cast h
    have hratio : 0 ≤ toBinary64 (passed / total) ∧ toBinary64 (passed / total) ≤ (1 : Nat) := by
      refine ⟨toBinary64_nonneg (by positivity), ?_⟩
      apply toBinary64_le_natCast (by positivity) _ (by decide)
      rw [Nat.cast_one, div_le_one hpos]
      exact hle
    have hproduct : toBinary64 (toBinary64 (passed / total) * 100) ≤ (100 : Nat) := by
      apply toBinary64_le_natCast (mul_nonneg hratio.1 (by decide)) _ (by decide)
      have hone := hratio.2
      push_cast at hone ⊢
      linarith
    have hnonneg : 0 ≤ toBinary64 (toBinary64 (passed / total) * 100) :=
      toBinary64_nonneg (mul_nonneg hratio.1 (by decide))
    refine ⟨roundDigits_nonneg hnonneg 1, ?_⟩
    have hrate := roundDigits_le_natCast hnonneg hproduct (by decide) 1
    simpa using hrate
  · exact ⟨le_rfl, by norm_num⟩

theorem accounts_generateReport (timestamp : String) (results : List ResultRecord) :
    (generateReport timestamp results).Accounts results := by
  have hstatuses := count_statuses_le results
  have hsplit : ∀ l : List ResultRecord,
      l.length = l.countP (·.status = "PASS") + l.countP (¬ ·.status = "PASS") := by
    intro l
    simpa using List.length_eq_countP_add_countP (l := l) (·.status = "PASS")
  have hpassed : ((generateReport timestamp results).byGroup.map fun g => g.2.passed).sum =
      results.countP (·.status = "PASS") :=
    sum_groupFold (f := GroupStats.passed) (fun l => by rw [foldl_add]) results
  have hfailed : ((generateReport timestamp results).byGroup.map fun g => g.2.failed).sum =
      results.countP (¬ ·.status = "PASS") :=
    sum_groupFold (f := GroupStats.failed) (fun l => by rw [foldl_add]) results
  have htotal : ((generateReport timestamp results).byGroup.map fun g => g.2.total).sum =
      results.countP fun _ => true :=
    sum_groupFold (f := GroupStats.total) (fun l => by rw [foldl_add]) results
  refine ⟨?_, ?_, ?_, hpassed, ?_, ?_, ?_, ?_⟩
  · simp only [generateReport]
    omega
  · simp only [generateReport]
    omega
  · rwa [List.countP_true] at htotal
  · have hall := hsplit results
    simp only [generateReport, countStatus] at hstatuses hfailed ⊢
    omega
  · intro g hg
    simp only [generateReport, groupFold_eq, List.mem_map] at hg
    obtain ⟨k, -, rfl⟩ := hg
    rw [foldl_add, ← hsplit, List.countP_true]
  · intro r hr
    simp only [generateReport, keys_groupFold]
    apply List.count_eq_one_of_mem (nodup_firstKeys _)
    rw [mem_firstKeys]
    exact List.mem_map_of_mem hr
  · apply passRate_mem
    exact List.countP_le_length

/-- Counting does not depend on the order. -/
theorem sameNumbers_of_perm (timestamp timestamp' : String) {results results' : List ResultRecord}
    (h : results.Perm results') :
    (generateReport timestamp results).SameNumbers (generateReport timestamp' results') := by
  have hcount : ∀ status, countStatus results status = countStatus results' status :=
    fun status => h.countP_eq _
  have hlength := h.length_eq
  constructor <;> simp only [generateReport, hcount, hlength]
  exact groupFold_perm (fun s r r' => s.add_comm r r') h

/-- **The report of any results accounts for all of them, and another order of the results
gives the same numbers.** -/
theorem report_accounts (timestamp : String) (results : List ResultRecord) :
    (generateReport timestamp results).Accounts results ∧
    ∀ timestamp' results', results.Perm results' →
      (generateReport timestamp results).SameNumbers (generateReport timestamp' results') :=
  ⟨accounts_generateReport timestamp results,
    fun timestamp' _ h => sameNumbers_of_perm timestamp timestamp' h⟩

end Testbench.Run
