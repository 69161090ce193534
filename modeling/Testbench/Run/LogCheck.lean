import Testbench.Run.Xrun

/-!
The two checks of a simulation log: `CheckSimLog` of `run/xrun` (`verdict`) and
`Simulator._check_result` of `run/xrun_lib/simulator.py` (`checkResult`).

They agree on the status of every text (`verdict_status`). Both look for the bare words
`UVM_FATAL` and `UVM_ERROR`, which the report summary of UVM always contains, so no
completed log passes (`classified_iff`).
-/

namespace Testbench.Run

open Testbench.Lib

/-- The dictionary `_check_result` returns. -/
structure CheckedResult where
  test : String
  seed : String
  status : Status
  reason : String

/-- The tests of `_check_result` on the content of a log. -/
def contentVerdict (content : String) : Status × String :=
  let hasFatal := Occurs "UVM_FATAL" content
  let hasError := Occurs "UVM_ERROR" content
  let hasPassed := Occurs "UVM TEST PASSED" content
  let hasFailed := Occurs "UVM TEST FAILED" content
  let hasTimeout := Occurs "UVM TIMEOUT" content
  if hasTimeout then (.fail, "TIMEOUT")
  else if hasFatal then (.fail, "FATAL")
  else if hasError then (.fail, "ERROR")
  else if hasFailed ∧ ¬ hasPassed then (.fail, "FAILED")
  else if hasPassed then (.pass, "")
  else (.exception, "incomplete")

/-- `_check_result`, where `sim.log` has the content given, if it is there. -/
def checkResult (args : Args) (testName : String) (log : Option String) : CheckedResult :=
  let seed := match args.seed with
    | some seed => if seed = "" then "random" else seed
    | none => "random"
  match log with
  | none => { test := testName, seed, status := .exception, reason := "no log" }
  | some content =>
      let (status, reason) := contentVerdict content
      { test := testName, seed, status, reason }

/-- **The two copies of the rule give every log, or its absence, the same status.** -/
theorem verdict_status (args : Args) (testName : String) (log : Option String) :
    (checkResult args testName log).status = logStatus log := by
  cases log with
  | none => rfl
  | some content =>
    change (contentVerdict content).1 = (verdict content).1
    unfold contentVerdict verdict
    dsimp only
    split_ifs <;> rfl

/-! ### Completed logs -/

/-- A line of the report summary: a severity and its count. -/
def summaryLine (severity : String) (blanks count : Nat) : String :=
  severity ++ " :" ++ .ofList (List.replicate blanks ' ') ++ toString count

/-- The log of a simulation that has come to the report summary, with the counts in it. -/
structure CompletedLog where
  lines : List String
  errors : Nat
  fatals : Nat
  hasErrors : ∃ blanks, summaryLine "UVM_ERROR" blanks errors ∈ lines
  hasFatals : ∃ blanks, summaryLine "UVM_FATAL" blanks fatals ∈ lines

namespace CompletedLog

variable (log : CompletedLog)

def text : String := unlines log.lines

/-- No errors, no fatal errors, the test says that it passed, and there was no timeout. -/
def Clean : Prop :=
  log.errors = 0 ∧ log.fatals = 0 ∧ Occurs "UVM TEST PASSED" log.text ∧
    ¬ Occurs "UVM TIMEOUT" log.text

/-- Both checks give the log the same status, and it is PASS iff the log is clean. -/
def Classified (args : Args) (testName : String) : Prop :=
  (verdict log.text).1 = (checkResult args testName (some log.text)).status ∧
    ((verdict log.text).1 = .pass ↔ log.Clean)

/-- The summary contains the word the checks take for a fatal error. -/
theorem occurs_fatal : Occurs "UVM_FATAL" log.text := by
  obtain ⟨blanks, hfatals⟩ := log.hasFatals
  have hline : Occurs "UVM_FATAL" (summaryLine "UVM_FATAL" blanks log.fatals) := by
    unfold Occurs summaryLine
    simp only [String.toList_append, List.append_assoc]
    exact (List.prefix_append _ _).isInfix
  have hmention : Mentions ["UVM_FATAL"] log.text := by
    unfold text
    rw [mentions_unlines (by decide) (by decide) (by decide)]
    exact ⟨_, hfatals, "UVM_FATAL", by simp, hline⟩
  obtain ⟨needle, hneedle, hoccurs⟩ := hmention
  rwa [List.mem_singleton.mp hneedle] at hoccurs

/-- No completed log passes. -/
theorem status_eq_fail : (verdict log.text).1 = .fail := by
  unfold verdict
  dsimp only
  rw [if_pos log.occurs_fatal]
  split <;> rfl

/-- **A completed log is classified rightly iff it is not clean.** -/
theorem classified_iff (args : Args) (testName : String) :
    log.Classified args testName ↔ ¬ log.Clean := by
  have hsame : (checkResult args testName (some log.text)).status = (verdict log.text).1 :=
    verdict_status args testName (some log.text)
  unfold Classified
  rw [hsame, log.status_eq_fail]
  simp

end CompletedLog

/-- The end of the log of a test that has passed. -/
def passedLog : CompletedLog where
  lines := ["===UVM TEST PASSED===", "--- UVM Report Summary ---", "",
    "** Report counts by severity", "UVM_INFO :   12", "UVM_WARNING :    0",
    "UVM_ERROR :    0", "UVM_FATAL :    0"]
  errors := 0
  fatals := 0
  hasErrors := ⟨4, by decide⟩
  hasFatals := ⟨4, by decide⟩

/-- It is reported as failed. -/
theorem passedLog_not_classified : ¬ passedLog.Classified {} "test_reg" := by
  intro h
  have hclean : passedLog.Clean := by
    unfold CompletedLog.Clean
    decide +kernel
  have hpass := h.2.mpr hclean
  rw [passedLog.status_eq_fail] at hpass
  cases hpass

end Testbench.Run
