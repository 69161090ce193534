import Testbench.Sdram.Driver

/-!
The SDRAM monitor `sdram_monitor` (`mpsoc/uvc/sdram/sdram_monitor.sv`), and both sides of
the bus.

The monitor publishes a transaction at a clock edge with CS low if CS was high at the
edge before. It follows the commands of a trace iff no two of them are on consecutive
edges (`publishes_iff`); `follows_iff` puts responder and monitor together.
-/

namespace Testbench.Sdram

open Testbench.Lib

/-- The monitor: CS at the edge before, and what it has published. -/
structure Monitor where
  prevCsN : Bool := true
  published : List SdramTrans := []

namespace Monitor

/-- The transaction `run_phase` takes from the lines. -/
def transOf (p : Pins) : SdramTrans :=
  { pins := p, cmd := p.cmd, bank := p.sdramBa, addr := p.sdramAddr, wdata := p.sdramDq,
    rdata := p.sdramDq }

/-- One clock edge of `run_phase`. -/
def step (m : Monitor) (p : Pins) : Monitor :=
  { prevCsN := p.sdramCsN
    published :=
      if p.sdramCsN = false ∧ m.prevCsN = true then m.published ++ [transOf p]
      else m.published }

/-- The monitor before edge `t` of a trace. -/
def before (trace : Nat → Pins) (t : Nat) : Monitor :=
  run step {} ((List.range t).map trace)

section Trace

variable (trace : Nat → Pins)

theorem before_succ (t : Nat) : before trace (t + 1) = (before trace t).step (trace t) :=
  run_map_range_succ trace _ t

/-- The commands before edge `t`, as transactions. -/
def commands (t : Nat) : List SdramTrans :=
  (((List.range t).map trace).filter fun p => !p.sdramCsN).map transOf

theorem commands_succ (t : Nat) :
    commands trace (t + 1) =
      if (trace t).sdramCsN = false then commands trace t ++ [transOf (trace t)]
      else commands trace t := by
  rw [commands, List.range_succ, List.map_append, List.filter_append, List.map_append]
  cases hcs : (trace t).sdramCsN <;> simp [hcs, commands]

/-- At every point the monitor has published one transaction for each command, in order. -/
def Publishes : Prop := ∀ t, (before trace t).published = commands trace t

/-- No two commands are on consecutive edges. -/
def Separate : Prop :=
  ∀ t, (trace t).sdramCsN = false → (trace (t + 1)).sdramCsN = true

/-- **The monitor follows the commands iff no two are on consecutive edges.** -/
theorem publishes_iff : Publishes trace ↔ Separate trace := by
  have hprev : ∀ t, (before trace (t + 1)).prevCsN = (trace t).sdramCsN := by
    intro t
    rw [before_succ]
    rfl
  constructor
  · intro h t hcs
    by_contra hnext
    have hnext : (trace (t + 1)).sdramCsN = false := by simpa using hnext
    -- the second command is not published
    have hsame : (before trace (t + 2)).published = (before trace (t + 1)).published := by
      rw [before_succ, step, hprev, hcs]
      exact if_neg fun hedge => Bool.false_ne_true hedge.2
    rw [h, h, commands_succ trace (t + 1), if_pos hnext] at hsame
    simp at hsame
  · intro h t
    induction t with
    | zero => rfl
    | succ t ih =>
      rw [before_succ, step, commands_succ, ih]
      refine if_congr (and_iff_left_of_imp fun hcs => ?_) rfl rfl
      cases t with
      | zero => rfl
      | succ t =>
        rw [hprev]
        by_contra hlow
        rw [h t (by simpa using hlow)] at hcs
        cases hcs

end Trace

end Monitor

/-- Responder and monitor follow every command of a trace. -/
structure Follows (reqs : Nat → SdramTrans) (trace : Nat → Pins) : Prop where
  responds : Driver.Responds reqs trace
  publishes : Monitor.Publishes trace

/-- **Both sides follow every command iff commands are never on consecutive edges and no
access comes within three edges of a READ.** -/
theorem follows_iff (reqs : Nat → SdramTrans) (trace : Nat → Pins) :
    Follows reqs trace ↔ Driver.ReadsSpaced trace ∧ Monitor.Separate trace := by
  rw [← @Driver.responds_iff reqs trace, ← Monitor.publishes_iff]
  exact ⟨fun h => ⟨h.responds, h.publishes⟩, fun h => ⟨h.1, h.2⟩⟩

/-- A READ of key 1, and a WRITE to it two edges later. -/
def readThenWrite (t : Nat) : Pins :=
  if t = 0 then { sdramCsN := false, sdramCasN := false, sdramAddr := 1 }
  else if t = 2 then
    { sdramCsN := false, sdramCasN := false, sdramWeN := false, sdramAddr := 1, sdramDq := 0xBEEF }
  else {}

/-- The WRITE is not performed. -/
theorem readThenWrite_not_followed : ¬ Follows (fun _ => {}) readThenWrite := by
  intro h
  have hmem := congrFun (h.responds.writes 2 rfl).mem 1
  revert hmem
  decide +kernel

end Testbench.Sdram
