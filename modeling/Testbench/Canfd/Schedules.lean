import Testbench.Canfd.Threads
import Testbench.Lib.Interleaving

/-!
Runs of the scoreboard under different schedules.

The threads of `run_phase` take items in an order the simulator is free in. A received frame
commutes with everything that neither stamps it, nor clears or reads what it raises
(`ScbOp.kind`), so a run does not depend on when the receive thread is served between such
items (`run_schedule`).
-/

namespace Testbench.Canfd

open Testbench.Lib Testbench.Canphy Testbench.Axi4lite

/-- The items that received frames may change places with or not. -/
inductive ItemKind where
  | receive | shared | other
  deriving DecidableEq

/-- A transaction that clears or reads what a received frame raises: a reset, a write to ICR,
a read of ISR or FSR. -/
def sharesStatus (tr : Axi4liteTrans) : Bool :=
  match tr.dir with
  | .write => isSoftReset tr.addr tr.data || tr.addr == 0x0024#32
  | .read => tr.addr == 0x001C#32 || tr.addr == 0x00E8#32

/-- The kind of an item. A tick moves the time stamp of the frames after it. -/
def ScbOp.kind : ScbOp → ItemKind
  | .rx _ => .receive
  | .tick => .shared
  | .tx _ => .other
  | .axi tr => if sharesStatus tr then .shared else .other

/-- Only the receive thread and what does not share its status may change places. -/
def ItemKind.Dependent (k l : ItemKind) : Prop :=
  ¬ (k = .receive ∧ l = .other) ∧ ¬ (k = .other ∧ l = .receive)

theorem ItemKind.Dependent.refl (k : ItemKind) : k.Dependent k := by
  unfold ItemKind.Dependent
  cases k <;> simp

theorem ItemKind.Dependent.symm {k l : ItemKind} (h : k.Dependent l) : l.Dependent k :=
  ⟨fun hkl => h.2 hkl.symm, fun hkl => h.1 hkl.symm⟩

namespace RefModel

/-- All other registers read as before. -/
theorem readReg_onCanFrameReceived (m : RefModel) (rx : CanphyTrans) {addr : BitVec 32}
    (hisr : addr ≠ 0x001C#32) (hfsr : addr ≠ 0x00E8#32) :
    (m.onCanFrameReceived rx).readReg addr = m.readReg addr := by
  obtain ⟨_, _, _, _, _, heq⟩ := m.onCanFrameReceived_eq rx
  rw [heq]
  unfold readReg
  split
  all_goals first | rfl | contradiction

end RefModel

namespace Scoreboard

/-- What a read adds to the counters depends on the register alone. -/
theorem processAxi4liteTr_read {tr : Axi4liteTrans} (hdir : tr.dir = .read) (d : BitVec 32) :
    ∃ pass fail, ∀ s : Scoreboard, s.refModel.readReg tr.addr = d → s.processAxi4liteTr tr =
      { s with
        axi4liteRdCount := s.axi4liteRdCount + 1
        passCount := s.passCount + pass
        failCount := s.failCount + fail } := by
  obtain ⟨n, hresp⟩ := checkResp_eq tr
  by_cases haddr : tr.addr ≤ 0x00FF#32
  · by_cases hdata : tr.data = d
    · refine ⟨1, n, fun s hs => ?_⟩
      simp only [processAxi4liteTr, hdir, hresp, haddr, hs, hdata, ne_eq, not_true_eq_false,
        if_true, if_false]
    · refine ⟨0#32, 1 + n, fun s hs => ?_⟩
      simp only [processAxi4liteTr, hdir, hresp, haddr, hs, hdata, ne_eq, not_false_eq_true,
        if_true, BitVec.add_zero, BitVec.add_assoc]
  · refine ⟨0#32, n, fun s hs => ?_⟩
    simp only [processAxi4liteTr, hdir, hresp, haddr, if_false, BitVec.add_zero]

/-- A received frame and a transaction that does not share its status change places. -/
theorem processRxFrame_axi (s : Scoreboard) (rx : CanphyTrans) {tr : Axi4liteTrans}
    (h : sharesStatus tr = false) :
    (s.processRxFrame rx).processAxi4liteTr tr = (s.processAxi4liteTr tr).processRxFrame rx := by
  unfold sharesStatus at h
  cases hdir : tr.dir with
  | write =>
    simp only [hdir, Bool.or_eq_false_iff, beq_eq_false_iff_ne] at h
    exact s.processRxFrame_processAxi4liteTr rx hdir h.1 h.2
  | read =>
    simp only [hdir, Bool.or_eq_false_iff, beq_eq_false_iff_ne] at h
    obtain ⟨pass, fail, hread⟩ := processAxi4liteTr_read hdir (s.refModel.readReg tr.addr)
    by_cases hflag : rx.frameType = .errorFrame ∨ rx.frameType = .overloadFrame
    · simp only [processRxFrame, hflag, if_true]
    · have hreg := s.refModel.readReg_onCanFrameReceived rx h.1 h.2
      simp only [processRxFrame, hflag, if_false]
      rw [hread s rfl, hread _ hreg]

/-- Items that may change places do. -/
theorem step_comm (s : Scoreboard) {x y : ScbOp} (h : ¬ x.kind.Dependent y.kind) :
    (s.step x).step y = (s.step y).step x := by
  have hrx : ∀ (rx : CanphyTrans) (z : ScbOp), z.kind = .other →
      (s.step (.rx rx)).step z = (s.step z).step (.rx rx) := by
    intro rx z hz
    cases z with
    | rx tr => cases hz
    | tick => cases hz
    | tx tr => exact s.processRxFrame_processTxFrame rx tr
    | axi tr =>
      refine s.processRxFrame_axi rx ?_
      simpa [ScbOp.kind] using hz
  have hreceive : ∀ z : ScbOp, z.kind = .receive → ∃ rx, z = .rx rx := by
    intro z hz
    cases z with
    | rx rx => exact ⟨rx, rfl⟩
    | tx tr => cases hz
    | tick => cases hz
    | axi tr =>
      by_cases hshares : sharesStatus tr <;> simp [ScbOp.kind, hshares] at hz
  unfold ItemKind.Dependent at h
  rcases Classical.not_and_iff_not_or_not.mp h with h | h
  · obtain ⟨hx, hy⟩ := not_not.mp h
    obtain ⟨rx, rfl⟩ := hreceive x hx
    exact hrx rx y hy
  · obtain ⟨hx, hy⟩ := not_not.mp h
    obtain ⟨rx, rfl⟩ := hreceive y hy
    exact (hrx rx x hx).symm

/-- **A run does not depend on when received frames are served** among transmitted frames and
transactions that do not share their status: two schedules with the same order of the items of
each kind lead to the same reference model and the same counts. -/
theorem run_schedule (s : Scoreboard) {ops ops' : List ScbOp}
    (hreceive : ops.filter (·.kind ≠ .other) = ops'.filter (·.kind ≠ .other))
    (hother : ops.filter (·.kind ≠ .receive) = ops'.filter (·.kind ≠ .receive)) :
    run step s ops = run step s ops' := by
  refine run_eq_of_sameOrder ItemKind.Dependent.refl (fun _ _ => ItemKind.Dependent.symm)
    (fun s x y => s.step_comm) (fun k l hdep => ?_) s
  by_cases hno : k ≠ .other ∧ l ≠ .other
  · rw [← project_filter hno.1 hno.2, hreceive, project_filter hno.1 hno.2]
  · have hnr : k ≠ .receive ∧ l ≠ .receive := by
      unfold ItemKind.Dependent at hdep
      cases k <;> cases l <;> simp_all
    rw [← project_filter hnr.1 hnr.2, hother, project_filter hnr.1 hnr.2]

/-- A data frame, a request and a tick in two schedules. -/
theorem run_schedule_trr :
    let rx : ScbOp := .rx { canId := 0x100, dlc := 1, data := [some 0x5A] }
    let trr : ScbOp := .axi { dir := .write, addr := 0x0090#32, data := 1#32, resp := .okay }
    run step {} [.tick, rx, trr, rx, .tick] = run step {} [.tick, trr, rx, rx, .tick] :=
  run_schedule {} rfl rfl

end Scoreboard

end Testbench.Canfd
