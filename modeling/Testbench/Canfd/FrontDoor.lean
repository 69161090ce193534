import Testbench.Axi4lite.PublishedItems
import Testbench.Canfd.Environment
import Testbench.Canfd.Registers

/-!
Register accesses, from the sequencer of `axi4lite_agent` to the reference model.

`axi4lite_driver` carries the requests out on the bus, `axi4lite_monitor` reports what it sees
there, and the scoreboard takes that into the reference model, in between everything else it
is fed. `frontDoor_session`: what the model holds in a plain register, and what a read of one
is compared with, is what the requests before have written, whatever the slave, the CAN lines
and the order of the scoreboard's threads.
-/

namespace Testbench.Canfd

open Testbench.Lib Testbench.Canphy Testbench.Axi4lite

/-! ### One register -/

/-- What an access leaves in a plain register. -/
def accessLaw (r : PlainReg) (value : BitVec 32) (tr : Axi4liteTrans) : BitVec 32 :=
  match tr.dir with
  | .write => if isSoftReset tr.addr tr.data then 0 else if r.addr = tr.addr then tr.data else value
  | .read => value

/-- What some accesses after reset leave in a plain register. -/
def configured (r : PlainReg) (trs : List Axi4liteTrans) : BitVec 32 := run (accessLaw r) 0 trs

/-- The AXI transaction of an item. -/
def ScbOp.axi? : ScbOp → Option Axi4liteTrans
  | .axi tr => some tr
  | _ => none

/-- A plain register is read by the scoreboard. -/
theorem PlainReg.addr_le (r : PlainReg) : r.addr ≤ 0x00FF#32 := by
  cases r <;> decide

namespace Scoreboard

/-- **Only AXI transactions move a plain register of the reference model.** -/
theorem plain_step (s : Scoreboard) (op : ScbOp) (r : PlainReg) :
    (s.step op).refModel.plain r = run (accessLaw r) (s.refModel.plain r) op.axi?.toList := by
  rw [s.refModel_step op]
  cases op with
  | tx tr =>
    simp only [refOps]
    split
    · rfl
    · exact RefModel.plain_step s.refModel .txArbitration r
  | rx tr => exact RefModel.plain_step s.refModel (.received tr) r
  | tick => exact RefModel.plain_step s.refModel .tick r
  | axi tr =>
    simp only [refOps, ScbOp.axi?, Option.toList_some, run_cons, run_nil, accessLaw]
    cases tr.dir with
    | read => rfl
    | write =>
      have hwrite := RefModel.plain_step s.refModel (.writeReg tr.addr tr.data) r
      simp only [writeOps]
      split
      · rw [run_cons, run_cons, run_nil, RefModel.plain_step _ (.writeTxBuf _ _ _)]
        exact hwrite
      · rw [run_cons, run_nil, hwrite]
        rfl

theorem plain_run (s : Scoreboard) (ops : List ScbOp) (r : PlainReg) :
    (run step s ops).refModel.plain r =
      run (accessLaw r) (s.refModel.plain r) (ops.filterMap ScbOp.axi?) := by
  rw [List.filterMap_eq_flatMap_toList]
  exact run_map (f := fun s => s.refModel.plain r) (fun s op => s.plain_step op r) s ops

end Scoreboard

/-! ### The scoreboard's share of a session -/

namespace Env

variable {cyclesPerBit : Nat} {e : Env} {edges : List EnvEdge}

theorem filterMap_axi_eq {p : ScbOp → Bool} (hp : ∀ tr, p (.axi tr) = true)
    {ops ops' : List ScbOp} (h : ops.filter p = ops'.filter p) :
    ops.filterMap ScbOp.axi? = ops'.filterMap ScbOp.axi? := by
  have hfilter : ∀ ops : List ScbOp,
      (ops.filter p).filterMap ScbOp.axi? = ops.filterMap ScbOp.axi? := by
    intro ops
    rw [List.filterMap_filter]
    refine List.filterMap_congr fun op _ => ?_
    cases op <;> simp [hp, ScbOp.axi?]
  rw [← hfilter ops, h, hfilter ops']

/-- The AXI transactions written at an edge. -/
theorem axi_items (x : EnvSample) : (e.items cyclesPerBit x).filterMap ScbOp.axi? =
    (e.axi4lite.step x.axi).published.drop e.axi4lite.published.length := by
  have hframes : ∀ {f : CanphyTrans → ScbOp}, (∀ tr, (f tr).axi? = none) →
      ∀ trs : List CanphyTrans, (trs.map f).filterMap ScbOp.axi? = [] := by
    intro f hf trs
    simp [List.filterMap_map, hf]
  have htrans : ∀ trs : List Axi4liteTrans, (trs.map ScbOp.axi).filterMap ScbOp.axi? = trs := by
    intro trs
    simp [List.filterMap_map, Function.comp_def, ScbOp.axi?]
  unfold items
  rw [List.filterMap_append, List.filterMap_append, List.filterMap_append, htrans,
    hframes (fun _ => rfl), hframes (fun _ => rfl)]
  simp [ScbOp.axi?]

end Env

/-- The monitor takes nothing back. -/
theorem published_step_prefix (m : Axi4lite.Monitor) (x : AxiSample) :
    m.published <+: (m.step x).published := by
  unfold Axi4lite.Monitor.step Axi4lite.Monitor.reportRead Axi4lite.Monitor.reportWrite
    Axi4lite.Monitor.sampleAr Axi4lite.Monitor.sampleW Axi4lite.Monitor.sampleAw
  split_ifs <;> simp

namespace Env

variable {cyclesPerBit : Nat} {e : Env} {edges : List EnvEdge}

/-- **The scoreboard takes the AXI transactions the monitor publishes, in their order.** -/
theorem axi_served (h : Along (step cyclesPerBit) (Serves cyclesPerBit) e edges) :
    e.axi4lite.published ++ (edges.flatMap fun x => x.served).filterMap ScbOp.axi? =
      (run Axi4lite.Monitor.step e.axi4lite (edges.map (·.axi))).published := by
  induction edges generalizing e with
  | nil => simp
  | cons x edges ih =>
    obtain ⟨hserves, hrest⟩ := h
    have hnow : x.served.filterMap ScbOp.axi? =
        (e.axi4lite.step x.axi).published.drop e.axi4lite.published.length :=
      (filterMap_axi_eq (fun _ => rfl) hserves.axi).trans (axi_items _)
    obtain ⟨new, hnew⟩ := published_step_prefix e.axi4lite x.axi
    rw [List.flatMap_cons, List.filterMap_append, hnow, ← List.append_assoc, ← hnew,
      List.drop_left, hnew]
    exact ih hrest

end Env

/-! ### Requests -/

/-- What the driver adds to a request is no concern of a register. -/
theorem configured_carries (r : PlainReg) {items items' : List DriverItem}
    (h : List.Forall₂ DriverItem.Carries items items') :
    configured r (items'.map (·.toAxi4liteTrans)) =
      configured r (items.map (·.toAxi4liteTrans)) := by
  have hlaw : ∀ {tr tr' : DriverItem} (value : BitVec 32), DriverItem.Carries tr tr' →
      accessLaw r value tr'.toAxi4liteTrans = accessLaw r value tr.toAxi4liteTrans := by
    intro tr tr' value hcarries
    unfold accessLaw
    rw [hcarries.dir]
    cases hdir : tr.dir with
    | read => rfl
    | write => simp only [hcarries.addr, hcarries.data hdir]
  unfold configured
  generalize (0 : BitVec 32) = value
  induction h generalizing value with
  | nil => rfl
  | cons hcarries _ ih =>
    rw [List.map_cons, List.map_cons, run_cons, run_cons, hlaw value hcarries, ih]

/-- The transactions among some items. -/
theorem length_filterMap_axi (ops : List ScbOp) :
    (ops.filterMap ScbOp.axi?).length = ops.countP fun op => op.isAxi := by
  rw [List.length_filterMap_eq_countP]
  refine List.countP_congr fun op _ => ?_
  cases op <;> simp [ScbOp.axi?, ScbOp.isAxi]

section Session

variable {cyclesPerBit : Nat} {edges : List EnvEdge} {requests : List (Option DriverItem)}
  {xs : List SlaveSignals}

/-- **From the sequencer to the reference model.** In a session of the driver, the scoreboard
takes the transactions that come back, in order. A plain register of the reference model holds
what they were asked to write since the last reset among them, and a read of one is compared
with what the requests before it were asked to write. -/
theorem frontDoor_session
    (serves : Along (Env.step cyclesPerBit) (Env.Serves cyclesPerBit) {} edges)
    (hbus : edges.map (·.axi) = MainPhase.busTrace { requests } xs)
    (answers : Along Bus.step Bus.Answers {} (MainPhase.busTrace { requests } xs)) :
    let served := edges.flatMap fun x => x.served
    let returned := (run MainPhase.edge { requests } xs).returned
    let asked n := (requests.reduceOption.take n).map (·.toAxi4liteTrans)
    served.filterMap ScbOp.axi? = returned.map (·.toAxi4liteTrans) ∧
      (∀ r : PlainReg, (run (Env.step cyclesPerBit) {} edges).scb.refModel.plain r =
        configured r (asked returned.length)) ∧
      ∀ pre tr, pre ++ [.axi tr] <+: served → ∀ r : PlainReg, tr.dir = .read →
        tr.addr = r.addr → (run Scoreboard.step {} pre).readBack tr =
          some (decide (tr.data = configured r (asked (pre.countP fun op => op.isAxi)))) := by
  intro served returned asked
  have init := MainPhase.agrees_init requests
  obtain ⟨hagrees, halong⟩ := MainPhase.agrees_run init answers
  have hfollows := Axi4lite.Monitor.follows_run.2 (Axi4lite.Monitor.follows_run.1.mpr halong)
  have hserved : served.filterMap ScbOp.axi? = returned.map (·.toAxi4liteTrans) := by
    have haxi := Env.axi_served serves
    rw [hbus] at haxi
    exact haxi.trans (hfollows.published.trans hagrees.completed)
  have hcarries : List.Forall₂ DriverItem.Carries
      (requests.reduceOption.take returned.length) returned :=
    (MainPhase.inOrder_run (MainPhase.inOrder_init requests) init.drives xs).carries_returned
  have hconfigured : ∀ (r : PlainReg) n, n ≤ returned.length →
      configured r ((returned.map (·.toAxi4liteTrans)).take n) = configured r (asked n) := by
    intro r n hn
    have htake := List.forall₂_take n hcarries
    rw [List.take_take, Nat.min_eq_left hn] at htake
    rw [← List.map_take]
    exact configured_carries r htake
  refine ⟨hserved, fun r => ?_, fun pre tr hpre r hdir haddr => ?_⟩
  · rw [Env.scb_run, Scoreboard.plain_run, hserved, ← hconfigured r _ le_rfl,
      List.take_of_length_le (by simp)]
    exact congrArg (run (accessLaw r) · _) (RefModel.plain_new r)
  · -- the transactions taken so far are the first ones that came back
    obtain ⟨post, hpost⟩ := hpre
    have htaken : pre.filterMap ScbOp.axi? =
        (returned.map (·.toAxi4liteTrans)).take (pre.countP fun op => op.isAxi) := by
      rw [← hserved, ← hpost, List.append_assoc, List.filterMap_append,
        ← length_filterMap_axi, List.take_left]
    have hle : (pre.countP fun op => op.isAxi) ≤ returned.length := by
      have hlength := congrArg List.length hserved
      rw [← hpost, List.append_assoc, List.filterMap_append, List.length_append,
        length_filterMap_axi, List.length_map] at hlength
      omega
    have hmodel : (run Scoreboard.step {} pre).refModel.readReg tr.addr =
        configured r (asked (pre.countP fun op => op.isAxi)) := by
      rw [haddr, RefModel.readReg_addr, Scoreboard.plain_run, htaken, ← hconfigured r _ hle]
      exact congrArg (run (accessLaw r) · _) (RefModel.plain_new r)
    have hreg : tr.dir = .read ∧ tr.addr ≤ 0x00FF#32 := ⟨hdir, haddr ▸ r.addr_le⟩
    rw [Scoreboard.readBack, if_pos hreg, hmodel]

end Session

/-- A write of BRPR, a poll without an item, and a read of it. -/
def setBitRate : List (Option DriverItem) :=
  [some { dir := .write, addr := 0x8, data := 2, resp := .okay, wstrb := 0xF }, none,
    some { dir := .read, addr := 0x8, data := 0, resp := .okay, wstrb := 0xF }]

/-- The session on a quiet CAN bus, with a slave that reads 5 back. -/
def setBitRateEdges : List EnvEdge :=
  Env.inOrder 100 {} ((MainPhase.busTrace { requests := setBitRate }
    MainPhase.writeThenReadSlave).map fun x => { canPhyTx := true, canPhyRx := true, axi := x })

theorem frontDoor_setBitRate :
    (run (Env.step 100) {} setBitRateEdges).scb.refModel.plain .BRPR = 2 ∧
      (run Scoreboard.step {} ((setBitRateEdges.flatMap fun x => x.served).take 8)).readBack
        { dir := .read, addr := 0x8, data := 5, resp := .okay } = some false := by
  have serves : Along (Env.step 100) (Env.Serves 100) {} setBitRateEdges :=
    Env.serves_inOrder {} _
  have hbus : setBitRateEdges.map (·.axi) =
      MainPhase.busTrace { requests := setBitRate } MainPhase.writeThenReadSlave := rfl
  obtain ⟨-, hmodel, hread⟩ := frontDoor_session serves hbus (by decide)
  exact ⟨hmodel .BRPR, hread _ _ ⟨[.tick], rfl⟩ .BRPR rfl rfl⟩

end Testbench.Canfd
