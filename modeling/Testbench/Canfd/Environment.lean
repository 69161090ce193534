import Testbench.Axi4lite.Monitor
import Testbench.Canfd.RxFifo
import Testbench.Canfd.Verdict
import Testbench.Canphy.Burst

/-!
The environment `canfd_env` (`canfd/env/canfd_env.sv`): the monitors of both agents,
connected to the scoreboard.

At each clock edge the monitors sample the three interfaces and write what they complete to
the scoreboard's FIFOs; the scoreboard's threads are woken and take the items in any order,
each FIFO in its own. What holds of a run holds for every such order.
-/

namespace Testbench.Canfd

open Testbench.Lib Testbench.Canphy Testbench.Axi4lite

/-- What the monitors sample at one clock edge. -/
structure EnvSample where
  canPhyTx : Bool
  canPhyRx : Bool
  axi : AxiSample

/-- A clock edge and the items the scoreboard's threads take after it, in the order they
take them. -/
structure EnvEdge extends EnvSample where
  served : List ScbOp

/-- `canfd_env`: the threads of `canphy_monitor`, `axi4lite_monitor` and the scoreboard. -/
structure Env where
  canphyTx : Canphy.Monitor := {}
  canphyRx : Canphy.Monitor := {}
  axi4lite : Axi4lite.Monitor := {}
  scb : Scoreboard := {}

namespace Env

/-- What is written to the scoreboard's FIFOs at an edge, and its tick. -/
def items (cyclesPerBit : Nat) (e : Env) (x : EnvSample) : List ScbOp :=
  (((e.canphyTx.step cyclesPerBit x.canPhyTx).published .canDirTx).drop
      (e.canphyTx.published .canDirTx).length).map .tx ++
    (((e.canphyRx.step cyclesPerBit x.canPhyRx).published .canDirRx).drop
      (e.canphyRx.published .canDirRx).length).map .rx ++
    ((e.axi4lite.step x.axi).published.drop e.axi4lite.published.length).map .axi ++ [.tick]

/-- The threads take what was written, and AXI transactions in their order. -/
structure Serves (cyclesPerBit : Nat) (e : Env) (x : EnvEdge) : Prop where
  perm : x.served.Perm (e.items cyclesPerBit x.toEnvSample)
  axi : (x.served.filter fun op => op matches .axi _) =
    (e.items cyclesPerBit x.toEnvSample).filter fun op => op matches .axi _

/-- One clock edge. -/
def step (cyclesPerBit : Nat) (e : Env) (x : EnvEdge) : Env where
  canphyTx := e.canphyTx.step cyclesPerBit x.canPhyTx
  canphyRx := e.canphyRx.step cyclesPerBit x.canPhyRx
  axi4lite := e.axi4lite.step x.axi
  scb := run Scoreboard.step e.scb x.served

/-- The run in which the threads take the items in the order they were written. -/
def inOrder (cyclesPerBit : Nat) : Env → List EnvSample → List EnvEdge
  | _, [] => []
  | e, x :: samples =>
      let edge : EnvEdge := { x with served := e.items cyclesPerBit x }
      edge :: inOrder cyclesPerBit (e.step cyclesPerBit edge) samples

variable {cyclesPerBit : Nat}

theorem serves_inOrder (e : Env) (samples : List EnvSample) :
    Along (step cyclesPerBit) (Serves cyclesPerBit) e (inOrder cyclesPerBit e samples) := by
  induction samples generalizing e with
  | nil => trivial
  | cons x samples ih => exact ⟨⟨.refl _, rfl⟩, ih _⟩

/-- The scoreboard sees the items of all edges. -/
theorem scb_run (e : Env) (edges : List EnvEdge) :
    (run (step cyclesPerBit) e edges).scb =
      run Scoreboard.step e.scb (edges.flatMap fun x => x.served) :=
  run_map (fun _ _ => rfl) e edges

end Env

/-! ### Blank frames at the scoreboard -/

/-- The frames among the scoreboard's items are blank. -/
def ScbOp.Blank : ScbOp → Prop
  | .tx tr => BlankFrame .canDirTx tr
  | .rx tr => BlankFrame .canDirRx tr
  | _ => True

theorem blankFrame_of_published {dir : CanDirection} {m : Canphy.Monitor} {tr : CanphyTrans}
    (h : tr ∈ m.published dir) : BlankFrame dir tr := by
  obtain ⟨q, -, hq⟩ := List.mem_filterMap.mp h
  exact ((parseFrame_spec dir q).2 tr hq).1

theorem Env.blank_items {cyclesPerBit : Nat} {e : Env} {x : EnvSample} :
    ∀ op ∈ e.items cyclesPerBit x, op.Blank := by
  intro op hop
  simp only [Env.items, List.mem_append, List.mem_map, List.mem_singleton] at hop
  rcases hop with ((⟨tr, htr, rfl⟩ | ⟨tr, htr, rfl⟩) | ⟨tr, -, rfl⟩) | rfl
  · exact blankFrame_of_published (List.mem_of_mem_drop htr)
  · exact blankFrame_of_published (List.mem_of_mem_drop htr)
  · trivial
  · trivial

/-- Every item of a run is blank. -/
theorem Env.blank_served {cyclesPerBit : Nat} {e : Env} {edges : List EnvEdge}
    (h : Along (Env.step cyclesPerBit) (Env.Serves cyclesPerBit) e edges) :
    ∀ op ∈ edges.flatMap fun x => x.served, op.Blank := by
  induction edges generalizing e with
  | nil => simp
  | cons x edges ih =>
    obtain ⟨hserves, hrest⟩ := h
    intro op hop
    rw [List.flatMap_cons] at hop
    rcases List.mem_append.mp hop with hnow | hlater
    · exact Env.blank_items op (hserves.perm.subset hnow)
    · exact ih hrest op hlater

/-- What `get_expected_tx_frame` returns for a buffer with a standard data frame, identifier 0,
and no payload. -/
structure ExpectsBlank (exp : CanphyTrans) : Prop where
  frameType : exp.frameType = .canStdData
  canId : exp.canId = 0
  dlc : exp.dlc = 0
  brs : exp.brs = false

/-- **Against a blank frame the comparison passes for one expected frame only.** -/
theorem txFrameMatches_blank_iff {dir : CanDirection} {b : TxBuf} {act : CanphyTrans}
    (h : BlankFrame dir act) :
    Scoreboard.txFrameMatches (RefModel.expectedFrame b) act = true ↔
      ExpectsBlank (RefModel.expectedFrame b) ∧ act.dlc = 0 := by
  have htype : ∀ fdf rtr ide, frameTypeOf fdf rtr ide = .canStdData →
      fdf = false ∧ rtr = false := by
    decide
  obtain ⟨-, -, hfdf, hbrs, -⟩ := h.flags
  constructor
  · intro hmatch
    simp only [Scoreboard.txFrameMatches, Bool.and_eq_true, decide_eq_true_iff, h.frameType,
      h.canId, hfdf, hbrs] at hmatch
    obtain ⟨⟨⟨⟨⟨hexpType, hid⟩, hdlc⟩, -⟩, hexpBrs⟩, hdata⟩ := hmatch
    have hzero : act.dlc = 0 := by
      rcases h.payload with ⟨hdlc0, -⟩ | ⟨-, hdlc1, hunknown⟩
      · exact hdlc0
      · -- one byte is expected, and the byte seen is unknown
        obtain ⟨-, hrtr⟩ := htype b.fdf b.rtr b.ide hexpType
        have hone : b.dlc = 1 := hdlc.trans hdlc1
        simp [RefModel.expectedFrame, hone, hrtr, hunknown, dlcToBytes] at hdata
    exact ⟨⟨hexpType, hid, hdlc.trans hzero, hexpBrs⟩, hzero⟩
  · rintro ⟨⟨hexpType, hid, hdlc, hexpBrs⟩, hzero⟩
    obtain ⟨hexpFdf, -⟩ := htype b.fdf b.rtr b.ide hexpType
    have hempty : (RefModel.expectedFrame b).data = [] := by
      have hb : b.dlc = 0 := hdlc
      simp [RefModel.expectedFrame, hb, dlcToBytes]
    have hfdf' : (RefModel.expectedFrame b).fdf = false := hexpFdf
    simp [Scoreboard.txFrameMatches, hexpType, hid, hdlc, hexpBrs, hzero, hempty, hfdf',
      h.frameType, h.canId, hfdf, hbrs]

/-- A message stored for a blank frame. -/
structure BlankMsg (msg : RxMsg) : Prop where
  id : msg.id = 0
  flags : msg.ide = false ∧ msg.rtr = false ∧ msg.fdf = false ∧ msg.brs = false ∧ msg.esi = false
  dlc : msg.dlc = 0 ∨ msg.dlc = 1
  data : ∀ i, msg.data i = 0

theorem blankMsg_rxMsgOf {dir : CanDirection} {tr : CanphyTrans} (h : BlankFrame dir tr)
    (tsr : BitVec 16) : BlankMsg (RefModel.rxMsgOf tr tsr) where
  id := h.canId
  flags := h.flags
  dlc := h.payload.imp (fun h => h.1) (fun h => h.2.1)
  data i := by
    rcases h.payload with ⟨-, hdata⟩ | ⟨-, -, hdata⟩
    · simp [RefModel.rxMsgOf, hdata, LogicByte.toBits]
    · simp only [RefModel.rxMsgOf, hdata]
      rcases Nat.eq_zero_or_pos i.val with hi | hi
      · simp [hi, LogicByte.toBits]
      · rw [List.getElem?_eq_none hi]
        rfl

/-- A FIFO holds messages it held before and one made from a received frame. -/
theorem mem_fifo_step {k : Fin 2} {m : RefModel} {op : RefOp} {msg : RxMsg}
    (h : msg ∈ (m.step op).fifo k) :
    msg ∈ m.fifo k ∨ ∃ tr, op = .received tr ∧ msg = RefModel.rxMsgOf tr m.tsr := by
  refine (mem_of_effect (m.fifo_effect k op) h).imp_right ?_
  rintro ⟨a, hoffer, rfl⟩
  obtain ⟨tr, rfl, hmatch⟩ := RefModel.received_of_offer hoffer
  rw [RefModel.fifoEvent, if_pos hmatch] at hoffer
  cases hoffer
  exact ⟨tr, rfl, rfl⟩

/-- Both FIFOs hold blank messages only. -/
def RefModel.BlankFifos (m : RefModel) : Prop := ∀ k, ∀ msg ∈ m.fifo k, BlankMsg msg

theorem blankFifos_step (s : Scoreboard) (op : ScbOp) (h : s.refModel.BlankFifos)
    (hop : op.Blank) : (s.step op).refModel.BlankFifos := by
  rw [s.refModel_step op]
  have hstep : ∀ (m : RefModel) (op' : RefOp), m.BlankFifos →
      (∀ tr, op' = .received tr → ∃ dir, BlankFrame dir tr) → (m.step op').BlankFifos := by
    intro m op' hm hreceived k msg hmsg
    rcases mem_fifo_step hmsg with hold | ⟨tr, htr, rfl⟩
    · exact hm k msg hold
    · obtain ⟨dir, hblank⟩ := hreceived tr htr
      exact blankMsg_rxMsgOf hblank m.tsr
  refine along_invariant hstep h (along_of_forall ?_ _)
  · rintro m op' hmem tr rfl
    cases op with
    | rx tr' =>
      obtain rfl : tr = tr' := by simpa [Scoreboard.refOps] using hmem
      exact ⟨_, hop⟩
    | tx tr' =>
      simp only [Scoreboard.refOps] at hmem
      split at hmem <;> simp at hmem
    | axi tr' =>
      simp only [Scoreboard.refOps] at hmem
      split at hmem
      · simp only [Scoreboard.writeOps] at hmem
        split at hmem <;> simp at hmem
      · simp at hmem
    | tick => simp [Scoreboard.refOps] at hmem

/-- **The environment does not see what is in a frame.** In every run from any state, whatever
the DUT and the bus do and in whatever order the scoreboard's threads run, a TX comparison
passes only if a standard data frame with identifier 0 and DLC 0 is expected, and both RX FIFOs
of the reference model hold nothing but blank messages if they held no others at the start. -/
theorem run_blank {cyclesPerBit : Nat} {e : Env} {edges : List EnvEdge}
    (h : Along (Env.step cyclesPerBit) (Env.Serves cyclesPerBit) e edges) :
    Along Scoreboard.step
        (fun s op => ∀ c ∈ s.comparison op,
          (Scoreboard.txFrameMatches c.1 c.2 = true ↔ ExpectsBlank c.1 ∧ c.2.dlc = 0))
        e.scb (edges.flatMap fun x => x.served) ∧
      (e.scb.refModel.BlankFifos →
        (run (Env.step cyclesPerBit) e edges).scb.refModel.BlankFifos) := by
  have hblank := Env.blank_served h
  constructor
  · refine along_of_forall (fun s op hop c hc => ?_) _
    cases op with
    | tx tr =>
      have hframe : BlankFrame .canDirTx tr := hblank _ hop
      simp only [Scoreboard.comparison] at hc
      split at hc
      · cases hc
      · obtain ⟨exp, hexp, rfl⟩ := Option.map_eq_some_iff.mp hc
        obtain ⟨i, -, rfl⟩ := Option.map_eq_some_iff.mp hexp
        exact txFrameMatches_blank_iff hframe
    | _ => cases hc
  · intro hstart
    rw [Env.scb_run]
    have hstep : ∀ (s : Scoreboard) (op : ScbOp), s.refModel.BlankFifos → op.Blank →
        (s.step op).refModel.BlankFifos := fun s op hs hop => blankFifos_step s op hs hop
    exact along_invariant hstep hstart (along_of_forall (fun _ op hop => hblank op hop) _)

/-- The environment just built, with a blank frame requested from buffer 0. -/
def requestedEnv : Env where
  scb := { refModel := .preset requested (fun _ => {}) fun _ => {} }
where
  requested (i : Fin 32) : TxBuf := if i = 0 then { valid := true, readyReq := true } else {}

theorem blankFifos_requestedEnv : requestedEnv.scb.refModel.BlankFifos := by
  intro k msg hmsg
  have hempty : requestedEnv.scb.refModel.fifo k = [] := ite_self _
  rw [hempty] at hmsg
  cases hmsg

/-- A burst on both lines, one clock cycle to a bit. -/
def burstSamples : List EnvSample :=
  (burstQueue 30).map fun x => { canPhyTx := x, canPhyRx := x, axi := {} }

/-- One comparison is made for it, which passes, and one message is stored. -/
theorem run_blank_burst :
    (run (Env.step 1) requestedEnv (Env.inOrder 1 requestedEnv burstSamples)).scb.passCount = 1 ∧
      (run (Env.step 1) requestedEnv
        (Env.inOrder 1 requestedEnv burstSamples)).scb.refModel.rxFifo0.length = 1 ∧
      Along Scoreboard.step
        (fun s op => ∀ c ∈ s.comparison op,
          (Scoreboard.txFrameMatches c.1 c.2 = true ↔ ExpectsBlank c.1 ∧ c.2.dlc = 0))
        requestedEnv.scb ((Env.inOrder 1 requestedEnv burstSamples).flatMap fun x => x.served) ∧
      (run (Env.step 1) requestedEnv
        (Env.inOrder 1 requestedEnv burstSamples)).scb.refModel.BlankFifos := by
  obtain ⟨hcompared, hfifos⟩ := run_blank (@Env.serves_inOrder 1 requestedEnv burstSamples)
  exact ⟨by decide +kernel, by decide +kernel, hcompared, hfifos blankFifos_requestedEnv⟩

end Testbench.Canfd
