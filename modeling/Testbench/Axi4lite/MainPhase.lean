import Testbench.Axi4lite.Driver

/-!
`main_phase` of `axi4lite_driver` (`canfd/uvc/axi4lite/axi4lite_driver.sv`): one task after
the other, as items come in.

`edge` is one clock edge of the loop. A task that ends is followed by the next poll at the
same edge, so a new task may start where the last one ended. `Drives` says what the master's
signals are at each statement a task can be suspended at; it holds for every behaviour of
the slave, and so does the stability of the valid signals (`busTrace_holds`).
-/

namespace Testbench.Axi4lite

open Testbench.Lib

namespace Driver

/-- `if (req.dir == AXI4LITE_WRITE) do_write(req); else do_read(req);`. -/
def startTask (out : MasterSignals) (tr : DriverItem) (x : SlaveSignals) : Driver :=
  if tr.dir = .write then doWrite out tr x else doRead out tr x

end Driver

/-- The loop of `main_phase`: the master's signals, the task that is running, what
`try_next_item` will return, and the items returned by `item_done`. -/
structure MainPhase where
  out : MasterSignals := {}
  task : Option Driver := none
  requests : List (Option DriverItem) := []
  done : List DriverItem := []

namespace MainPhase

/-- `try_next_item` and what follows it up to the next edge; it returns null when there is
nothing left. -/
def poll (m : MainPhase) (x : SlaveSignals) : MainPhase :=
  match m.requests with
  | [] => { m with task := none }
  | none :: requests => { m with task := none, requests }
  | some tr :: requests =>
      let d := Driver.startTask m.out tr x
      { m with out := d.out, task := some d, requests }

/-- The next clock edge. -/
def edge (m : MainPhase) (x : SlaveSignals) : MainPhase :=
  match m.task with
  | none => m.poll x
  | some d =>
      let d := d.edge x
      if d.pc = .done then poll { m with out := d.out, task := none, done := m.done ++ [d.tr] } x
      else { m with out := d.out, task := some d }

/-- What the monitor and the assertions sample: the bus at each edge. -/
def busTrace (m : MainPhase) (xs : List SlaveSignals) : List AxiSample :=
  trace edge (fun m x => ⟨m.out, x⟩) m xs

end MainPhase

/-! ### What a task drives -/

/-- The statements of `do_write`. -/
def Pc.ofWrite : Pc → Bool
  | .aw | .w | .b | .bLast => true
  | _ => false

/-- The statements of `do_read`. -/
def Pc.ofRead : Pc → Bool
  | .ar | .r | .rLast => true
  | _ => false

/-- The master's signals while a task is suspended. -/
structure Driver.Drives (d : Driver) : Prop where
  awvalid : d.out.awvalid = decide (d.pc = .aw)
  wvalid : d.out.wvalid = decide (d.pc = .w)
  bready : d.out.bready = decide (d.pc = .b ∨ d.pc = .bLast)
  arvalid : d.out.arvalid = decide (d.pc = .ar)
  rready : d.out.rready = decide (d.pc = .r ∨ d.pc = .rLast)
  awaddr : d.pc = .aw → d.out.awaddr = d.tr.addr
  wdata : d.pc = .w → d.out.wdata = d.tr.data ∧ d.out.wstrb = d.tr.wstrb
  araddr : d.pc = .ar → d.out.araddr = d.tr.addr
  write : d.pc.ofWrite = true → d.tr.dir = .write
  read : d.pc.ofRead = true → d.tr.dir = .read

namespace Driver

variable {d : Driver} {x : SlaveSignals}

theorem drives_startTask {out : MasterSignals} (idle : out.Idle) (tr : DriverItem)
    (x : SlaveSignals) : (startTask out tr x).Drives ∧ (startTask out tr x).pc ≠ .done := by
  obtain ⟨haw, hw, hb, har, hr⟩ := idle
  unfold startTask
  split
  · next hdir =>
    simp only [doWrite, waitAw, waitW, waitB]
    split_ifs
    all_goals
      refine ⟨?_, by simp⟩
      constructor <;> simp_all [Pc.ofWrite, Pc.ofRead]
  · next hdir =>
    have hread : tr.dir = .read := by
      cases h : tr.dir with
      | read => rfl
      | write => exact absurd h hdir
    simp only [doRead, waitAr, waitR]
    split_ifs
    all_goals
      refine ⟨?_, by simp⟩
      constructor <;> simp_all [Pc.ofWrite, Pc.ofRead]

theorem drives_edge (h : d.Drives) (x : SlaveSignals) : (d.edge x).Drives := by
  obtain ⟨pc, out, tr⟩ := d
  obtain ⟨haw, hw, hb, har, hr, hawaddr, hwdata, haraddr, hwrite, hread⟩ := h
  cases pc with
  | bLast | rLast | done => constructor <;> simp_all [edge, Pc.ofWrite, Pc.ofRead]
  | aw | w | b | ar | r =>
    simp only [edge, waitAw, waitW, waitB, waitAr, waitR]
    split_ifs
    all_goals constructor <;> simp_all [Pc.ofWrite, Pc.ofRead]

theorem edge_waitAw (h : d.pc = .aw) (hx : x.awready = false) : d.edge x = d := by
  obtain ⟨pc, out, tr⟩ := d
  cases h
  simp [edge, waitAw, hx]

theorem edge_waitW (h : d.pc = .w) (hx : x.wready = false) : d.edge x = d := by
  obtain ⟨pc, out, tr⟩ := d
  cases h
  simp [edge, waitW, hx]

theorem edge_waitAr (h : d.pc = .ar) (hx : x.arready = false) : d.edge x = d := by
  obtain ⟨pc, out, tr⟩ := d
  cases h
  simp [edge, waitAr, hx]

/-- A task that has ended leaves the bus idle. -/
theorem Drives.idle (h : d.Drives) (hdone : d.pc = .done) : d.out.Idle where
  awvalid := by simp [h.awvalid, hdone]
  wvalid := by simp [h.wvalid, hdone]
  bready := by simp [h.bready, hdone]
  arvalid := by simp [h.arvalid, hdone]
  rready := by simp [h.rready, hdone]

end Driver

namespace MainPhase

/-- Between tasks the bus is idle, and during a task it carries what the task drives. -/
def Drives (m : MainPhase) : Prop :=
  match m.task with
  | none => m.out.Idle
  | some d => d.Drives ∧ d.pc ≠ .done ∧ d.out = m.out

variable {m : MainPhase} {x : SlaveSignals}

theorem drives_poll (idle : m.out.Idle) (x : SlaveSignals) : (m.poll x).Drives := by
  unfold poll
  split
  · exact idle
  · exact idle
  · next tr requests _ =>
    obtain ⟨hdrives, hpc⟩ := Driver.drives_startTask idle tr x
    exact ⟨hdrives, hpc, rfl⟩

theorem drives_edge (h : m.Drives) (x : SlaveSignals) : (m.edge x).Drives := by
  unfold Drives at h
  unfold edge
  split
  · next htask =>
    rw [htask] at h
    exact drives_poll h x
  · next d htask =>
    rw [htask] at h
    have hd := Driver.drives_edge h.1 x
    dsimp only
    split
    · next hdone => exact drives_poll (hd.idle hdone) x
    · next hdone => exact ⟨hd, hdone, rfl⟩

/-! ### Stability -/

/-- A task that waits leaves the bus as it is. -/
theorem out_edge_of_wait {d : Driver} (h : m.Drives) (htask : m.task = some d)
    (hwait : d.edge x = d) : (m.edge x).out = m.out := by
  rw [Drives, htask] at h
  obtain ⟨-, hdone, hout⟩ := h
  unfold edge
  rw [htask]
  dsimp only
  rw [hwait, if_neg hdone]
  exact hout

/-- At the next edge a valid word is still there unless it is taken. -/
theorem masterHolds_edge (h : m.Drives) (x y : SlaveSignals) :
    AxiSample.MasterHolds ⟨m.out, x⟩ ⟨(m.edge x).out, y⟩ := by
  cases htask : m.task with
  | none =>
    rw [Drives, htask] at h
    obtain ⟨haw, hw, -, har, -⟩ := h
    constructor <;> simp [haw, hw, har]
  | some d =>
    have hout : d.edge x = d → (m.edge x).out = m.out := out_edge_of_wait h htask
    rw [Drives, htask] at h
    obtain ⟨hd, -, hm⟩ := h
    constructor
    · intro hvalid hready
      have haw : m.out.awvalid = true := hvalid
      rw [← hm, hd.awvalid] at haw
      have hsame := hout (Driver.edge_waitAw (of_decide_eq_true haw) hready)
      exact ⟨by rw [hsame]; exact hvalid, by rw [hsame]⟩
    · intro hvalid hready
      have hw : m.out.wvalid = true := hvalid
      rw [← hm, hd.wvalid] at hw
      have hsame := hout (Driver.edge_waitW (of_decide_eq_true hw) hready)
      exact ⟨by rw [hsame]; exact hvalid, by rw [hsame], by rw [hsame]⟩
    · intro hvalid hready
      have har : m.out.arvalid = true := hvalid
      rw [← hm, hd.arvalid] at har
      have hsame := hout (Driver.edge_waitAr (of_decide_eq_true har) hready)
      exact ⟨by rw [hsame]; exact hvalid, by rw [hsame]⟩

/-- **For every slave and every sequence of items, a valid word stays until it is taken.** -/
theorem busTrace_holds (h : m.Drives) (xs : List SlaveSignals) :
    (m.busTrace xs).IsChain AxiSample.MasterHolds := by
  induction xs generalizing m with
  | nil => exact .nil
  | cons x xs ih =>
    cases xs with
    | nil => exact .singleton _
    | cons y ys => exact .cons_cons (masterHolds_edge h x y) (ih (drives_edge h x))

/-- At no edge are an address and data handed over, or both an address to write to and one
to read from. -/
theorem busTrace_exclusive (h : m.Drives) (xs : List SlaveSignals) :
    ∀ x ∈ m.busTrace xs, (x.awvalid && x.wvalid) = false ∧ (x.awvalid && x.arvalid) = false := by
  induction xs generalizing m with
  | nil => simp [busTrace, trace]
  | cons x xs ih =>
    intro y hy
    rcases List.mem_cons.mp hy with rfl | hy
    · cases htask : m.task with
      | none =>
        rw [Drives, htask] at h
        simp [h.awvalid]
      | some d =>
        rw [Drives, htask] at h
        obtain ⟨hd, -, hm⟩ := h
        dsimp only
        rw [← hm, hd.awvalid, hd.wvalid, hd.arvalid]
        cases d.pc <;> decide
    · exact ih (drives_edge h x) y hy

end MainPhase

end Testbench.Axi4lite
