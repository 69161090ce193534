import Testbench.Axi4lite.MainPhase
import Testbench.Axi4lite.Monitor
import Testbench.Lib.Lists

/-!
The driver and the monitor of `axi4lite_agent` on one bus.

The monitor keeps one address and one word of data for each direction, and the driver never
has more than one of each on the bus. So what the monitor publishes are the items the driver
returned, in the order it was given them, for every slave that answers only what it was
asked (`published_items`), whether or not it waits for valid before it raises ready.
-/

namespace Testbench.Axi4lite

open Testbench.Lib

/-- The item of a task, once its response has been taken. -/
def Driver.answered (d : Driver) : List DriverItem :=
  if d.pc = .bLast ∨ d.pc = .rLast ∨ d.pc = .done then [d.tr] else []

namespace MainPhase

/-- The items whose response the driver has taken. -/
def returned (m : MainPhase) : List DriverItem := m.done ++ m.task.elim [] Driver.answered

/-- The items taken from the sequencer. -/
def started (m : MainPhase) : List DriverItem := m.done ++ (m.task.map Driver.tr).toList

end MainPhase

namespace Driver

/-- An edge changes the item only where the slave answers it. -/
theorem carries_edge {d : Driver} (h : d.Drives) (x : SlaveSignals) :
    d.tr.Carries (d.edge x).tr := by
  obtain ⟨pc, out, tr⟩ := d
  have hread := h.read
  cases pc with
  | bLast | rLast | done => exact .refl tr
  | aw | w | b =>
    simp only [edge, waitAw, waitW, waitB]
    split_ifs <;> exact ⟨rfl, rfl, rfl, fun _ => rfl⟩
  | ar | r =>
    have hdir : tr.dir = .read := hread rfl
    simp only [edge, waitAr, waitR]
    split_ifs <;> exact ⟨rfl, rfl, rfl, fun hwrite => by simp [hdir] at hwrite⟩

/-- A task ends one edge after it took its response. -/
theorem pc_of_edge_done {d : Driver} {x : SlaveSignals} (h : d.pc ≠ .done)
    (hend : (d.edge x).pc = .done) : d.pc = .bLast ∨ d.pc = .rLast ∨ d.pc = .done := by
  obtain ⟨pc, out, tr⟩ := d
  cases pc with
  | bLast => exact .inl rfl
  | rLast => exact .inr (.inl rfl)
  | done => exact absurd rfl h
  | aw | w | b | ar | r =>
    simp only [edge, waitAw, waitW, waitB, waitAr, waitR] at hend
    split_ifs at hend

/-- So does the start of a task. -/
theorem carries_startTask (out : MasterSignals) (tr : DriverItem) (x : SlaveSignals) :
    tr.Carries (startTask out tr x).tr := by
  unfold startTask
  split
  · simp only [doWrite, waitAw, waitW, waitB]
    split_ifs <;> exact ⟨rfl, rfl, rfl, fun _ => rfl⟩
  · next hdir =>
    simp only [doRead, waitAr, waitR]
    split_ifs <;> exact ⟨rfl, rfl, rfl, fun hwrite => absurd hwrite hdir⟩

end Driver

namespace MainPhase

/-! ### The order of the items -/

/-- The items asked for are those started, in order, and those still to come. -/
def InOrder (items : List DriverItem) (m : MainPhase) : Prop :=
  ∃ asked, items = asked ++ m.requests.reduceOption ∧
    List.Forall₂ DriverItem.Carries asked m.started

variable {items : List DriverItem} {m : MainPhase} {x : SlaveSignals}

/-- A started item is one that was asked for. -/
theorem InOrder.exists_item (h : InOrder items m) {tr : DriverItem} (htr : tr ∈ m.started) :
    ∃ tr' ∈ items, tr'.Carries tr := by
  obtain ⟨asked, rfl, hcarries⟩ := h
  obtain ⟨tr', hmem, hsame⟩ := exists_of_forall₂ hcarries htr
  exact ⟨tr', List.mem_append_left _ hmem, hsame⟩

theorem returned_prefix (m : MainPhase) : m.returned <+: m.started := by
  unfold returned started
  cases m.task with
  | none => exact List.prefix_rfl
  | some d =>
    refine (List.prefix_append_right_inj _).mpr ?_
    simp only [Option.elim_some, Driver.answered]
    split_ifs
    · exact List.prefix_rfl
    · exact List.nil_prefix

/-- The items returned are the first ones asked for. -/
theorem InOrder.carries_returned (h : InOrder items m) :
    List.Forall₂ DriverItem.Carries (items.take m.returned.length) m.returned := by
  obtain ⟨asked, rfl, hcarries⟩ := h
  obtain ⟨rest, hrest⟩ := returned_prefix m
  rw [← hrest] at hcarries
  have htake := List.forall₂_take_append _ _ _ hcarries
  have hlen : m.returned.length ≤ asked.length := by
    rw [hcarries.length_eq, List.length_append]
    exact Nat.le_add_right _ _
  rwa [List.take_append_of_le_length hlen]

theorem inOrder_poll (h : InOrder items m) (htask : m.task = none) (x : SlaveSignals) :
    InOrder items (m.poll x) := by
  obtain ⟨asked, hitems, hcarries⟩ := h
  simp only [started, htask, Option.map_none, Option.toList_none, List.append_nil] at hcarries
  unfold poll
  split
  · next hreq => exact ⟨asked, hitems, by simpa [started] using hcarries⟩
  · next requests hreq =>
    refine ⟨asked, ?_, by simpa [started] using hcarries⟩
    rw [hitems, hreq]
    rfl
  · next tr requests hreq =>
    refine ⟨asked ++ [tr], ?_, ?_⟩
    · rw [hitems, hreq, List.reduceOption_cons_of_some, List.append_assoc]
      rfl
    · exact List.rel_append hcarries (.cons (Driver.carries_startTask m.out tr x) .nil)

theorem inOrder_edge (h : InOrder items m) (drives : m.Drives) (x : SlaveSignals) :
    InOrder items (m.edge x) := by
  unfold edge
  split
  · next htask => exact inOrder_poll h htask x
  · next d htask =>
    obtain ⟨asked, hitems, hcarries⟩ := h
    rw [Drives, htask] at drives
    have hnext : List.Forall₂ DriverItem.Carries asked (m.done ++ [(d.edge x).tr]) := by
      rw [started, htask, Option.map_some, Option.toList_some] at hcarries
      have hdone := List.forall₂_take_append _ _ _ hcarries
      have hlast := List.forall₂_drop_append _ _ _ hcarries
      rw [← List.take_append_drop m.done.length asked]
      obtain ⟨tr, hdrop⟩ := List.length_eq_one_iff.mp hlast.length_eq
      rw [hdrop] at hlast ⊢
      obtain - | ⟨htr, -⟩ := hlast
      exact List.rel_append hdone (.cons (htr.trans (Driver.carries_edge drives.1 x)) .nil)
    dsimp only
    split
    · let m' := { m with out := (d.edge x).out, task := none, done := m.done ++ [(d.edge x).tr] }
      have hended : InOrder items m' := ⟨asked, hitems, by simpa [m', started] using hnext⟩
      exact inOrder_poll hended rfl x
    · exact ⟨asked, hitems, hnext⟩

/-! ### The words on the bus -/

/-- What the queues of the bus hold while a task runs: a word the slave took and did not
answer is one of the current item. -/
structure Holds (d : Driver) (b : Bus) : Prop where
  aw : b.aw = [] ∨ (d.pc = .w ∨ d.pc = .b) ∧ b.aw = [d.tr.addr]
  w : b.w = [] ∨ d.pc = .b ∧ b.w = [d.tr.data]
  ar : b.ar = [] ∨ d.pc = .r ∧ b.ar = [d.tr.addr]

theorem Holds.idle {d : Driver} {b : Bus} (h : Holds d b)
    (hpc : d.pc = .bLast ∨ d.pc = .rLast ∨ d.pc = .done) : b.Idle := by
  obtain ⟨haw, hw, har⟩ := h
  rcases hpc with hpc | hpc | hpc
  all_goals exact ⟨by simpa [hpc] using haw, by simpa [hpc] using hw, by simpa [hpc] using har⟩

/-- The bus and the driver agree: what is open belongs to the task, what is completed was
returned. -/
structure Agrees (m : MainPhase) (b : Bus) : Prop where
  drives : m.Drives
  completed : b.completed = m.returned.map (·.toAxi4liteTrans)
  holds : match m.task with
    | none => b.Idle
    | some d => Holds d b

variable {b : Bus}

/-- No word meets another on its channel. -/
theorem Agrees.noOverlap (h : Agrees m b) (x : SlaveSignals) : b.NoOverlap ⟨m.out, x⟩ := by
  obtain ⟨drives, -, holds⟩ := h
  cases htask : m.task with
  | none =>
    rw [htask] at holds
    exact ⟨fun _ => holds.aw, fun _ => holds.w, fun _ => holds.ar⟩
  | some d =>
    rw [htask] at holds
    rw [Drives, htask] at drives
    obtain ⟨hd, -, hout⟩ := drives
    rw [← hout]
    constructor
    · intro haw
      have hpc : d.pc = .aw := by
        by_contra hne
        simp [AxiSample.awHandshake, hd.awvalid, hne] at haw
      simpa [hpc] using holds.aw
    · intro hw
      have hpc : d.pc = .w := by
        by_contra hne
        simp [AxiSample.wHandshake, hd.wvalid, hne] at hw
      simpa [hpc] using holds.w
    · intro har
      have hpc : d.pc = .ar := by
        by_contra hne
        simp [AxiSample.arHandshake, hd.arvalid, hne] at har
      simpa [hpc] using holds.ar

/-- A new item starts with empty queues, and a slave that has been asked nothing answers
nothing. -/
theorem agrees_poll (idle : b.Idle) (htask : m.task = none) (drives : m.Drives)
    (completed : b.completed = m.done.map (·.toAxi4liteTrans)) (hb : x.bvalid = false)
    (hr : x.rvalid = false) : Agrees (m.poll x) b := by
  have hout : m.out.Idle := by
    rw [Drives, htask] at drives
    exact drives
  have drives' := drives_poll hout x
  rcases hreq : m.requests with _ | ⟨_ | tr, requests⟩
  · simp only [poll, hreq] at drives' ⊢
    exact ⟨drives', by simpa [returned] using completed, idle⟩
  · simp only [poll, hreq] at drives' ⊢
    exact ⟨drives', by simpa [returned] using completed, idle⟩
  · have hnone : (Driver.startTask m.out tr x).answered = [] := by
      simp only [Driver.startTask, Driver.doWrite, Driver.doRead, Driver.waitAw, Driver.waitW,
        Driver.waitB, Driver.waitAr, Driver.waitR, hb, hr, Bool.false_eq_true, reduceIte]
      split_ifs <;> simp [Driver.answered]
    simp only [poll, hreq] at drives' ⊢
    refine ⟨drives', ?_, .inl idle.aw, .inl idle.w, .inl idle.ar⟩
    simpa [returned, hnone] using completed

/-! ### One edge -/

/-- Nothing is handed over between tasks. -/
theorem step_idle (hout : m.out.Idle) : b.step ⟨m.out, x⟩ = b := by
  obtain ⟨haw, hw, hb, har, hr⟩ := hout
  have hresp : b.respond ⟨m.out, x⟩ = b := by
    simp [Bus.respond, Bus.completesWrite, AxiSample.bHandshake, hb]
  have hrespr : b.respondRead ⟨m.out, x⟩ = b := by
    simp [Bus.respondRead, Bus.completesRead, AxiSample.rHandshake, hr]
  simp [Bus.step, Bus.pushAw, Bus.pushW, Bus.pushAr, AxiSample.awHandshake, AxiSample.wHandshake,
    AxiSample.arHandshake, haw, hw, har, hresp, hrespr]

/-- Nothing but what the task is waiting for is handed over. -/
theorem step_task {d : Driver} (hd : d.Drives) : b.step ⟨d.out, x⟩ = match d.pc with
    | .aw => b.pushAw ⟨d.out, x⟩
    | .w => b.pushW ⟨d.out, x⟩
    | .b | .bLast => b.respond ⟨d.out, x⟩
    | .ar => b.pushAr ⟨d.out, x⟩
    | .r | .rLast => b.respondRead ⟨d.out, x⟩
    | .done => b := by
  obtain ⟨pc, out, tr⟩ := d
  obtain ⟨haw, hw, hb, har, hr, -⟩ := hd
  cases pc <;>
    simp_all [Bus.step, Bus.pushAw, Bus.pushW, Bus.pushAr, Bus.respond, Bus.respondRead,
      Bus.completesWrite, Bus.completesRead, AxiSample.awHandshake, AxiSample.wHandshake,
      AxiSample.arHandshake, AxiSample.bHandshake, AxiSample.rHandshake]

theorem respond_of_not_bvalid {out : MasterSignals} (h : ¬ x.bvalid = true) :
    b.respond ⟨out, x⟩ = b := by
  simp [Bus.respond, Bus.completesWrite, AxiSample.bHandshake, h]

theorem respondRead_of_not_rvalid {out : MasterSignals} (h : ¬ x.rvalid = true) :
    b.respondRead ⟨out, x⟩ = b := by
  simp [Bus.respondRead, Bus.completesRead, AxiSample.rHandshake, h]

/-- A task takes its response with the words of its own item. -/
theorem holds_edge {d : Driver} (hd : d.Drives) (holds : Holds d b)
    (answers : b.Answers ⟨d.out, x⟩) {base : List Axi4liteTrans}
    (completed : b.completed = base ++ d.answered.map (·.toAxi4liteTrans)) :
    Holds (d.edge x) (b.step ⟨d.out, x⟩) ∧ (b.step ⟨d.out, x⟩).completed =
      base ++ (d.edge x).answered.map (·.toAxi4liteTrans) := by
  rw [step_task hd]
  obtain ⟨pc, out, tr⟩ := d
  obtain ⟨haw, hw, har⟩ := holds
  obtain ⟨hbvalid, hrvalid⟩ := answers
  cases pc with
  | done => exact ⟨⟨haw, hw, har⟩, completed⟩
  | aw =>
    have haw : b.aw = [] := by simpa using haw
    have hw : b.w = [] := by simpa using hw
    have har : b.ar = [] := by simpa using har
    have hb : x.bvalid = false := by
      by_contra hb
      exact (hbvalid (by simpa using hb)).1 haw
    have hvalid := hd.awvalid
    have haddr := hd.awaddr rfl
    simp only [Driver.edge, Driver.waitAw, Driver.waitW, Driver.waitB, hb]
    split_ifs <;> constructor <;> try constructor
    all_goals simp_all [Bus.pushAw, AxiSample.awHandshake, Driver.answered]
  | w =>
    have hw : b.w = [] := by simpa using hw
    have har : b.ar = [] := by simpa using har
    have hb : x.bvalid = false := by
      by_contra hb
      exact (hbvalid (by simpa using hb)).2 hw
    have hvalid := hd.wvalid
    have hdata := hd.wdata rfl
    simp only [Driver.edge, Driver.waitW, Driver.waitB, hb]
    split_ifs <;> constructor <;> try constructor
    all_goals simp_all [Bus.pushW, AxiSample.wHandshake, Driver.answered]
  | b =>
    have har : b.ar = [] := by simpa using har
    have hready := hd.bready
    have hdir := hd.write rfl
    simp only [Driver.edge, Driver.waitB]
    split_ifs with hb
    · have haw : b.aw = [tr.addr] := by simpa [(hbvalid hb).1] using haw
      have hw : b.w = [tr.data] := by simpa [(hbvalid hb).2] using hw
      constructor
      · constructor <;> simp_all [Bus.respond, Bus.completesWrite, AxiSample.bHandshake]
      · simp_all [Bus.respond, Bus.completesWrite, AxiSample.bHandshake, Driver.answered]
    · rw [respond_of_not_bvalid hb]
      exact ⟨⟨haw, hw, .inl har⟩, completed⟩
  | bLast =>
    have hb : ¬ x.bvalid = true := by
      intro hb
      exact (hbvalid hb).1 (by simpa using haw)
    simp only [Driver.edge]
    rw [respond_of_not_bvalid hb]
    exact ⟨⟨by simpa using haw, by simpa using hw, by simpa using har⟩, completed⟩
  | ar =>
    have haw : b.aw = [] := by simpa using haw
    have hw : b.w = [] := by simpa using hw
    have har : b.ar = [] := by simpa using har
    have hr : x.rvalid = false := by
      by_contra hr
      exact hrvalid (by simpa using hr) har
    have hvalid := hd.arvalid
    have haddr := hd.araddr rfl
    simp only [Driver.edge, Driver.waitAr, Driver.waitR, hr]
    split_ifs <;> constructor <;> try constructor
    all_goals simp_all [Bus.pushAr, AxiSample.arHandshake, Driver.answered]
  | r =>
    have haw : b.aw = [] := by simpa using haw
    have hw : b.w = [] := by simpa using hw
    have hready := hd.rready
    have hdir := hd.read rfl
    simp only [Driver.edge, Driver.waitR]
    split_ifs with hr
    · have har : b.ar = [tr.addr] := by simpa [hrvalid hr] using har
      constructor
      · constructor <;> simp_all [Bus.respondRead, Bus.completesRead, AxiSample.rHandshake]
      · simp_all [Bus.respondRead, Bus.completesRead, AxiSample.rHandshake, Driver.answered]
    · rw [respondRead_of_not_rvalid hr]
      exact ⟨⟨.inl haw, .inl hw, har⟩, completed⟩
  | rLast =>
    have hr : ¬ x.rvalid = true := by
      intro hr
      exact hrvalid hr (by simpa using har)
    simp only [Driver.edge]
    rw [respondRead_of_not_rvalid hr]
    exact ⟨⟨by simpa using haw, by simpa using hw, by simpa using har⟩, completed⟩

/-- A slave that owes nothing answers nothing. -/
theorem quiet_of_idle {out : MasterSignals} (answers : b.Answers ⟨out, x⟩) (idle : b.Idle) :
    x.bvalid = false ∧ x.rvalid = false := by
  constructor
  · by_contra hb
    exact (answers.1 (by simpa using hb)).1 idle.aw
  · by_contra hr
    exact answers.2 (by simpa using hr) idle.ar

theorem agrees_edge (h : Agrees m b) (answers : b.Answers ⟨m.out, x⟩) :
    Agrees (m.edge x) (b.step ⟨m.out, x⟩) := by
  obtain ⟨drives, completed, holds⟩ := h
  cases htask : m.task with
  | none =>
    rw [htask] at holds
    have hout : m.out.Idle := by
      rw [Drives, htask] at drives
      exact drives
    rw [step_idle hout]
    simp only [edge, htask]
    obtain ⟨hb, hr⟩ := quiet_of_idle answers holds
    refine agrees_poll holds htask drives ?_ hb hr
    simpa [returned, htask] using completed
  | some d =>
    rw [htask] at holds
    have hd := drives
    rw [Drives, htask] at hd
    obtain ⟨hd, hdone, hout⟩ := hd
    rw [← hout] at answers ⊢
    have hreturned : b.completed =
        m.done.map (·.toAxi4liteTrans) ++ d.answered.map (·.toAxi4liteTrans) := by
      simpa [returned, htask] using completed
    obtain ⟨hholds, hcompleted⟩ := holds_edge hd holds answers hreturned
    have hdrives := Driver.drives_edge hd x
    simp only [edge, htask]
    split_ifs with hend
    · have idle := holds.idle (Driver.pc_of_edge_done hdone hend)
      obtain ⟨hb, hr⟩ := quiet_of_idle answers idle
      refine agrees_poll (hholds.idle (by simp [hend])) rfl (hdrives.idle hend) ?_ hb hr
      simpa [Driver.answered, hend] using hcompleted
    · refine ⟨⟨hdrives, hend, rfl⟩, ?_, hholds⟩
      simpa [returned] using hcompleted

/-! ### A session -/

theorem agrees_init (requests : List (Option DriverItem)) : Agrees { requests } {} :=
  ⟨⟨rfl, rfl, rfl, rfl, rfl⟩, rfl, rfl, rfl, rfl⟩

theorem agrees_run (h : Agrees m b) {xs : List SlaveSignals}
    (answers : Along Bus.step Bus.Answers b (m.busTrace xs)) :
    Agrees (run edge m xs) (run Bus.step b (m.busTrace xs)) ∧
      Along Bus.step Bus.NoOverlap b (m.busTrace xs) := by
  induction xs generalizing m b with
  | nil => exact ⟨h, trivial⟩
  | cons x xs ih =>
    obtain ⟨hagrees, halong⟩ := ih (agrees_edge h answers.1) answers.2
    exact ⟨hagrees, h.noOverlap x, halong⟩

theorem inOrder_init (requests : List (Option DriverItem)) :
    InOrder requests.reduceOption { requests } := ⟨[], rfl, .nil⟩

theorem inOrder_run (h : InOrder items m) (drives : m.Drives) (xs : List SlaveSignals) :
    InOrder items (run edge m xs) := by
  have hstep : ∀ m x, (InOrder items m ∧ m.Drives) → InOrder items (edge m x) ∧ (edge m x).Drives :=
    fun _ x hm => ⟨inOrder_edge hm.1 hm.2 x, drives_edge hm.2 x⟩
  exact (run_invariant hstep ⟨h, drives⟩ xs).1

/-- **For every slave that answers only what it was asked, the monitor publishes the items
the driver has returned, which are the first ones of the sequence, in order.** -/
theorem published_items (requests : List (Option DriverItem)) (xs : List SlaveSignals)
    (answers : Along Bus.step Bus.Answers {} (busTrace { requests } xs)) :
    (run Monitor.step {} (busTrace { requests } xs)).published =
        (run edge { requests } xs).returned.map (·.toAxi4liteTrans) ∧
      (run Bus.step {} (busTrace { requests } xs)).completed =
        (run edge { requests } xs).returned.map (·.toAxi4liteTrans) ∧
      List.Forall₂ DriverItem.Carries
        (requests.reduceOption.take (run edge { requests } xs).returned.length)
        (run edge { requests } xs).returned := by
  have init := agrees_init requests
  obtain ⟨hagrees, halong⟩ := agrees_run init answers
  have hfollows := Monitor.follows_run.2 (Monitor.follows_run.1.mpr halong)
  refine ⟨hfollows.published.trans hagrees.completed, hagrees.completed, ?_⟩
  exact (inOrder_run (inOrder_init requests) init.drives xs).carries_returned

/-- A write, a poll without an item, and a read. -/
def writeThenRead : List (Option DriverItem) :=
  [some { dir := .write, addr := 0x8, data := 2, resp := .okay, wstrb := 0xF }, none,
    some { dir := .read, addr := 0x18, data := 0, resp := .okay, wstrb := 0xF }]

/-- A slave that takes each word one edge after it came up. -/
def writeThenReadSlave : List SlaveSignals :=
  [{}, { awready := true }, { wready := true }, { bvalid := true, bresp := 2 }, {}, {},
    { arready := true }, { rvalid := true, rdata := 5 }]

theorem published_writeThenRead :
    (run Monitor.step {} (busTrace { requests := writeThenRead } writeThenReadSlave)).published =
      [{ dir := .write, addr := 0x8, data := 2, resp := .slverr },
        { dir := .read, addr := 0x18, data := 5, resp := .okay }] :=
  (published_items writeThenRead writeThenReadSlave (by decide)).1.trans (by decide)

end MainPhase

end Testbench.Axi4lite
