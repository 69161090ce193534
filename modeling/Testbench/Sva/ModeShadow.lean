import Testbench.Axi4lite.Progress
import Testbench.Sva.TbTop

/-!
`a_mode_mutex` of `sva_tb_top` (`canfd/sva/code/sva_tb_top.sv`) over a session of the driver.

The driver hands an address over before it puts the data on the bus, so the shadow takes the
data of the write before (`shadowItem`), and the assertion checks that: it fires iff a write
to 0x0004 comes right after a write of two mode bits, to whatever address
(`modeMutex_session`).
-/

namespace Testbench.Sva

open Testbench.Lib Testbench.Axi4lite

/-- Address and data of the writes among some items. -/
def writesOf (items : List DriverItem) : List (BitVec 32 × BitVec 32) :=
  (items.filter fun tr => tr.dir = .write).map fun tr => (tr.addr, tr.data)

/-- The shadow and the data bus after the address of a write was handed over. -/
def shadowItem (s : BitVec 32 × BitVec 32) (w : BitVec 32 × BitVec 32) : BitVec 32 × BitVec 32 :=
  (if w.1 = 0x0004#32 then s.2 else s.1, w.2)

@[simp] theorem writesOf_append (items items' : List DriverItem) :
    writesOf (items ++ items') = writesOf items ++ writesOf items' := by
  simp [writesOf]

theorem writesOf_singleton_read {tr : DriverItem} (h : tr.dir = .read) : writesOf [tr] = [] := by
  simp [writesOf, h]

theorem writesOf_singleton_write {tr : DriverItem} (h : tr.dir = .write) :
    writesOf [tr] = [(tr.addr, tr.data)] := by
  simp [writesOf, h]

/-- What the driver returns has the addresses and the data that were asked for. -/
theorem writesOf_carries {items items' : List DriverItem}
    (h : List.Forall₂ DriverItem.Carries items items') : writesOf items' = writesOf items := by
  induction h with
  | nil => rfl
  | @cons tr tr' items items' hcarries _ ih =>
    have hsplit : ∀ (tr : DriverItem) items,
        writesOf (tr :: items) = writesOf [tr] ++ writesOf items :=
      fun tr items => writesOf_append [tr] items
    rw [hsplit tr, hsplit tr', ih]
    cases hdir : tr.dir with
    | read =>
      rw [writesOf_singleton_read hdir, writesOf_singleton_read (hcarries.dir.trans hdir)]
    | write =>
      rw [writesOf_singleton_write hdir, writesOf_singleton_write (hcarries.dir.trans hdir),
        hcarries.addr, hcarries.data hdir]

/-! ### Addresses handed over -/

/-- The write of a task, once its address has been handed over. -/
def handedTask (d : Driver) : List (BitVec 32 × BitVec 32) :=
  match d.pc with
  | .aw | .ar => []
  | _ => writesOf [d.tr]

/-- The writes whose address has been handed over. -/
def handed (m : MainPhase) : List (BitVec 32 × BitVec 32) :=
  writesOf m.done ++ m.task.elim [] handedTask

variable {m : MainPhase} {b : Bus} {x : SlaveSignals}

/-- An edge hands over nothing, or one address, whose data is on the bus from then on. -/
structure Hands (m m' : MainPhase) (aw : Option (BitVec 32)) : Prop where
  word : (handed m' = handed m ∧ m'.out.wdata = m.out.wdata ∧ aw = none) ∨
    ∃ w : BitVec 32 × BitVec 32, handed m' = handed m ++ [w] ∧ m'.out.wdata = w.2 ∧ aw = some w.1

theorem awHandshake_eq_none {m : MainPhase} (h : m.out.awvalid = false) (x : SlaveSignals) :
    AxiSample.awHandshake ⟨m.out, x⟩ = none := by
  simp [AxiSample.awHandshake, h]

/-- A task that starts has handed over nothing. -/
theorem handed_poll (idle : b.Idle) (hb : x.bvalid = false) (hr : x.rvalid = false)
    (seen : (m.poll x).Seen b) :
    handed (m.poll x) = writesOf m.done ∧ (m.poll x).out.wdata = m.out.wdata := by
  rcases hreq : m.requests with _ | ⟨_ | tr, requests⟩
  · simp [MainPhase.poll, hreq, handed]
  · simp [MainPhase.poll, hreq, handed]
  · rw [MainPhase.seen_poll idle hb hr] at seen
    have hlate : ¬ if tr.dir = .write then x.awready = true else x.arready = true := by
      simpa [hreq] using seen
    simp only [MainPhase.poll, hreq, handed, Driver.startTask, Driver.doWrite, Driver.doRead,
      Driver.waitAw, Driver.waitAr]
    split_ifs at hlate ⊢ <;> simp_all [handedTask]

/-- Within a task the address of a write is handed over once. -/
theorem handedTask_edge {d : Driver} (hd : d.Drives)
    (hlate : ¬ (d.pc = .aw ∧ x.awready = true ∧ x.wready = true)) :
    (handedTask (d.edge x) = handedTask d ∧ (d.edge x).out.wdata = d.out.wdata ∧
        AxiSample.awHandshake ⟨d.out, x⟩ = none) ∨
      ∃ w : BitVec 32 × BitVec 32, handedTask (d.edge x) = handedTask d ++ [w] ∧
        (d.edge x).out.wdata = w.2 ∧ AxiSample.awHandshake ⟨d.out, x⟩ = some w.1 := by
  have hvalid := hd.awvalid
  have hwrite := hd.write
  have hread := hd.read
  have haddr := hd.awaddr
  obtain ⟨pc, out, tr⟩ := d
  cases pc with
  | aw =>
    have hdir : tr.dir = .write := hwrite rfl
    have haddr : out.awaddr = tr.addr := haddr rfl
    have hvalid : out.awvalid = true := hvalid
    by_cases hready : x.awready = true
    · have hwready : ¬ x.wready = true := fun h => hlate ⟨rfl, hready, h⟩
      refine .inr ⟨(tr.addr, tr.data), ?_⟩
      simp [Driver.edge, Driver.waitAw, Driver.waitW, hready, hwready, handedTask,
        writesOf_singleton_write hdir, AxiSample.awHandshake, hvalid, haddr]
    · left
      simp [Driver.edge, Driver.waitAw, hready, AxiSample.awHandshake]
  | ar =>
    have hdir : tr.dir = .read := hread rfl
    have hvalid : out.awvalid = false := hvalid
    left
    simp only [Driver.edge, Driver.waitAr, Driver.waitR]
    split_ifs <;> simp [handedTask, writesOf, hdir, AxiSample.awHandshake, hvalid]
  | r =>
    have hdir : tr.dir = .read := hread rfl
    have hvalid : out.awvalid = false := hvalid
    left
    simp only [Driver.edge, Driver.waitR]
    split_ifs <;> simp [handedTask, writesOf, hdir, AxiSample.awHandshake, hvalid]
  | w | b =>
    have hdir : tr.dir = .write := hwrite rfl
    have hvalid : out.awvalid = false := hvalid
    left
    simp only [Driver.edge, Driver.waitW, Driver.waitB]
    split_ifs <;> simp [handedTask, writesOf, hdir, AxiSample.awHandshake, hvalid]
  | bLast | rLast | done =>
    have hvalid : out.awvalid = false := hvalid
    left
    simp [Driver.edge, handedTask, AxiSample.awHandshake, hvalid]

theorem handed_edge (h : MainPhase.Agrees m b) (answers : b.Answers ⟨m.out, x⟩)
    (seen : (m.edge x).Seen (b.step ⟨m.out, x⟩)) :
    Hands m (m.edge x) (AxiSample.awHandshake ⟨m.out, x⟩) := by
  have hquiet := MainPhase.quiet_of_idle answers
  obtain ⟨-, hlate⟩ := (MainPhase.seen_edge h answers).mp seen
  obtain ⟨drives, -, holds⟩ := h
  cases htask : m.task with
  | none =>
    rw [htask] at holds
    rw [MainPhase.Drives, htask] at drives
    obtain ⟨hb, hr⟩ := hquiet holds
    rw [MainPhase.step_idle drives] at seen
    simp only [MainPhase.edge, htask] at seen ⊢
    obtain ⟨hhanded, hdata⟩ := handed_poll holds hb hr seen
    refine ⟨.inl ⟨?_, hdata, awHandshake_eq_none drives.awvalid x⟩⟩
    simpa [handed, htask] using hhanded
  | some d =>
    rw [htask] at holds
    rw [MainPhase.Drives, htask] at drives
    obtain ⟨hd, hdone, hout⟩ := drives
    have hnot : ¬ (d.pc = .aw ∧ x.awready = true ∧ x.wready = true) :=
      fun hpc => hlate (.inr ⟨d, htask, hpc⟩)
    have htask' := handedTask_edge hd hnot
    rw [← hout] at seen ⊢
    simp only [MainPhase.edge, htask] at seen ⊢
    split at seen
    · next hend =>
      rw [if_pos hend]
      have hpc := Driver.pc_of_edge_done hdone hend
      have idle := holds.idle hpc
      obtain ⟨hb, hr⟩ := hquiet idle
      rw [MainPhase.step_answered hd hpc hb hr] at seen
      obtain ⟨hhanded, hdata'⟩ := handed_poll idle hb hr seen
      have hpc' : d.pc ≠ .aw := by rcases hpc with hpc | hpc | hpc <;> simp [hpc]
      have hnone := awHandshake_eq_none (m := m) (by rw [← hout, hd.awvalid]; simp [hpc']) x
      have hended : handedTask (d.edge x) = writesOf [(d.edge x).tr] := by
        simp [handedTask, hend]
      rw [← hout] at hnone
      rcases htask' with ⟨hsame, hdata, -⟩ | ⟨w, -, -, hsome⟩
      · refine ⟨.inl ⟨?_, ?_, hnone⟩⟩
        · rw [hhanded]
          simp [handed, htask, ← hsame, hended]
        · rw [hdata', ← hout]
          exact hdata
      · rw [hnone] at hsome
        cases hsome
    · next hend =>
      rw [if_neg hend]
      constructor
      rw [← hout]
      rcases htask' with ⟨hsame, hdata, hnone⟩ | ⟨w, hnew, hdata, hsome⟩
      · exact .inl ⟨by simp [handed, htask, hsame], hdata, hnone⟩
      · exact .inr ⟨w, by simp [handed, htask, hnew], hdata, hsome⟩

/-! ### The shadow -/

/-- The shadow and the data bus are those of the writes handed over. -/
def Mirrors (m : MainPhase) (shadow : BitVec 32) : Prop :=
  (shadow, m.out.wdata) = run shadowItem (0, 0) (handed m)

theorem isMsrAddress_iff (x : AxiSample) :
    isMsrAddress x = true ↔ x.awHandshake = some 0x0004#32 := by
  unfold isMsrAddress AxiSample.awHandshake
  cases x.awvalid <;> cases x.awready <;> simp

theorem mirrors_step {m' : MainPhase} {shadow : BitVec 32} (h : Mirrors m shadow)
    (hands : Hands m m' (AxiSample.awHandshake ⟨m.out, x⟩)) :
    Mirrors m' (msrShadowStep true shadow ⟨m.out, x⟩) := by
  have hmsr := isMsrAddress_iff ⟨m.out, x⟩
  unfold Mirrors at h ⊢
  rcases hands with ⟨⟨hsame, hdata, hnone⟩ | ⟨w, hnew, hdata, hsome⟩⟩
  · rw [hnone] at hmsr
    rw [hsame, hdata, ← h]
    simp [msrShadowStep, hmsr]
  · rw [hnew, run_append_singleton, ← h, hdata]
    rw [hsome, Option.some_inj] at hmsr
    simp only [msrShadowStep, shadowItem, hmsr, Bool.not_true, Bool.false_eq_true, reduceIte]

theorem Hands.isPrefix {m m' : MainPhase} {aw : Option (BitVec 32)} (h : Hands m m' aw) :
    handed m <+: handed m' ∧ (handed m').length ≤ (handed m).length + 1 := by
  rcases h with ⟨⟨hsame, -⟩ | ⟨w, hnew, -⟩⟩
  · rw [hsame]
    exact ⟨List.prefix_rfl, Nat.le_succ _⟩
  · rw [hnew]
    exact ⟨List.prefix_append _ _, by simp⟩

/-- A slave that has seen everything has done so all along. -/
theorem seen_of_run (h : MainPhase.Agrees m b) {xs : List SlaveSignals}
    (answers : Along Bus.step Bus.Answers b (m.busTrace xs))
    (seen : (run MainPhase.edge m xs).Seen (run Bus.step b (m.busTrace xs))) : m.Seen b := by
  induction xs generalizing m b with
  | nil => exact seen
  | cons x xs ih =>
    have hnext := ih (MainPhase.agrees_edge h answers.1) answers.2 seen
    exact ((MainPhase.seen_edge h answers.1).mp hnext).1

/-- Through a session the shadow takes the values it has after each write, one after the
other. -/
theorem shadow_busTrace {shadow : BitVec 32} (h : MainPhase.Agrees m b) (mirrors : Mirrors m shadow)
    {xs : List SlaveSignals} (answers : Along Bus.step Bus.Answers b (m.busTrace xs))
    (seen : (run MainPhase.edge m xs).Seen (run Bus.step b (m.busTrace xs)))
    (p : BitVec 32 → Prop) :
    handed m <+: handed (run MainPhase.edge m xs) ∧
      ((∃ n, p (msrShadow shadow ((m.busTrace xs).take n))) ↔
        ∃ n, (handed m).length ≤ n ∧
          p (run shadowItem (0, 0) ((handed (run MainPhase.edge m xs)).take n)).1) := by
  have hshadow : p shadow ↔ p (run shadowItem (0, 0) (handed m)).1 := by rw [← mirrors]
  induction xs generalizing m b shadow with
  | nil =>
    refine ⟨List.prefix_rfl, ?_⟩
    constructor
    · rintro ⟨n, hn⟩
      refine ⟨_, le_rfl, ?_⟩
      rw [run_nil, List.take_length]
      rw [MainPhase.busTrace, trace, List.take_nil] at hn
      exact hshadow.mp hn
    · rintro ⟨n, hle, hn⟩
      rw [run_nil, List.take_of_length_le hle] at hn
      exact ⟨0, hshadow.mpr hn⟩
  | cons x xs ih =>
    have hagrees := MainPhase.agrees_edge h answers.1
    have hseen := seen_of_run hagrees answers.2 seen
    have hands := handed_edge h answers.1 hseen
    have mirrors' := mirrors_step mirrors hands
    obtain ⟨hbefore, hiff⟩ := ih hagrees mirrors' answers.2 seen (by rw [← mirrors'])
    obtain ⟨hedge, hlen⟩ := hands.isPrefix
    have hfirst : ((handed (run MainPhase.edge m (x :: xs))).take (handed m).length) = handed m :=
      List.prefix_iff_eq_take.mp (hedge.trans hbefore) |>.symm
    refine ⟨hedge.trans hbefore, ?_⟩
    constructor
    · rintro ⟨_ | n, hn⟩
      · exact ⟨_, le_rfl, by rw [hfirst]; exact hshadow.mp hn⟩
      · obtain ⟨k, hle, hk⟩ := hiff.mp ⟨n, hn⟩
        exact ⟨k, hedge.length_le.trans hle, hk⟩
    · rintro ⟨k, hle, hk⟩
      rcases hle.eq_or_lt with rfl | hlt
      · rw [hfirst] at hk
        exact ⟨0, hshadow.mpr hk⟩
      · obtain ⟨n, hn⟩ := hiff.mpr ⟨k, hlen.trans hlt, hk⟩
        exact ⟨n + 1, hn⟩

/-! ### Sessions -/

/-- A write to 0x0004 comes right after a write of two modes. -/
def StaleModes : BitVec 32 → List (BitVec 32 × BitVec 32) → Prop
  | _, [] => False
  | data, w :: ws => w.1 = 0x0004#32 ∧ twoModes data = true ∨ StaleModes w.2 ws

theorem staleModes_iff (shadow data : BitVec 32) (ws : List (BitVec 32 × BitVec 32)) :
    (∃ n, modeMutex (run shadowItem (shadow, data) (ws.take n)).1 = false) ↔
      twoModes shadow = true ∨ StaleModes data ws := by
  induction ws generalizing shadow data with
  | nil => simp [StaleModes, modeMutex_eq]
  | cons w ws ih =>
    have hsplit : (∃ n, modeMutex (run shadowItem (shadow, data) ((w :: ws).take n)).1 = false) ↔
        modeMutex shadow = false ∨
          ∃ n, modeMutex (run shadowItem (shadowItem (shadow, data) w) (ws.take n)).1 = false := by
      constructor
      · rintro ⟨_ | n, hn⟩
        · exact .inl hn
        · exact .inr ⟨n, hn⟩
      · rintro (hn | ⟨n, hn⟩)
        · exact ⟨0, hn⟩
        · exact ⟨n + 1, hn⟩
    rw [hsplit, shadowItem, ih, modeMutex_eq, StaleModes]
    split_ifs with hmsr
    · simp [hmsr]
    · simp [hmsr]

/-- When every item is returned none is under way. -/
theorem returned_eq_started {items : List DriverItem} (order : MainPhase.InOrder items m)
    (hall : m.returned.length = items.length) : m.returned = m.started := by
  obtain ⟨asked, rfl, hcarries⟩ := order
  have hbefore := m.returned_prefix
  refine hbefore.eq_of_length_le ?_
  rw [hall, ← hcarries.length_eq, List.length_append]
  exact Nat.le_add_right _ _

theorem handed_of_returned (h : m.returned = m.started) : handed m = writesOf m.returned := by
  unfold MainPhase.returned MainPhase.started at h
  unfold handed MainPhase.returned
  rw [writesOf_append]
  cases htask : m.task with
  | none => simp [writesOf]
  | some d =>
    rw [htask] at h
    simp only [Option.elim_some, Option.map_some, Option.toList_some, List.append_cancel_left_eq,
      Driver.answered] at h ⊢
    split at h
    · next hpc =>
      rw [if_pos hpc]
      rcases hpc with hpc | hpc | hpc <;> simp [handedTask, hpc]
    · cases h

/-- A write of two modes to another register, and then one of none to the mode register. -/
def staleRequests : List (Option DriverItem) :=
  [some { dir := .write, addr := 0x8C, data := 0x10103, resp := .okay, wstrb := 0xF },
    some { dir := .write, addr := 0x4, data := 0, resp := .okay, wstrb := 0xF }]

def staleSlave : List SlaveSignals :=
  [{}, { awready := true }, { wready := true }, { bvalid := true }, {},
    { awready := true }, { wready := true }, { bvalid := true }]

end Testbench.Sva
