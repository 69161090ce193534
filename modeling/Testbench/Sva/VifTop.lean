import Testbench.Axi4lite.PublishedItems

/-!
The AXI assertions of `sva_vif_top`, `sva_vif_axi4lite` and `sva_tb_top`
(`canfd/sva/code/sva_vif_top.sv`, `sva_vif_ucspi.sv`, `sva_tb_top.sv`) on the bus that
`axi4lite_driver` drives.

A property is evaluated at each edge of a trace out of reset; `|=>` relates an edge to the
next one. `session_assertions` says which of them no session of the driver can make fail,
and `aligned_iff` when the alignment assertions fail.
-/

namespace Testbench.Sva

open Testbench.Lib Testbench.Axi4lite

/-! ### The properties -/

/-- `p_awvalid_stable`. -/
def AwvalidStable (x y : AxiSample) : Prop := (x.awvalid && !x.awready) = true → y.awvalid = true

/-- `p_wvalid_stable`. -/
def WvalidStable (x y : AxiSample) : Prop := (x.wvalid && !x.wready) = true → y.wvalid = true

/-- `p_arvalid_stable`. -/
def ArvalidStable (x y : AxiSample) : Prop := (x.arvalid && !x.arready) = true → y.arvalid = true

/-- The antecedent of `p_bvalid_after_write`. -/
def writeInOneEdge (x : AxiSample) : Bool := x.awvalid && x.awready && x.wvalid && x.wready

/-- `addr[1:0] == 2'b00`. -/
def aligned (addr : BitVec 32) : Bool := addr.extractLsb' 0 2 = 0#2

/-- `p_write_addr_align`. -/
def writeAddrAlign (x : AxiSample) : Bool := !x.awvalid || aligned x.awaddr

/-- `p_read_addr_align`. -/
def readAddrAlign (x : AxiSample) : Bool := !x.arvalid || aligned x.araddr

/-- `p_axi_addr_aligned`. -/
def axiAddrAligned (x : AxiSample) : Bool :=
  !(x.awvalid || x.arvalid) || if x.awvalid then aligned x.awaddr else aligned x.araddr

/-! ### Sessions of the driver -/

/-- The one assertion and the two agree on an edge with one address at most. -/
theorem axiAddrAligned_eq {x : AxiSample} (h : (x.awvalid && x.arvalid) = false) :
    axiAddrAligned x = (writeAddrAlign x && readAddrAlign x) := by
  unfold axiAddrAligned writeAddrAlign readAddrAlign
  cases haw : x.awvalid <;> cases har : x.arvalid <;> simp_all

/-- **In no session of the driver, whatever the slave does, does a valid signal fall before
its ready; the antecedent of `a_bvalid_after_write` never holds; and `a_axi_align` says the
same as `a_write_addr_align` and `a_read_addr_align`.** -/
theorem session_assertions (requests : List (Option DriverItem)) (xs : List SlaveSignals) :
    let bus := MainPhase.busTrace { requests } xs
    (bus.IsChain AwvalidStable ∧ bus.IsChain WvalidStable ∧ bus.IsChain ArvalidStable) ∧
      (∀ x ∈ bus, writeInOneEdge x = false) ∧
      ∀ x ∈ bus, axiAddrAligned x = (writeAddrAlign x && readAddrAlign x) := by
  have drives := (MainPhase.agrees_init requests).drives
  have hholds := MainPhase.busTrace_holds drives xs
  have hexclusive := MainPhase.busTrace_exclusive drives xs
  refine ⟨⟨?_, ?_, ?_⟩, ?_, ?_⟩
  · refine hholds.imp fun x y h hx => ?_
    simp only [Bool.and_eq_true, Bool.not_eq_true'] at hx
    exact (h.aw hx.1 hx.2).1
  · refine hholds.imp fun x y h hx => ?_
    simp only [Bool.and_eq_true, Bool.not_eq_true'] at hx
    exact (h.w hx.1 hx.2).1
  · refine hholds.imp fun x y h hx => ?_
    simp only [Bool.and_eq_true, Bool.not_eq_true'] at hx
    exact (h.ar hx.1 hx.2).1
  · intro x hx
    have hnot := (hexclusive x hx).1
    unfold writeInOneEdge
    cases haw : x.awvalid <;> cases hw : x.wvalid <;> simp_all
  · exact fun x hx => axiAddrAligned_eq (hexclusive x hx).2

/-! ### Unaligned items -/

/-- Every address the bus knows of meets `p`. -/
structure Addresses (p : BitVec 32 → Prop) (b : Bus) : Prop where
  aw : ∀ addr ∈ b.aw, p addr
  ar : ∀ addr ∈ b.ar, p addr
  completed : ∀ tr ∈ b.completed, p tr.addr

section Addresses

variable {p : BitVec 32 → Prop} {b : Bus} {x : AxiSample}

theorem Addresses.respond (h : Addresses p b) : Addresses p (b.respond x) := by
  unfold Bus.respond
  split
  · next tr htr =>
    refine ⟨fun addr haddr => h.aw addr (List.mem_of_mem_tail haddr), h.ar, ?_⟩
    intro tr' htr'
    rcases List.mem_append.mp htr' with hold | hnew
    · exact h.completed tr' hold
    · obtain rfl := List.mem_singleton.mp hnew
      unfold Bus.completesWrite at htr
      split at htr
      · next addr aw data w resp haw hw hb =>
        obtain rfl := Option.some.inj htr
        exact h.aw addr (by simp [haw])
      · cases htr
  · exact h

theorem Addresses.respondRead (h : Addresses p b) : Addresses p (b.respondRead x) := by
  unfold Bus.respondRead
  split
  · next tr htr =>
    refine ⟨h.aw, fun addr haddr => h.ar addr (List.mem_of_mem_tail haddr), ?_⟩
    intro tr' htr'
    rcases List.mem_append.mp htr' with hold | hnew
    · exact h.completed tr' hold
    · obtain rfl := List.mem_singleton.mp hnew
      unfold Bus.completesRead at htr
      split at htr
      · next addr ar data resp har hr =>
        obtain rfl := Option.some.inj htr
        exact h.ar addr (by simp [har])
      · cases htr
  · exact h

theorem Addresses.step (h : Addresses p b) (haw : ∀ addr ∈ x.awHandshake, p addr)
    (har : ∀ addr ∈ x.arHandshake, p addr) : Addresses p (b.step x) := by
  have hpush : Addresses p ((b.pushAw x).pushW x) := by
    refine ⟨fun addr haddr => ?_, h.ar, h.completed⟩
    rcases List.mem_append.mp haddr with hold | hnew
    · exact h.aw addr hold
    · exact haw addr (Option.mem_toList.mp hnew)
  have hrespond := hpush.respond (x := x)
  have hpushAr : Addresses p ((((b.pushAw x).pushW x).respond x).pushAr x) := by
    refine ⟨hrespond.aw, fun addr haddr => ?_, hrespond.completed⟩
    rcases List.mem_append.mp haddr with hold | hnew
    · exact hrespond.ar addr hold
    · exact har addr (Option.mem_toList.mp hnew)
  exact hpushAr.respondRead

theorem addresses_run {xs : List AxiSample} (h : Addresses p b)
    (hxs : ∀ x ∈ xs, (∀ addr ∈ x.awHandshake, p addr) ∧ ∀ addr ∈ x.arHandshake, p addr) :
    Addresses p (run Bus.step b xs) := by
  induction xs generalizing b with
  | nil => exact h
  | cons x xs ih =>
    obtain ⟨haw, har⟩ := hxs x List.mem_cons_self
    exact ih (h.step haw har) fun y hy => hxs y (List.mem_cons_of_mem _ hy)

end Addresses

/-- An aligned address is all the assertion lets through. -/
theorem aligned_of_handshake {x : AxiSample} (h : (writeAddrAlign x && readAddrAlign x) = true) :
    (∀ addr ∈ x.awHandshake, aligned addr = true) ∧
      ∀ addr ∈ x.arHandshake, aligned addr = true := by
  unfold writeAddrAlign readAddrAlign AxiSample.awHandshake AxiSample.arHandshake at *
  constructor
  · intro addr haddr
    split at haddr
    · obtain rfl := Option.some.inj haddr
      simp_all
    · cases haddr
  · intro addr haddr
    split at haddr
    · obtain rfl := Option.some.inj haddr
      simp_all
    · cases haddr

/-- The address on the bus is that of an item. -/
theorem aligned_sample {items : List DriverItem} {m : MainPhase}
    (order : MainPhase.InOrder items m) (drives : m.Drives)
    (haligned : ∀ tr ∈ items, aligned tr.addr = true) (x : SlaveSignals) :
    (writeAddrAlign ⟨m.out, x⟩ && readAddrAlign ⟨m.out, x⟩) = true := by
  cases htask : m.task with
  | none =>
    rw [MainPhase.Drives, htask] at drives
    simp [writeAddrAlign, readAddrAlign, drives.awvalid, drives.arvalid]
  | some d =>
    rw [MainPhase.Drives, htask] at drives
    obtain ⟨hd, -, hout⟩ := drives
    have haddr : aligned d.tr.addr = true := by
      have hmem : d.tr ∈ m.started := by simp [MainPhase.started, htask]
      obtain ⟨tr, htr, hsame⟩ := order.exists_item hmem
      rw [hsame.addr]
      exact haligned tr htr
    rw [← hout]
    unfold writeAddrAlign readAddrAlign
    rw [Bool.and_eq_true]
    constructor
    · by_cases hpc : d.pc = .aw
      · simp [hd.awaddr hpc, haddr]
      · simp [hd.awvalid, hpc]
    · by_cases hpc : d.pc = .ar
      · simp [hd.araddr hpc, haddr]
      · simp [hd.arvalid, hpc]

theorem aligned_busTrace {items : List DriverItem} {m : MainPhase}
    (order : MainPhase.InOrder items m) (drives : m.Drives)
    (haligned : ∀ tr ∈ items, aligned tr.addr = true) (xs : List SlaveSignals) :
    ∀ x ∈ m.busTrace xs, (writeAddrAlign x && readAddrAlign x) = true := by
  induction xs generalizing m with
  | nil => exact fun y hy => absurd hy List.not_mem_nil
  | cons x xs ih =>
    intro y hy
    rcases List.mem_cons.mp hy with rfl | hy
    · exact aligned_sample order drives haligned x
    · exact ih (MainPhase.inOrder_edge order drives x) (MainPhase.drives_edge drives x) y hy

/-- **A session in which every item is returned passes the alignment assertions iff every
item has an aligned address.** -/
theorem aligned_iff (requests : List (Option DriverItem)) (xs : List SlaveSignals)
    (answers : Along Bus.step Bus.Answers {} (MainPhase.busTrace { requests } xs))
    (hall : (run MainPhase.edge { requests } xs).returned.length =
      requests.reduceOption.length) :
    (∀ x ∈ MainPhase.busTrace { requests } xs, axiAddrAligned x = true) ↔
      ∀ tr ∈ requests.reduceOption, aligned tr.addr = true := by
  have init := MainPhase.agrees_init requests
  have order := MainPhase.inOrder_init requests
  have hsame : ∀ x ∈ MainPhase.busTrace { requests } xs,
      axiAddrAligned x = (writeAddrAlign x && readAddrAlign x) := fun x hx =>
    axiAddrAligned_eq (MainPhase.busTrace_exclusive init.drives xs x hx).2
  constructor
  · intro hsilent tr htr
    have haddr : Addresses (aligned · = true)
        (run Bus.step {} (MainPhase.busTrace { requests } xs)) :=
      addresses_run ⟨nofun, nofun, nofun⟩ fun x hx =>
        aligned_of_handshake ((hsame x hx).symm.trans (hsilent x hx))
    have hreturned := (MainPhase.inOrder_run order init.drives xs).carries_returned
    rw [hall, List.take_length] at hreturned
    obtain ⟨tr', htr', hcarries⟩ := exists_of_forall₂ hreturned.flip htr
    have hcompleted := (MainPhase.agrees_run init answers).1.completed
    rw [← hcarries.addr]
    exact haddr.completed tr'.toAxi4liteTrans (hcompleted ▸ List.mem_map_of_mem htr')
  · intro haligned x hx
    rw [hsame x hx]
    exact aligned_busTrace order init.drives haligned xs x hx

theorem aligned_writeThenRead :
    (MainPhase.busTrace { requests := MainPhase.writeThenRead }
      MainPhase.writeThenReadSlave).all axiAddrAligned = true :=
  List.all_eq_true.mpr ((aligned_iff MainPhase.writeThenRead MainPhase.writeThenReadSlave
    (by decide) (by decide)).mpr (by decide))

end Testbench.Sva
