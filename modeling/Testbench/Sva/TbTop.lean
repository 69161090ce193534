import Testbench.Axi4lite.Transfers

/-!
The shadow of the mode register in `sva_tb_top` (`canfd/sva/code/sva_tb_top.sv`).

`msr_shadow` takes the data bus at the edge at which the address 0x0004 is handed over,
whether or not data is handed over there. `msrShadow_iff` says which traces that is enough
for, and `msrShadow_driver` what the AXI driver makes of it: the word it takes is the one
the write before left on the bus.
-/

namespace Testbench.Sva

open Testbench.Lib Testbench.Axi4lite

/-- The address of the mode register is handed over. -/
def isMsrAddress (x : AxiSample) : Bool := x.awvalid && x.awready && x.awaddr = 0x0004#32

/-- `msr_shadow` after a clock edge. -/
def msrShadowStep (rstn : Bool) (shadow : BitVec 32) (x : AxiSample) : BitVec 32 :=
  if !rstn then 0 else if isMsrAddress x then x.wdata else shadow

/-- `msr_shadow` after a trace out of reset. -/
def msrShadow (shadow : BitVec 32) (xs : List AxiSample) : BitVec 32 :=
  run (msrShadowStep true) shadow xs

/-- The expression of `p_mode_mutex`, evaluated at the width of `int`. -/
def modeMutex (shadow : BitVec 32) : Bool :=
  (shadow.getLsbD 1).toNat + (shadow.getLsbD 2).toNat + (shadow.getLsbD 0).toNat ≤ 1

/-- Two of LBACK, SNOOP and SLEEP are set. -/
def twoModes (data : BitVec 32) : Bool :=
  data.getLsbD 1 && data.getLsbD 2 || data.getLsbD 1 && data.getLsbD 0 ||
    data.getLsbD 2 && data.getLsbD 0

/-- The mode register write that completes at an edge. -/
def msrWritten (b : Bus) (x : AxiSample) : Option (BitVec 32) :=
  (((b.pushAw x).pushW x).completesWrite x).bind fun tr =>
    if tr.addr = 0x0004#32 then some tr.data else none

/-- After each completed write to 0x0004 the shadow is the data written, and the assertion
fires iff two modes were written as one. -/
def Shadows (shadow : BitVec 32) (xs : List AxiSample) : Prop :=
  ∀ pre x, pre ++ [x] <+: xs → ∀ data, msrWritten (run Bus.step {} pre) x = some data →
    msrShadow shadow (pre ++ [x]) = data ∧
      (modeMutex (msrShadow shadow (pre ++ [x])) = false ↔ twoModes data = true)

/-- At each completed write to 0x0004, the data written is what was on the data bus when
the address was last handed over. -/
def DataOnBus (xs : List AxiSample) : Prop :=
  ∀ pre x, pre ++ [x] <+: xs → ∀ data, msrWritten (run Bus.step {} pre) x = some data →
    ∀ y, (pre ++ [x]).reverse.find? isMsrAddress = some y → y.wdata = data

/-- The assertion checks what its message says. -/
theorem modeMutex_eq (shadow : BitVec 32) : modeMutex shadow = !twoModes shadow := by
  unfold modeMutex twoModes
  cases shadow.getLsbD 0 <;> cases shadow.getLsbD 1 <;> cases shadow.getLsbD 2 <;> decide

/-- The shadow is the data bus at the last address handshake with 0x0004. -/
theorem msrShadow_eq (shadow : BitVec 32) (xs : List AxiSample) :
    msrShadow shadow xs = ((xs.reverse.find? isMsrAddress).map (·.wdata)).getD shadow := by
  induction xs using List.reverseRecOn with
  | nil => rfl
  | append_singleton xs x ih =>
    have hstep : msrShadow shadow (xs ++ [x]) = msrShadowStep true (msrShadow shadow xs) x :=
      run_append_singleton shadow xs x
    rw [hstep, List.reverse_append, List.reverse_singleton, List.singleton_append, List.find?_cons]
    unfold msrShadowStep
    cases isMsrAddress x with
    | false => simpa using ih
    | true => rfl

/-! ### Where a pending address comes from -/

theorem mem_aw_respond {b : Bus} {x : AxiSample} {addr : BitVec 32} (h : addr ∈ (b.respond x).aw) :
    addr ∈ b.aw := by
  unfold Bus.respond at h
  split at h
  · exact List.mem_of_mem_tail h
  · exact h

theorem aw_respondRead (b : Bus) (x : AxiSample) : (b.respondRead x).aw = b.aw := by
  unfold Bus.respondRead
  split <;> rfl

theorem mem_aw_pushAw {b : Bus} {x : AxiSample} {addr : BitVec 32} :
    addr ∈ (b.pushAw x).aw ↔ addr ∈ b.aw ∨ x.awHandshake = some addr := by
  simp [Bus.pushAw]

/-- A write that completes had its address pending. -/
theorem mem_aw_of_completes {b : Bus} {x : AxiSample} {tr : Axi4liteTrans}
    (h : b.completesWrite x = some tr) : tr.addr ∈ b.aw := by
  unfold Bus.completesWrite at h
  split at h
  · next addr aw data w resp haw hw hb =>
    obtain rfl := Option.some.inj h
    simp [haw]
  · cases h

/-- A pending address was handed over at some edge of the trace. -/
theorem exists_awHandshake {xs : List AxiSample} {addr : BitVec 32}
    (h : addr ∈ (run Bus.step {} xs).aw) : ∃ y ∈ xs, y.awHandshake = some addr := by
  induction xs using List.reverseRecOn with
  | nil => cases h
  | append_singleton xs x ih =>
    rw [run_append_singleton, Bus.step, aw_respondRead] at h
    have hpushed : addr ∈ ((run Bus.step {} xs).pushAw x).aw :=
      mem_aw_respond (b := ((run Bus.step {} xs).pushAw x).pushW x) h
    rcases mem_aw_pushAw.mp hpushed with hold | hnew
    · obtain ⟨y, hy, haddr⟩ := ih hold
      exact ⟨y, List.mem_append_left _ hy, haddr⟩
    · exact ⟨x, by simp, hnew⟩

theorem isMsrAddress_of_awHandshake {x : AxiSample} (h : x.awHandshake = some 0x0004#32) :
    isMsrAddress x = true := by
  unfold AxiSample.awHandshake at h
  split at h
  · next hs =>
    have haddr := Option.some.inj h
    simp [isMsrAddress, hs, haddr]
  · cases h

/-- A completed write to 0x0004 had its address handed over. -/
theorem exists_isMsrAddress {pre : List AxiSample} {x : AxiSample} {data : BitVec 32}
    (h : msrWritten (run Bus.step {} pre) x = some data) :
    ∃ y, (pre ++ [x]).reverse.find? isMsrAddress = some y := by
  have hpending : 0x0004#32 ∈ ((run Bus.step {} pre).pushAw x).aw := by
    obtain ⟨tr, htr, hmsr⟩ := Option.bind_eq_some_iff.mp h
    have haddr : tr.addr = 0x0004#32 := by
      by_contra hne
      simp [hne] at hmsr
    have hhead : tr.addr ∈ ((run Bus.step {} pre).pushAw x).aw :=
      mem_aw_of_completes (b := ((run Bus.step {} pre).pushAw x).pushW x) htr
    rwa [haddr] at hhead
  have hmsr : ∃ y ∈ (pre ++ [x]).reverse, isMsrAddress y = true := by
    rcases mem_aw_pushAw.mp hpending with hold | hnew
    · obtain ⟨y, hy, haddr⟩ := exists_awHandshake hold
      exact ⟨y, by simp [hy], isMsrAddress_of_awHandshake haddr⟩
    · exact ⟨x, by simp, isMsrAddress_of_awHandshake hnew⟩
  exact Option.isSome_iff_exists.mp (List.find?_isSome.mpr hmsr)

/-- **The shadow is the data of the last completed write to 0x0004 throughout a trace iff
the data bus carried that data when the address was handed over.** -/
theorem msrShadow_iff (shadow : BitVec 32) (xs : List AxiSample) :
    Shadows shadow xs ↔ DataOnBus xs := by
  unfold Shadows DataOnBus
  refine forall₅_congr fun pre x _ data hwritten => ?_
  obtain ⟨y, hy⟩ := exists_isMsrAddress hwritten
  have hshadow : msrShadow shadow (pre ++ [x]) = y.wdata := by
    rw [msrShadow_eq, hy]
    rfl
  rw [hshadow, hy]
  constructor
  · rintro ⟨hdata, -⟩ z hz
    obtain rfl := Option.some.inj hz
    exact hdata
  · intro h
    have hdata := h y rfl
    exact ⟨hdata, by simp [modeMutex_eq, hdata]⟩

/-! ### The AXI driver -/

/-- The driver hands the address over while the data of the write before is on the bus,
and that is what the shadow takes. -/
theorem msrShadow_driver {c : Driver.Call} {tr : DriverItem} {a w n : Nat} {resp : Axi4liteResp}
    (tl : Driver.WriteTimeline c tr a w n resp) (idle : c.out.Idle) (hmsr : tr.addr = 0x0004#32)
    (shadow : BitVec 32) {t : Nat} (h : a < t) :
    msrShadow shadow ((List.range t).map c.bus) = c.out.wdata := by
  have hstep : ∀ t, msrShadow shadow ((List.range (t + 1)).map c.bus) =
      msrShadowStep true (msrShadow shadow ((List.range t).map c.bus)) (c.bus t) :=
    run_map_range_succ c.bus shadow
  have htaken : ∀ t, isMsrAddress (c.bus t) = decide (t = a) := by
    intro t
    rw [isMsrAddress, tl.awTaken idle t]
    by_cases hta : t = a
    · have hvalid := (tl.awSignals idle t).1.mpr ⟨hta ▸ tl.pos, hta.le⟩
      simp [(tl.awSignals idle t).2 hvalid, hmsr]
    · simp [hta]
  induction t, h using Nat.le_induction with
  | base =>
    obtain ⟨a, rfl⟩ := Nat.exists_eq_succ_of_ne_zero tl.pos.ne'
    have hdata : (c.bus (a + 1)).wdata = c.out.wdata := by
      rw [Driver.bus_succ, tl.awPhase a (Nat.lt_succ_self a)]
      rfl
    rw [Nat.succ_eq_add_one, hstep, msrShadowStep, htaken]
    simpa using hdata
  | succ t hat ih =>
    have hta : t ≠ a := by omega
    rw [hstep, msrShadowStep, htaken]
    simpa [hta] using ih

/-- A slave that takes the address at edge 1 and the data at edge 2. -/
def unhurried (t : Nat) : SlaveSignals := { awready := t = 1, wready := t = 2, bvalid := t = 3 }

/-- The driver writes LBACK and SNOOP. -/
def loopbackSnoop : List AxiSample :=
  (List.range 4).map (Driver.writeCall {} { Driver.msrItem with data := 0x6 } unhurried).bus

/-- The write completes at edge 3, and the shadow is still zero: the assertion is silent. -/
theorem loopbackSnoop_not_shadows : Legal loopbackSnoop ∧ ¬ Shadows 0 loopbackSnoop := by
  refine ⟨by decide, fun h => ?_⟩
  have hshadow := h (loopbackSnoop.take 3) (loopbackSnoop[3]?.getD {}) ⟨[], rfl⟩ 0x6 (by decide)
  exact absurd hshadow.1 (by decide)

end Testbench.Sva
