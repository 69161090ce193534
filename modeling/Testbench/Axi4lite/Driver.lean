import Testbench.Axi4lite.Channels

/-!
`do_write` and `do_read` of `axi4lite_driver` (`canfd/uvc/axi4lite/axi4lite_driver.sv`).

Both tasks are cut at their clock edges. Sample 0 of the slave's signals is taken when the
task starts, sample `t` at the `t`-th edge after that. A non-blocking assignment is seen
from the next edge on, and of several to one signal at one edge the last one counts.

Each wait loop tests ready before it waits for an edge. When ready is up already, valid is
raised and withdrawn at the same edge and the slave never sees it.
-/

namespace Testbench.Axi4lite

open Testbench.Lib

/-- The statement a task is suspended at: one of its wait loops, or the edge that ends it. -/
inductive Pc where
  | aw
  | w
  | b
  | bLast
  | ar
  | r
  | rLast
  | done
  deriving DecidableEq

/-- A task after an edge: where it is, the signals from then on, and the item. -/
structure Driver where
  pc : Pc
  out : MasterSignals
  tr : DriverItem

namespace Driver

/-- `while (!vif.bvalid)` and what follows it. -/
def waitB (d : Driver) (x : SlaveSignals) : Driver :=
  if x.bvalid then { d with pc := .bLast, tr := { d.tr with resp := respOf x.bresp } }
  else { d with pc := .b }

/-- `while (!vif.wready)` and what follows it. -/
def waitW (d : Driver) (x : SlaveSignals) : Driver :=
  if x.wready then waitB { d with out := { d.out with wvalid := false, bready := true } } x
  else { d with pc := .w }

/-- `while (!vif.awready)` and what follows it. -/
def waitAw (d : Driver) (x : SlaveSignals) : Driver :=
  if x.awready then
    waitW { d with out := { d.out with
      awvalid := false, wdata := d.tr.data, wstrb := d.tr.wstrb, wvalid := true } } x
  else { d with pc := .aw }

/-- `while (!vif.rvalid)` and what follows it. -/
def waitR (d : Driver) (x : SlaveSignals) : Driver :=
  if x.rvalid then
    { d with pc := .rLast, tr := { d.tr with data := x.rdata, resp := respOf x.rresp } }
  else { d with pc := .r }

/-- `while (!vif.arready)` and what follows it. -/
def waitAr (d : Driver) (x : SlaveSignals) : Driver :=
  if x.arready then waitR { d with out := { d.out with arvalid := false, rready := true } } x
  else { d with pc := .ar }

/-- The start of `do_write`. -/
def doWrite (out : MasterSignals) (tr : DriverItem) (x : SlaveSignals) : Driver :=
  waitAw { pc := .aw, out := { out with awaddr := tr.addr, awvalid := true }, tr } x

/-- The start of `do_read`. -/
def doRead (out : MasterSignals) (tr : DriverItem) (x : SlaveSignals) : Driver :=
  waitAr { pc := .ar, out := { out with araddr := tr.addr, arvalid := true }, tr } x

/-- The next clock edge. -/
def edge (d : Driver) (x : SlaveSignals) : Driver :=
  match d.pc with
  | .aw => d.waitAw x
  | .w => d.waitW x
  | .b => d.waitB x
  | .bLast => { d with pc := .done, out := { d.out with bready := false } }
  | .ar => d.waitAr x
  | .r => d.waitR x
  | .rLast => { d with pc := .done, out := { d.out with rready := false } }
  | .done => d

/-- A call of a task: what the master's signals were before it, its start, and the slave. -/
structure Call where
  out : MasterSignals
  start : SlaveSignals → Driver
  slave : Nat → SlaveSignals

namespace Call

/-- The task after edge `t`. -/
def state (c : Call) : Nat → Driver
  | 0 => c.start (c.slave 0)
  | t + 1 => (c.state t).edge (c.slave (t + 1))

/-- The bus at edge `t`. -/
def bus (c : Call) : Nat → AxiSample
  | 0 => ⟨c.out, c.slave 0⟩
  | t + 1 => ⟨(c.state t).out, c.slave (t + 1)⟩

end Call

/-- A call of `do_write`. -/
def writeCall (out : MasterSignals) (tr : DriverItem) (slave : Nat → SlaveSignals) : Call :=
  { out, start := doWrite out tr, slave }

/-- A call of `do_read`. -/
def readCall (out : MasterSignals) (tr : DriverItem) (slave : Nat → SlaveSignals) : Call :=
  { out, start := doRead out tr, slave }

end Driver

/-! ### The slave -/

/-- Nothing is being transferred. -/
structure MasterSignals.Idle (out : MasterSignals) : Prop where
  awvalid : out.awvalid = false
  wvalid : out.wvalid = false
  bready : out.bready = false
  arvalid : out.arvalid = false
  rready : out.rready = false

/-- A slave that accepts and answers a write: it takes a valid address and valid data some
time, and then responds, once and not before. -/
structure ServesWrite (bus : Nat → AxiSample) : Prop where
  acceptsAw : ∀ t, (bus t).awvalid = true → ∃ t', t ≤ t' ∧ (bus t').awready = true
  acceptsW : ∀ t, (bus t).wvalid = true → ∃ t', t ≤ t' ∧ (bus t').wready = true
  responds : ∀ t t', (bus t).awHandshake.isSome → (bus t').wHandshake.isSome →
    ∃ n, (bus n).bvalid = true
  asked : ∀ n, (bus n).bvalid = true →
    (∃ t < n, (bus t).awHandshake.isSome) ∧ ∃ t < n, (bus t).wHandshake.isSome
  once : ∀ n, (bus n).bvalid = true → ∀ t < n, (bus t).bHandshake = none

/-- The same for a read. -/
structure ServesRead (bus : Nat → AxiSample) : Prop where
  acceptsAr : ∀ t, (bus t).arvalid = true → ∃ t', t ≤ t' ∧ (bus t').arready = true
  responds : ∀ t, (bus t).arHandshake.isSome → ∃ n, (bus n).rvalid = true
  asked : ∀ n, (bus n).rvalid = true → ∃ t < n, (bus t).arHandshake.isSome
  once : ∀ n, (bus n).rvalid = true → ∀ t < n, (bus t).rHandshake = none

/-! ### A transfer -/

namespace Driver

/-- A write with one handshake on AW, W and B each, and a return with the response. -/
structure Writes (c : Call) (tr : DriverItem) : Prop where
  aw : ∃ a, (c.bus a).awHandshake = some tr.addr ∧ ∀ t, t ≠ a → (c.bus t).awHandshake = none
  w : ∃ w, (c.bus w).wHandshake = some tr.data ∧ (c.bus w).wstrb = tr.wstrb ∧
    ∀ t, t ≠ w → (c.bus t).wHandshake = none
  b : ∃ n resp, (c.bus n).bHandshake = some resp ∧ (∀ t, t ≠ n → (c.bus t).bHandshake = none) ∧
    ∃ t, (c.state t).pc = .done ∧ (c.state t).tr = { tr with resp }
  holds : ∀ t, (c.bus t).MasterHolds (c.bus (t + 1))

/-- A read with one handshake on AR and R each, and a return with data and response. -/
structure Reads (c : Call) (tr : DriverItem) : Prop where
  ar : ∃ a, (c.bus a).arHandshake = some tr.addr ∧ ∀ t, t ≠ a → (c.bus t).arHandshake = none
  r : ∃ n data resp, (c.bus n).rHandshake = some (data, resp) ∧
    (∀ t, t ≠ n → (c.bus t).rHandshake = none) ∧
    ∃ t, (c.state t).pc = .done ∧ (c.state t).tr = { tr with data, resp }
  holds : ∀ t, (c.bus t).MasterHolds (c.bus (t + 1))

theorem bus_succ (c : Call) (t : Nat) :
    c.bus (t + 1) = ⟨(c.state t).out, c.slave (t + 1)⟩ := rfl

theorem bus_slave (c : Call) (t : Nat) : (c.bus t).toSlaveSignals = c.slave t := by
  cases t <;> rfl

/-- A word that is valid from edge `s + 1` to the first edge `k` at which it is taken is
taken at that edge only. -/
theorem taken_eq (valid ready : Nat → Bool) {s k : Nat} (hsk : s < k)
    (hvalid : ∀ t, valid t = true ↔ s < t ∧ t ≤ k) (hready : ready k = true)
    (hnot : ∀ t, s < t → t < k → ready t = false) (t : Nat) :
    (valid t && ready t) = decide (t = k) := by
  by_cases htk : t = k
  · simp [htk, (hvalid k).mpr ⟨hsk, le_rfl⟩, hready]
  · rcases hv : valid t
    · simp [htk]
    · obtain ⟨hst, hle⟩ := (hvalid t).mp hv
      simp [htk, hnot t hst (by omega)]

/-- As long as it is not taken it stays up. -/
theorem valid_succ (valid ready : Nat → Bool) {s k t : Nat}
    (hvalid : ∀ t, valid t = true ↔ s < t ∧ t ≤ k) (hready : ready k = true)
    (hv : valid t = true) (hnot : ready t = false) : valid (t + 1) = true := by
  have hne : t ≠ k := by
    rintro rfl
    rw [hready] at hnot
    cases hnot
  obtain ⟨hst, hle⟩ := (hvalid t).mp hv
  exact (hvalid (t + 1)).mpr (by omega)

/-- A word that first comes up at edge `k`, while ready is up from `s + 1` to `k + 1`, is
taken at `k` only, if it is gone at the edge after. -/
theorem answered_eq (valid ready : Nat → Bool) {s k : Nat} (hsk : s < k)
    (hready : ∀ t, ready t = true ↔ s < t ∧ t ≤ k + 1) (hvalid : valid k = true)
    (hnot : ∀ t, s < t → t < k → valid t = false) (hnext : valid (k + 1) = false) (t : Nat) :
    (valid t && ready t) = decide (t = k) := by
  by_cases htk : t = k
  · simp [htk, (hready k).mpr ⟨hsk, Nat.le_succ k⟩, hvalid]
  · rcases hr : ready t
    · simp [htk]
    · obtain ⟨hst, hle⟩ := (hready t).mp hr
      rcases Nat.lt_or_ge t k with hlt | hge
      · simp [htk, hnot t hst hlt]
      · obtain rfl : t = k + 1 := by omega
        simp [hnext]

theorem state_succ (c : Call) (t : Nat) :
    c.state (t + 1) = (c.state t).edge (c.slave (t + 1)) := rfl

theorem state_of_pos (c : Call) {k : Nat} (hk : 0 < k) :
    c.state k = (c.state (k - 1)).edge (c.slave k) := by
  obtain ⟨k, rfl⟩ := Nat.exists_eq_succ_of_ne_zero hk.ne'
  rfl

/-! ### Past a request channel -/

/-- Past AW, a task does not come back to it. -/
theorem edge_awvalid (d : Driver) (x : SlaveSignals) (h : d.pc ≠ .aw ∧ d.out.awvalid = false) :
    (d.edge x).pc ≠ .aw ∧ (d.edge x).out.awvalid = false := by
  obtain ⟨pc, out, tr⟩ := d
  obtain ⟨hpc, hout⟩ := h
  cases pc with
  | aw => exact absurd rfl hpc
  | bLast | rLast | done => exact ⟨nofun, hout⟩
  | w | b | ar | r =>
    simp only [edge, waitW, waitB, waitAr, waitR]
    split_ifs <;> exact ⟨nofun, hout⟩

/-- Nor past W to W. -/
theorem edge_wvalid (d : Driver) (x : SlaveSignals)
    (h : (d.pc ≠ .aw ∧ d.pc ≠ .w) ∧ d.out.wvalid = false) :
    ((d.edge x).pc ≠ .aw ∧ (d.edge x).pc ≠ .w) ∧ (d.edge x).out.wvalid = false := by
  obtain ⟨pc, out, tr⟩ := d
  obtain ⟨⟨haw, hw⟩, hout⟩ := h
  cases pc with
  | aw => exact absurd rfl haw
  | w => exact absurd rfl hw
  | bLast | rLast | done => exact ⟨⟨nofun, nofun⟩, hout⟩
  | b | ar | r =>
    simp only [edge, waitB, waitAr, waitR]
    split_ifs <;> exact ⟨⟨nofun, nofun⟩, hout⟩

/-- Nor past AR to AR. -/
theorem edge_arvalid (d : Driver) (x : SlaveSignals) (h : d.pc ≠ .ar ∧ d.out.arvalid = false) :
    (d.edge x).pc ≠ .ar ∧ (d.edge x).out.arvalid = false := by
  obtain ⟨pc, out, tr⟩ := d
  obtain ⟨hpc, hout⟩ := h
  cases pc with
  | ar => exact absurd rfl hpc
  | bLast | rLast | done => exact ⟨nofun, hout⟩
  | aw | w | b | r =>
    simp only [edge, waitAw, waitW, waitB, waitR]
    split_ifs <;> exact ⟨nofun, hout⟩

end Driver

end Testbench.Axi4lite
