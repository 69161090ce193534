import Testbench.Axi4lite.Driver

/-!
`do_read` against a slave that serves it: two phases, up to the edges of the handshakes on
AR and on R, when AR has to wait for the slave.
-/

namespace Testbench.Axi4lite.Driver

open Testbench.Lib

/-! ### A read from edge to edge -/

/-- `do_read` while it waits for AR and for R, and its last two states. -/
def arPhase (out : MasterSignals) (tr : DriverItem) : Driver :=
  { pc := .ar, out := { out with araddr := tr.addr, arvalid := true }, tr }

def rPhase (out : MasterSignals) (tr : DriverItem) : Driver :=
  { pc := .r, tr, out := { (arPhase out tr).out with arvalid := false, rready := true } }

def rLastPhase (out : MasterSignals) (tr : DriverItem) (data : BitVec 32) (resp : Axi4liteResp) :
    Driver :=
  { rPhase out tr with pc := .rLast, tr := { tr with data, resp } }

def readPhase (out : MasterSignals) (tr : DriverItem) (data : BitVec 32) (resp : Axi4liteResp) :
    Driver :=
  { pc := .done, tr := { tr with data, resp }, out := { (rPhase out tr).out with rready := false } }

/-- The address is handed over at edge `a`. -/
structure ArTimeline (c : Call) (tr : DriverItem) (a : Nat) : Prop where
  pos : 0 < a
  arPhase : ∀ t, t < a → c.state t = arPhase c.out tr
  arready : (c.slave a).arready = true
  not_arready : ∀ t, 0 < t → t < a → (c.slave t).arready = false
  awaitsR : c.state a = rPhase c.out tr

/-- Data and response are handed over at edge `n`, and that is the read. -/
structure ReadTimeline (c : Call) (tr : DriverItem) (a n : Nat) (data : BitVec 32)
    (resp : Axi4liteResp) : Prop extends ArTimeline c tr a where
  ar_lt : a < n
  rPhase : ∀ t, a ≤ t → t < n → c.state t = rPhase c.out tr
  rvalid : (c.slave n).rvalid = true
  rdata : (c.slave n).rdata = data
  rresp : respOf (c.slave n).rresp = resp
  not_rvalid : ∀ t, a < t → t < n → (c.slave t).rvalid = false
  rLast : c.state n = rLastPhase c.out tr data resp
  done : ∀ t, n < t → c.state t = readPhase c.out tr data resp

section Timeline

variable {c : Call} {tr : DriverItem} {a n : Nat} {data : BitVec 32} {resp : Axi4liteResp}
  (tl : ReadTimeline c tr a n data resp)
include tl

theorem ReadTimeline.phases (t : Nat) :
    t < a ∧ c.state t = Driver.arPhase c.out tr ∨
      (a ≤ t ∧ t < n) ∧ c.state t = Driver.rPhase c.out tr ∨
      t = n ∧ c.state t = rLastPhase c.out tr data resp ∨
      n < t ∧ c.state t = readPhase c.out tr data resp := by
  rcases Nat.lt_or_ge t a with hta | hat
  · exact .inl ⟨hta, tl.arPhase t hta⟩
  · rcases Nat.lt_trichotomy t n with htn | rfl | hnt
    · exact .inr (.inl ⟨⟨hat, htn⟩, tl.rPhase t hat htn⟩)
    · exact .inr (.inr (.inl ⟨rfl, tl.rLast⟩))
    · exact .inr (.inr (.inr ⟨hnt, tl.done t hnt⟩))

theorem ReadTimeline.arSignals (idle : c.out.Idle) (t : Nat) :
    ((c.bus t).arvalid = true ↔ 0 < t ∧ t ≤ a) ∧
      ((c.bus t).arvalid = true → (c.bus t).araddr = tr.addr) := by
  cases t with
  | zero => simp [Call.bus, idle.arvalid]
  | succ t =>
    have har := tl.ar_lt
    rw [bus_succ]
    rcases tl.phases t with ⟨ht, hs⟩ | ⟨ht, hs⟩ | ⟨ht, hs⟩ | ⟨ht, hs⟩
    · simpa [hs, Driver.arPhase] using ht
    all_goals
      simp [hs, Driver.rPhase, rLastPhase, readPhase]
      omega

theorem ReadTimeline.rready_iff (idle : c.out.Idle) (t : Nat) :
    (c.bus t).rready = true ↔ a < t ∧ t ≤ n + 1 := by
  cases t with
  | zero => simp [Call.bus, idle.rready]
  | succ t =>
    have har := tl.ar_lt
    rw [bus_succ]
    obtain ⟨ht, hs⟩ | ⟨ht, hs⟩ | ⟨ht, hs⟩ | ⟨ht, hs⟩ := tl.phases t <;>
      simp [hs, Driver.arPhase, Driver.rPhase, rLastPhase, readPhase, idle.rready] <;> omega

theorem ReadTimeline.writeSignals (idle : c.out.Idle) (t : Nat) :
    (c.bus t).awvalid = false ∧ (c.bus t).wvalid = false := by
  cases t with
  | zero => exact ⟨idle.awvalid, idle.wvalid⟩
  | succ t =>
    rw [bus_succ]
    obtain ⟨-, hs⟩ | ⟨-, hs⟩ | ⟨-, hs⟩ | ⟨-, hs⟩ := tl.phases t <;> rw [hs] <;>
      exact ⟨idle.awvalid, idle.wvalid⟩

theorem ReadTimeline.arTaken (idle : c.out.Idle) (t : Nat) :
    ((c.bus t).arvalid && (c.bus t).arready) = decide (t = a) := by
  refine taken_eq (fun t => (c.bus t).arvalid) (fun t => (c.bus t).arready) tl.pos
    (fun t => (tl.arSignals idle t).1) ?_ (fun t hst htk => ?_) t
  · rw [bus_slave]
    exact tl.arready
  · rw [bus_slave]
    exact tl.not_arready t hst htk

theorem ReadTimeline.rTaken (idle : c.out.Idle) (serves : ServesRead c.bus) (t : Nat) :
    ((c.bus t).rvalid && (c.bus t).rready) = decide (t = n) := by
  have hready := tl.rready_iff idle
  have hvalid : (c.bus n).rvalid = true := by
    rw [bus_slave]
    exact tl.rvalid
  refine answered_eq (fun t => (c.bus t).rvalid) (fun t => (c.bus t).rready) tl.ar_lt hready hvalid
    (fun t hst htk => ?_) ?_ t
  · rw [bus_slave]
    exact tl.not_rvalid t hst htk
  · rw [Bool.eq_false_iff]
    intro hnext
    have hnone := serves.once (n + 1) hnext n (Nat.lt_succ_self n)
    simp [AxiSample.rHandshake, hvalid, (hready n).mpr ⟨tl.ar_lt, Nat.le_succ n⟩] at hnone

/-- The whole read. -/
theorem ReadTimeline.reads (idle : c.out.Idle) (serves : ServesRead c.bus) : Reads c tr where
  ar := by
    have hvalid := ((tl.arSignals idle a).1).mpr ⟨tl.pos, le_rfl⟩
    refine ⟨a, ?_, fun t ht => ?_⟩
    · simp [AxiSample.arHandshake, tl.arTaken idle a, (tl.arSignals idle a).2 hvalid]
    · simp [AxiSample.arHandshake, tl.arTaken idle t, ht]
  r := by
    have hwords : (c.bus n).rdata = data ∧ respOf (c.bus n).rresp = resp := by
      rw [bus_slave]
      exact ⟨tl.rdata, tl.rresp⟩
    refine ⟨n, data, resp, ?_, fun t ht => ?_, n + 1, ?_, ?_⟩
    · simp [AxiSample.rHandshake, tl.rTaken idle serves n, hwords]
    · simp [AxiSample.rHandshake, tl.rTaken idle serves t, ht]
    · rw [tl.done (n + 1) (Nat.lt_succ_self n)]
      rfl
    · rw [tl.done (n + 1) (Nat.lt_succ_self n)]
      rfl
  holds t := by
    obtain ⟨haw, hw⟩ := tl.writeSignals idle t
    constructor
    · simp [haw]
    · simp [hw]
    · intro hvalid hready
      have hsig := tl.arSignals idle
      have htaken : (c.bus a).arready = true := by
        rw [bus_slave]
        exact tl.arready
      have hnext : (c.bus (t + 1)).arvalid = true :=
        valid_succ (fun t => (c.bus t).arvalid) (fun t => (c.bus t).arready)
          (fun t => (hsig t).1) htaken hvalid hready
      exact ⟨hnext, ((hsig (t + 1)).2 hnext).trans ((hsig t).2 hvalid).symm⟩

end Timeline

section Phases

variable {out : MasterSignals} {tr : DriverItem} {x : SlaveSignals}

theorem edge_arPhase_wait (h : ¬ x.arready = true) : (arPhase out tr).edge x = arPhase out tr := by
  simp [edge, arPhase, waitAr, h]

theorem edge_arPhase (har : x.arready = true) (hr : x.rvalid = false) :
    (arPhase out tr).edge x = rPhase out tr := by
  simp [edge, arPhase, rPhase, waitAr, waitR, har, hr]

theorem edge_rPhase_wait (h : ¬ x.rvalid = true) : (rPhase out tr).edge x = rPhase out tr := by
  simp [edge, rPhase, waitR, h]

theorem edge_rPhase (h : x.rvalid = true) :
    (rPhase out tr).edge x = rLastPhase out tr x.rdata (respOf x.rresp) := by
  simp [edge, rPhase, rLastPhase, waitR, h]

end Phases

/-- No address is handed over while AR has to wait. -/
theorem arHandshake_none_of_wait {c : Call} (idle : c.out.Idle) {a : Nat}
    (hnot : ∀ t, 0 < t → t < a → (c.slave t).arready = false) :
    ∀ t < a, (c.bus t).arHandshake = none := by
  intro t hta
  cases t with
  | zero => simp [AxiSample.arHandshake, Call.bus, idle.arvalid]
  | succ t => simp [AxiSample.arHandshake, bus_succ, hnot (t + 1) (Nat.succ_pos t) hta]

section Read

variable {out : MasterSignals} {tr : DriverItem} {slave : Nat → SlaveSignals}
  (serves : ServesRead (readCall out tr slave).bus)
include serves

/-- No data is valid until an address has been handed over. -/
theorem lt_of_rvalid {n : Nat} (h : (slave n).rvalid = true) {k : Nat}
    (hnone : ∀ t < k, ((readCall out tr slave).bus t).arHandshake = none) : k < n := by
  obtain ⟨t, htn, hsome⟩ := serves.asked n (by rwa [bus_slave])
  by_contra hle
  rw [hnone t (by omega)] at hsome
  cases hsome

theorem exists_arTimeline (idle : out.Idle) (har : (slave 0).arready = false) :
    ∃ a, ArTimeline (readCall out tr slave) tr a := by
  set c := readCall out tr slave with hc
  have h0 : c.state 0 = arPhase out tr := by
    simp [hc, readCall, Call.state, doRead, waitAr, har, arPhase]
  obtain ⟨a', ha', hready⟩ := serves.acceptsAr 1 (by rw [bus_succ, h0]; rfl)
  rw [bus_slave] at hready
  obtain ⟨a, pos, arready, hnot, hphase⟩ := timed_wait (x := c.slave) (state_succ c)
    (fun _ h => edge_arPhase_wait h) h0 ⟨a', ha', hready⟩
  have not_arready : ∀ t, 0 < t → t < a → (c.slave t).arready = false :=
    fun t ht hta => Bool.eq_false_iff.mpr (hnot t ht hta)
  have hrvalid : (slave a).rvalid = false := by
    rw [Bool.eq_false_iff]
    intro hr
    exact Nat.lt_irrefl a (lt_of_rvalid serves hr (arHandshake_none_of_wait idle not_arready))
  refine ⟨a, { pos, arready, not_arready,
               arPhase := fun t => hphase t (Nat.zero_le t), awaitsR := ?_ }⟩
  rw [state_of_pos c pos, hphase (a - 1) (Nat.zero_le _) (by omega)]
  exact edge_arPhase arready hrvalid

theorem exists_readTimeline (idle : out.Idle) {a : Nat}
    (tl : ArTimeline (readCall out tr slave) tr a) :
    ∃ n data resp, ReadTimeline (readCall out tr slave) tr a n data resp := by
  set c := readCall out tr slave with hc
  have har : (c.bus a).arHandshake.isSome := by
    obtain ⟨a, rfl⟩ := Nat.exists_eq_succ_of_ne_zero tl.pos.ne'
    simp [AxiSample.arHandshake, bus_succ, tl.arPhase a (Nat.lt_succ_self a), Driver.arPhase,
      tl.arready]
  obtain ⟨n', hn'⟩ := serves.responds a har
  rw [bus_slave] at hn'
  have hlt := lt_of_rvalid serves hn' (arHandshake_none_of_wait idle tl.not_arready)
  obtain ⟨n, ar_lt, rvalid, hnot, rPhase⟩ := timed_wait (x := c.slave) (state_succ c)
    (fun _ h => edge_rPhase_wait h) tl.awaitsR ⟨n', hlt, hn'⟩
  have rLast : c.state n = rLastPhase out tr (c.slave n).rdata (respOf (c.slave n).rresp) := by
    rw [state_of_pos c (by omega), rPhase (n - 1) (by omega) (by omega)]
    exact edge_rPhase rvalid
  have done := timed_invariant (x := c.slave) (state_succ c)
    (p := fun d => d = readPhase out tr (c.slave n).rdata (respOf (c.slave n).rresp))
    (fun d x h => by rw [h]; rfl) (a := n + 1) (by rw [state_succ, rLast]; rfl)
  exact ⟨n, _, _, { tl with
    ar_lt, rvalid, rPhase, rLast, rdata := rfl, rresp := rfl, done
    not_rvalid := fun t hat htn => Bool.eq_false_iff.mpr (hnot t hat htn) }⟩

end Read

/-- With `arready` up at the start of `do_read` no address is handed over. -/
theorem arHandshake_none {out : MasterSignals} {tr : DriverItem} {slave : Nat → SlaveSignals}
    (idle : out.Idle) (har : (slave 0).arready = true) (t : Nat) :
    ((readCall out tr slave).bus t).arHandshake = none := by
  set c := readCall out tr slave with hc
  cases t with
  | zero => simp [AxiSample.arHandshake, Call.bus, hc, readCall, idle.arvalid]
  | succ t =>
    have hstart : (c.state 0).pc ≠ .ar ∧ (c.state 0).out.arvalid = false := by
      simp only [hc, readCall, Call.state, doRead, waitAr, waitR, har, if_true]
      split_ifs <;> simp
    have hnever := timed_invariant (x := c.slave) (state_succ c)
      (p := fun d => d.pc ≠ .ar ∧ d.out.arvalid = false) edge_arvalid hstart t (Nat.zero_le t)
    simp [AxiSample.arHandshake, bus_succ, hnever.2]

/-- **`do_read` reads iff `arready` is down when it starts.** -/
theorem reads_iff {out : MasterSignals} (idle : out.Idle) {tr : DriverItem}
    {slave : Nat → SlaveSignals} (serves : ServesRead (readCall out tr slave).bus) :
    Reads (readCall out tr slave) tr ↔ (slave 0).arready = false := by
  constructor
  · intro h
    obtain ⟨a, ha, -⟩ := h.ar
    rw [Bool.eq_false_iff]
    intro har
    rw [arHandshake_none idle har] at ha
    cases ha
  · intro har
    obtain ⟨a, tla⟩ := exists_arTimeline serves idle har
    obtain ⟨n, data, resp, tl⟩ := exists_readTimeline serves idle tla
    exact tl.reads idle serves

end Testbench.Axi4lite.Driver
