import Testbench.Axi4lite.Driver

/-!
`do_write` against a slave that serves it.

When AW and W both have to wait for the slave, the call goes through three phases, each
of them up to the edge of one handshake. `WriteTimeline` is that course of events and
`WriteTimeline.writes` what it comes to; `writes_iff` adds the calls that take another one.
-/

namespace Testbench.Axi4lite.Driver

open Testbench.Lib

/-! ### A write from edge to edge -/

/-- `do_write` while it waits for AW, for W and for B, and its last two states. -/
def awPhase (out : MasterSignals) (tr : DriverItem) : Driver :=
  { pc := .aw, out := { out with awaddr := tr.addr, awvalid := true }, tr }

def wPhase (out : MasterSignals) (tr : DriverItem) : Driver :=
  { pc := .w, tr, out := { (awPhase out tr).out with
      awvalid := false, wdata := tr.data, wstrb := tr.wstrb, wvalid := true } }

def bPhase (out : MasterSignals) (tr : DriverItem) : Driver :=
  { pc := .b, tr, out := { (wPhase out tr).out with wvalid := false, bready := true } }

def bLastPhase (out : MasterSignals) (tr : DriverItem) (resp : Axi4liteResp) : Driver :=
  { bPhase out tr with pc := .bLast, tr := { tr with resp } }

def writtenPhase (out : MasterSignals) (tr : DriverItem) (resp : Axi4liteResp) : Driver :=
  { pc := .done, tr := { tr with resp }, out := { (bPhase out tr).out with bready := false } }

/-- The address is handed over at edge `a`. -/
structure AwTimeline (c : Call) (tr : DriverItem) (a : Nat) : Prop where
  pos : 0 < a
  awPhase : ∀ t, t < a → c.state t = awPhase c.out tr
  awready : (c.slave a).awready = true
  not_awready : ∀ t, 0 < t → t < a → (c.slave t).awready = false
  issuesW : c.state a = wPhase c.out tr

/-- The data is handed over at edge `w`. -/
structure WTimeline (c : Call) (tr : DriverItem) (a w : Nat) : Prop extends AwTimeline c tr a where
  aw_lt : a < w
  wPhase : ∀ t, a ≤ t → t < w → c.state t = wPhase c.out tr
  wready : (c.slave w).wready = true
  not_wready : ∀ t, a < t → t < w → (c.slave t).wready = false
  awaitsB : c.state w = bPhase c.out tr

/-- The response is handed over at edge `n`, and that is the write. -/
structure WriteTimeline (c : Call) (tr : DriverItem) (a w n : Nat) (resp : Axi4liteResp) : Prop
    extends WTimeline c tr a w where
  w_lt : w < n
  bPhase : ∀ t, w ≤ t → t < n → c.state t = bPhase c.out tr
  bvalid : (c.slave n).bvalid = true
  bresp : respOf (c.slave n).bresp = resp
  not_bvalid : ∀ t, w < t → t < n → (c.slave t).bvalid = false
  bLast : c.state n = bLastPhase c.out tr resp
  done : ∀ t, n < t → c.state t = writtenPhase c.out tr resp

section Timeline

variable {c : Call} {tr : DriverItem} {a w n : Nat} {resp : Axi4liteResp}
  (tl : WriteTimeline c tr a w n resp)
include tl

theorem WriteTimeline.phases (t : Nat) :
    t < a ∧ c.state t = Driver.awPhase c.out tr ∨
      (a ≤ t ∧ t < w) ∧ c.state t = Driver.wPhase c.out tr ∨
      (w ≤ t ∧ t < n) ∧ c.state t = Driver.bPhase c.out tr ∨
      t = n ∧ c.state t = Driver.bLastPhase c.out tr resp ∨
      n < t ∧ c.state t = writtenPhase c.out tr resp := by
  rcases Nat.lt_or_ge t a with hta | hat
  · exact .inl ⟨hta, tl.awPhase t hta⟩
  · rcases Nat.lt_or_ge t w with htw | hwt
    · exact .inr (.inl ⟨⟨hat, htw⟩, tl.wPhase t hat htw⟩)
    · rcases Nat.lt_trichotomy t n with htn | rfl | hnt
      · exact .inr (.inr (.inl ⟨⟨hwt, htn⟩, tl.bPhase t hwt htn⟩))
      · exact .inr (.inr (.inr (.inl ⟨rfl, tl.bLast⟩)))
      · exact .inr (.inr (.inr (.inr ⟨hnt, tl.done t hnt⟩)))

theorem WriteTimeline.awSignals (idle : c.out.Idle) (t : Nat) :
    ((c.bus t).awvalid = true ↔ 0 < t ∧ t ≤ a) ∧
      ((c.bus t).awvalid = true → (c.bus t).awaddr = tr.addr) := by
  cases t with
  | zero => simp [Call.bus, idle.awvalid]
  | succ t =>
    have haw := tl.aw_lt
    have hw := tl.w_lt
    rw [bus_succ]
    rcases tl.phases t with ⟨ht, hs⟩ | ⟨ht, hs⟩ | ⟨ht, hs⟩ | ⟨ht, hs⟩ | ⟨ht, hs⟩
    · simpa [hs, Driver.awPhase] using ht
    all_goals
      simp [hs, Driver.wPhase, Driver.bPhase, bLastPhase, writtenPhase]
      omega

theorem WriteTimeline.wSignals (idle : c.out.Idle) (t : Nat) :
    ((c.bus t).wvalid = true ↔ a < t ∧ t ≤ w) ∧
      ((c.bus t).wvalid = true → (c.bus t).wdata = tr.data ∧ (c.bus t).wstrb = tr.wstrb) := by
  cases t with
  | zero => simp [Call.bus, idle.wvalid]
  | succ t =>
    have haw := tl.aw_lt
    have hw := tl.w_lt
    rw [bus_succ]
    rcases tl.phases t with ⟨ht, hs⟩ | ⟨ht, hs⟩ | ⟨ht, hs⟩ | ⟨ht, hs⟩ | ⟨ht, hs⟩
    case inr.inl =>
      simp [hs, Driver.wPhase]
      omega
    all_goals
      simp [hs, Driver.awPhase, Driver.bPhase, bLastPhase, writtenPhase, idle.wvalid]
      omega

theorem WriteTimeline.bready_iff (idle : c.out.Idle) (t : Nat) :
    (c.bus t).bready = true ↔ w < t ∧ t ≤ n + 1 := by
  cases t with
  | zero => simp [Call.bus, idle.bready]
  | succ t =>
    have haw := tl.aw_lt
    have hw := tl.w_lt
    rw [bus_succ]
    obtain ⟨ht, hs⟩ | ⟨ht, hs⟩ | ⟨ht, hs⟩ | ⟨ht, hs⟩ | ⟨ht, hs⟩ := tl.phases t <;>
      simp [hs, Driver.awPhase, Driver.wPhase, Driver.bPhase, bLastPhase, writtenPhase,
        idle.bready] <;> omega

theorem WriteTimeline.arvalid (idle : c.out.Idle) (t : Nat) : (c.bus t).arvalid = false := by
  cases t with
  | zero => exact idle.arvalid
  | succ t =>
    rw [bus_succ]
    obtain ⟨-, hs⟩ | ⟨-, hs⟩ | ⟨-, hs⟩ | ⟨-, hs⟩ | ⟨-, hs⟩ := tl.phases t <;> rw [hs] <;>
      exact idle.arvalid

theorem WriteTimeline.awTaken (idle : c.out.Idle) (t : Nat) :
    ((c.bus t).awvalid && (c.bus t).awready) = decide (t = a) := by
  refine taken_eq (fun t => (c.bus t).awvalid) (fun t => (c.bus t).awready) tl.pos
    (fun t => (tl.awSignals idle t).1) ?_ (fun t hst htk => ?_) t
  · rw [bus_slave]
    exact tl.awready
  · rw [bus_slave]
    exact tl.not_awready t hst htk

theorem WriteTimeline.wTaken (idle : c.out.Idle) (t : Nat) :
    ((c.bus t).wvalid && (c.bus t).wready) = decide (t = w) := by
  refine taken_eq (fun t => (c.bus t).wvalid) (fun t => (c.bus t).wready) tl.aw_lt
    (fun t => (tl.wSignals idle t).1) ?_ (fun t hst htk => ?_) t
  · rw [bus_slave]
    exact tl.wready
  · rw [bus_slave]
    exact tl.not_wready t hst htk

theorem WriteTimeline.bTaken (idle : c.out.Idle) (serves : ServesWrite c.bus) (t : Nat) :
    ((c.bus t).bvalid && (c.bus t).bready) = decide (t = n) := by
  have hready := tl.bready_iff idle
  have hvalid : (c.bus n).bvalid = true := by
    rw [bus_slave]
    exact tl.bvalid
  refine answered_eq (fun t => (c.bus t).bvalid) (fun t => (c.bus t).bready) tl.w_lt hready hvalid
    (fun t hst htk => ?_) ?_ t
  · rw [bus_slave]
    exact tl.not_bvalid t hst htk
  · rw [Bool.eq_false_iff]
    intro hnext
    have hnone := serves.once (n + 1) hnext n (Nat.lt_succ_self n)
    simp [AxiSample.bHandshake, hvalid, (hready n).mpr ⟨tl.w_lt, Nat.le_succ n⟩] at hnone

/-- The whole write. -/
theorem WriteTimeline.writes (idle : c.out.Idle) (serves : ServesWrite c.bus) : Writes c tr where
  aw := by
    have hvalid := ((tl.awSignals idle a).1).mpr ⟨tl.pos, le_rfl⟩
    refine ⟨a, ?_, fun t ht => ?_⟩
    · simp [AxiSample.awHandshake, tl.awTaken idle a, (tl.awSignals idle a).2 hvalid]
    · simp [AxiSample.awHandshake, tl.awTaken idle t, ht]
  w := by
    have hvalid := ((tl.wSignals idle w).1).mpr ⟨tl.aw_lt, le_rfl⟩
    refine ⟨w, ?_, ((tl.wSignals idle w).2 hvalid).2, fun t ht => ?_⟩
    · simp [AxiSample.wHandshake, tl.wTaken idle w, (tl.wSignals idle w).2 hvalid]
    · simp [AxiSample.wHandshake, tl.wTaken idle t, ht]
  b := by
    have hresp : respOf (c.bus n).bresp = resp := by
      rw [bus_slave]
      exact tl.bresp
    refine ⟨n, resp, ?_, fun t ht => ?_, n + 1, ?_, ?_⟩
    · simp [AxiSample.bHandshake, tl.bTaken idle serves n, hresp]
    · simp [AxiSample.bHandshake, tl.bTaken idle serves t, ht]
    · rw [tl.done (n + 1) (Nat.lt_succ_self n)]
      rfl
    · rw [tl.done (n + 1) (Nat.lt_succ_self n)]
      rfl
  holds t := by
    constructor
    · intro hvalid hready
      have hsig := tl.awSignals idle
      have htaken : (c.bus a).awready = true := by
        rw [bus_slave]
        exact tl.awready
      have hnext : (c.bus (t + 1)).awvalid = true :=
        valid_succ (fun t => (c.bus t).awvalid) (fun t => (c.bus t).awready)
          (fun t => (hsig t).1) htaken hvalid hready
      exact ⟨hnext, ((hsig (t + 1)).2 hnext).trans ((hsig t).2 hvalid).symm⟩
    · intro hvalid hready
      have hsig := tl.wSignals idle
      have htaken : (c.bus w).wready = true := by
        rw [bus_slave]
        exact tl.wready
      have hnext : (c.bus (t + 1)).wvalid = true :=
        valid_succ (fun t => (c.bus t).wvalid) (fun t => (c.bus t).wready)
          (fun t => (hsig t).1) htaken hvalid hready
      have hwords := (hsig t).2 hvalid
      have hwords' := (hsig (t + 1)).2 hnext
      exact ⟨hnext, hwords'.1.trans hwords.1.symm, hwords'.2.trans hwords.2.symm⟩
    · intro hvalid
      rw [tl.arvalid idle] at hvalid
      cases hvalid

end Timeline

section Phases

variable {out : MasterSignals} {tr : DriverItem} {resp : Axi4liteResp} {x : SlaveSignals}

theorem edge_awPhase_wait (h : ¬ x.awready = true) : (awPhase out tr).edge x = awPhase out tr := by
  simp [edge, awPhase, waitAw, h]

theorem edge_awPhase (haw : x.awready = true) (hw : x.wready = false) :
    (awPhase out tr).edge x = wPhase out tr := by
  simp [edge, awPhase, wPhase, waitAw, waitW, haw, hw]

theorem edge_wPhase_wait (h : ¬ x.wready = true) : (wPhase out tr).edge x = wPhase out tr := by
  simp [edge, wPhase, waitW, h]

theorem edge_wPhase (hw : x.wready = true) (hb : x.bvalid = false) :
    (wPhase out tr).edge x = bPhase out tr := by
  simp [edge, wPhase, bPhase, waitW, waitB, hw, hb]

theorem edge_bPhase_wait (h : ¬ x.bvalid = true) : (bPhase out tr).edge x = bPhase out tr := by
  simp [edge, bPhase, waitB, h]

theorem edge_bPhase (h : x.bvalid = true) :
    (bPhase out tr).edge x = bLastPhase out tr (respOf x.bresp) := by
  simp [edge, bPhase, bLastPhase, waitB, h]

end Phases

/-- No data is handed over while W has to wait. -/
theorem AwTimeline.wHandshake_none {c : Call} {tr : DriverItem} {a w : Nat}
    (tl : AwTimeline c tr a) (idle : c.out.Idle)
    (hnot : ∀ t, a < t → t < w → (c.slave t).wready = false) :
    ∀ t < w, (c.bus t).wHandshake = none := by
  intro t htw
  cases t with
  | zero => simp [AxiSample.wHandshake, Call.bus, idle.wvalid]
  | succ t =>
    rcases Nat.lt_or_ge t a with hta | hat
    · simp [AxiSample.wHandshake, bus_succ, tl.awPhase t hta, Driver.awPhase, idle.wvalid]
    · simp [AxiSample.wHandshake, bus_succ, hnot (t + 1) (by omega) htw]

section Write

variable {out : MasterSignals} {tr : DriverItem} {slave : Nat → SlaveSignals}
  (serves : ServesWrite (writeCall out tr slave).bus)
include serves

theorem exists_awTimeline (haw : (slave 0).awready = false)
    (hw : ∀ a, (slave a).awready = true → (∀ t < a, (slave t).awready = false) →
      (slave a).wready = false) :
    ∃ a, AwTimeline (writeCall out tr slave) tr a := by
  set c := writeCall out tr slave with hc
  have h0 : c.state 0 = awPhase out tr := by
    simp [hc, writeCall, Call.state, doWrite, waitAw, haw, awPhase]
  obtain ⟨a', ha', hready⟩ := serves.acceptsAw 1 (by rw [bus_succ, h0]; rfl)
  rw [bus_slave] at hready
  obtain ⟨a, pos, awready, not_awready, hphase⟩ := timed_wait (x := c.slave) (state_succ c)
    (fun _ h => edge_awPhase_wait h) h0 ⟨a', ha', hready⟩
  have hfirst : ∀ t < a, (slave t).awready = false := by
    intro t hta
    rcases Nat.eq_zero_or_pos t with rfl | ht
    · exact haw
    · exact Bool.eq_false_iff.mpr (not_awready t ht hta)
  refine ⟨a, pos, fun t => hphase t (Nat.zero_le t), awready, fun t _ => hfirst t, ?_⟩
  rw [state_of_pos c pos, hphase (a - 1) (Nat.zero_le _) (by omega)]
  exact edge_awPhase awready (hw a awready hfirst)

/-- No response is valid until data has been handed over. -/
theorem lt_of_bvalid {n : Nat} (h : (slave n).bvalid = true) {k : Nat}
    (hnone : ∀ t < k, ((writeCall out tr slave).bus t).wHandshake = none) : k < n := by
  obtain ⟨-, t, htn, hsome⟩ := serves.asked n (by rwa [bus_slave])
  by_contra hle
  rw [hnone t (by omega)] at hsome
  cases hsome

theorem exists_wTimeline (idle : out.Idle) {a : Nat}
    (tl : AwTimeline (writeCall out tr slave) tr a) :
    ∃ w, WTimeline (writeCall out tr slave) tr a w := by
  set c := writeCall out tr slave with hc
  obtain ⟨w', hw', hready⟩ := serves.acceptsW (a + 1) (by rw [bus_succ, tl.issuesW]; rfl)
  rw [bus_slave] at hready
  obtain ⟨w, aw_lt, wready, hnot, wPhase⟩ := timed_wait (x := c.slave) (state_succ c)
    (fun _ h => edge_wPhase_wait h) tl.issuesW ⟨w', hw', hready⟩
  have not_wready : ∀ t, a < t → t < w → (c.slave t).wready = false :=
    fun t hat htw => Bool.eq_false_iff.mpr (hnot t hat htw)
  have hbvalid : (slave w).bvalid = false := by
    rw [Bool.eq_false_iff]
    intro hb
    exact Nat.lt_irrefl w (lt_of_bvalid serves hb (tl.wHandshake_none idle not_wready))
  refine ⟨w, { tl with aw_lt, wready, wPhase, not_wready, awaitsB := ?_ }⟩
  rw [state_of_pos c (by omega), wPhase (w - 1) (by omega) (by omega)]
  exact edge_wPhase wready hbvalid

theorem exists_writeTimeline (idle : out.Idle) {a w : Nat}
    (tl : WTimeline (writeCall out tr slave) tr a w) :
    ∃ n resp, WriteTimeline (writeCall out tr slave) tr a w n resp := by
  set c := writeCall out tr slave with hc
  have haw : (c.bus a).awHandshake.isSome := by
    obtain ⟨a, rfl⟩ := Nat.exists_eq_succ_of_ne_zero tl.pos.ne'
    simp [AxiSample.awHandshake, bus_succ, tl.awPhase a (Nat.lt_succ_self a), Driver.awPhase,
      tl.awready]
  have hw : (c.bus w).wHandshake.isSome := by
    obtain ⟨w, rfl⟩ := Nat.exists_eq_succ_of_ne_zero (Nat.ne_of_gt (Nat.zero_lt_of_lt tl.aw_lt))
    simp [AxiSample.wHandshake, bus_succ, tl.wready, Driver.wPhase,
      tl.wPhase w (Nat.lt_succ_iff.mp tl.aw_lt) (Nat.lt_succ_self w)]
  obtain ⟨n', hn'⟩ := serves.responds a w haw hw
  rw [bus_slave] at hn'
  have hwn' := lt_of_bvalid serves hn' (tl.wHandshake_none idle tl.not_wready)
  obtain ⟨n, w_lt, bvalid, hnot, bPhase⟩ := timed_wait (x := c.slave) (state_succ c)
    (fun _ h => edge_bPhase_wait h) tl.awaitsB ⟨n', hwn', hn'⟩
  have bLast : c.state n = bLastPhase out tr (respOf (c.slave n).bresp) := by
    rw [state_of_pos c (by omega), bPhase (n - 1) (by omega) (by omega)]
    exact edge_bPhase bvalid
  have done := timed_invariant (x := c.slave) (state_succ c)
    (p := fun d => d = writtenPhase out tr (respOf (c.slave n).bresp))
    (fun d x h => by rw [h]; rfl) (a := n + 1) (by rw [state_succ, bLast]; rfl)
  exact ⟨n, _, { tl with
    w_lt, bvalid, bPhase, bLast, bresp := rfl, done
    not_bvalid := fun t hwt htn => Bool.eq_false_iff.mpr (hnot t hwt htn) }⟩

end Write

/-! ### A write that is not seen -/

/-- With `awready` up at the start of `do_write` no address is handed over. -/
theorem awHandshake_none {out : MasterSignals} {tr : DriverItem} {slave : Nat → SlaveSignals}
    (idle : out.Idle) (haw : (slave 0).awready = true) (t : Nat) :
    ((writeCall out tr slave).bus t).awHandshake = none := by
  set c := writeCall out tr slave with hc
  cases t with
  | zero => simp [AxiSample.awHandshake, Call.bus, hc, writeCall, idle.awvalid]
  | succ t =>
    have hstart : (c.state 0).pc ≠ .aw ∧ (c.state 0).out.awvalid = false := by
      simp only [hc, writeCall, Call.state, doWrite, waitAw, waitW, waitB, haw, if_true]
      split_ifs <;> simp
    have hnever := timed_invariant (x := c.slave) (state_succ c)
      (p := fun d => d.pc ≠ .aw ∧ d.out.awvalid = false) edge_awvalid hstart t (Nat.zero_le t)
    simp [AxiSample.awHandshake, bus_succ, hnever.2]

/-- With `wready` up at the edge at which the address is handed over no data is. -/
theorem wHandshake_none {out : MasterSignals} {tr : DriverItem} {slave : Nat → SlaveSignals}
    (idle : out.Idle) {a : Nat} (haw : (slave a).awready = true)
    (hfirst : ∀ t < a, (slave t).awready = false) (hw : (slave a).wready = true) (t : Nat) :
    ((writeCall out tr slave).bus t).wHandshake = none := by
  set c := writeCall out tr slave with hc
  have hphase : ∀ t < a, c.state t = awPhase out tr := by
    intro t hta
    induction t with
    | zero => simp [hc, writeCall, Call.state, doWrite, waitAw, hfirst 0 hta, awPhase]
    | succ t ih =>
      rw [state_succ, ih (by omega)]
      exact edge_awPhase_wait (by simp [hc, writeCall, hfirst (t + 1) hta])
  have hpast : ((c.state a).pc ≠ .aw ∧ (c.state a).pc ≠ .w) ∧ (c.state a).out.wvalid = false := by
    have hstate : c.state a = (awPhase out tr).waitAw (slave a) := by
      cases a with
      | zero => rfl
      | succ a => rw [state_succ, hphase a (Nat.lt_succ_self a)]; rfl
    simp only [hstate, waitAw, waitW, waitB, haw, hw, if_true]
    split_ifs <;> simp
  cases t with
  | zero => simp [AxiSample.wHandshake, Call.bus, hc, writeCall, idle.wvalid]
  | succ t =>
    have hwvalid : (c.state t).out.wvalid = false := by
      rcases Nat.lt_or_ge t a with hta | hat
      · rw [hphase t hta]
        exact idle.wvalid
      · exact (timed_invariant (x := c.slave) (state_succ c)
          (p := fun d => (d.pc ≠ .aw ∧ d.pc ≠ .w) ∧ d.out.wvalid = false)
          edge_wvalid hpast t hat).2
    simp [AxiSample.wHandshake, bus_succ, hwvalid]

/-- **`do_write` writes iff `awready` is down when it starts and `wready` at the edge at
which the address is handed over.** -/
theorem writes_iff {out : MasterSignals} (idle : out.Idle) {tr : DriverItem}
    {slave : Nat → SlaveSignals} (serves : ServesWrite (writeCall out tr slave).bus) :
    Writes (writeCall out tr slave) tr ↔ (slave 0).awready = false ∧
      ∀ a, (slave a).awready = true → (∀ t < a, (slave t).awready = false) →
        (slave a).wready = false := by
  constructor
  · intro h
    constructor
    · obtain ⟨a, ha, -⟩ := h.aw
      rw [Bool.eq_false_iff]
      intro haw
      rw [awHandshake_none idle haw] at ha
      cases ha
    · intro a haw hfirst
      obtain ⟨w, hw, -⟩ := h.w
      rw [Bool.eq_false_iff]
      intro hwready
      rw [wHandshake_none idle haw hfirst hwready] at hw
      cases hw
  · rintro ⟨haw, hw⟩
    obtain ⟨a, tla⟩ := exists_awTimeline serves haw hw
    obtain ⟨w, tlw⟩ := exists_wTimeline serves idle tla
    obtain ⟨n, resp, tl⟩ := exists_writeTimeline serves idle tlw
    exact tl.writes idle serves

end Testbench.Axi4lite.Driver
