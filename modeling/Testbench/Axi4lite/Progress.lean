import Testbench.Axi4lite.PublishedItems

/-!
Whether a session of `axi4lite_driver` comes to its end.

Each wait loop of the driver tests ready at the edge at which it raises valid, when the
slave cannot know of it yet. If ready happens to be up the word is withdrawn unseen
(`EarlyReady`), and since no response comes for it the driver never gets past this item.
`returned_all_iff` says that nothing else stops it: with a slave that takes and answers what
it sees, every item is returned iff ready is never early.
-/

namespace Testbench.Axi4lite

open Testbench.Lib

/-- The slave has seen every word of the task that the task is done with. -/
structure Driver.Seen (d : Driver) (b : Bus) : Prop where
  aw : d.pc = .w ∨ d.pc = .b → b.aw ≠ []
  w : d.pc = .b → b.w ≠ []
  ar : d.pc = .r → b.ar ≠ []

/-- A task at a statement before which the slave need not have seen anything. -/
theorem Driver.seen_of_pc {d : Driver} {b : Bus} (h : d.pc ≠ .w ∧ d.pc ≠ .b ∧ d.pc ≠ .r) :
    d.Seen b where
  aw hpc := absurd hpc (not_or.mpr ⟨h.1, h.2.1⟩)
  w hpc := absurd hpc h.2.1
  ar hpc := absurd hpc h.2.2

theorem Driver.seen_of_answered (d : Driver) (b : Bus)
    (h : d.pc = .bLast ∨ d.pc = .rLast ∨ d.pc = .done) : d.Seen b := by
  rcases h with h | h | h <;> exact seen_of_pc (by simp [h])

theorem Driver.answered_edge (d : Driver) (x : SlaveSignals) :
    d.answered <+: (d.edge x).answered := by
  obtain ⟨pc, out, tr⟩ := d
  cases pc with
  | done | bLast | rLast => exact List.prefix_rfl
  | aw | w | b | ar | r => exact List.nil_prefix

/-- Edges a task still needs, from this statement on. -/
def Pc.left : Pc → Nat
  | .aw => 4
  | .w | .ar => 3
  | .b | .r => 2
  | .bLast | .rLast => 1
  | .done => 0

/-- What a task waits for at this statement. -/
def Pc.awaits (pc : Pc) (x : SlaveSignals) : Bool :=
  match pc with
  | .aw => x.awready
  | .w => x.wready
  | .b => x.bvalid
  | .ar => x.arready
  | .r => x.rvalid
  | .bLast | .rLast | .done => true

namespace Driver

/-- A task waits or gets on. -/
theorem left_edge {d : Driver} (hd : d.pc ≠ .done) (x : SlaveSignals) :
    d.edge x = d ∨ (d.edge x).pc.left < d.pc.left := by
  obtain ⟨pc, out, tr⟩ := d
  cases pc with
  | done => exact absurd rfl hd
  | bLast | rLast => exact .inr Nat.zero_lt_one
  | aw | w | b | ar | r =>
    simp only [edge, waitAw, waitW, waitB, waitAr, waitR]
    split_ifs <;> simp [Pc.left]

theorem left_edge_of_awaits {d : Driver} {x : SlaveSignals} (hd : d.pc ≠ .done)
    (h : d.pc.awaits x = true) : (d.edge x).pc.left < d.pc.left := by
  obtain ⟨pc, out, tr⟩ := d
  cases pc with
  | done => exact absurd rfl hd
  | bLast | rLast => exact Nat.zero_lt_one
  | b | r =>
    simp only [Pc.awaits] at h
    simp [edge, waitB, waitR, h, Pc.left]
  | aw | w | ar =>
    simp only [Pc.awaits] at h
    simp only [edge, waitAw, waitW, waitB, waitAr, waitR, h, reduceIte]
    split_ifs <;> simp [Pc.left]

end Driver

namespace MainPhase

/-- The item `try_next_item` returns at this edge. -/
def takes (m : MainPhase) (x : SlaveSignals) : Option DriverItem :=
  if ∀ d ∈ m.task, (d.edge x).pc = .done then m.requests.head?.join else none

/-- Ready is up at the edge at which the driver raises the valid it belongs to. -/
def EarlyReady (m : MainPhase) (x : SlaveSignals) : Prop :=
  (∃ tr ∈ m.takes x, if tr.dir = .write then x.awready = true else x.arready = true) ∨
    ∃ d ∈ m.task, d.pc = .aw ∧ x.awready = true ∧ x.wready = true

def Seen (m : MainPhase) (b : Bus) : Prop := ∀ d ∈ m.task, d.Seen b

variable {m : MainPhase} {b : Bus} {x : SlaveSignals}

/-! ### Words the slave never saw -/

theorem seen_startTask {out : MasterSignals} {tr : DriverItem} (idle : b.Idle)
    (hb : x.bvalid = false) (hr : x.rvalid = false) : (Driver.startTask out tr x).Seen b ↔
      ¬ if tr.dir = .write then x.awready = true else x.arready = true := by
  obtain ⟨haw, hw, har⟩ := idle
  simp only [Driver.startTask, Driver.doWrite, Driver.doRead, Driver.waitAw, Driver.waitW,
    Driver.waitB, Driver.waitAr, Driver.waitR, hb, hr, Bool.false_eq_true, reduceIte]
  split_ifs with hdir hready hwready harready
  · exact iff_of_false (fun h => h.aw (.inr rfl) haw) (fun h => h hready)
  · exact iff_of_false (fun h => h.aw (.inl rfl) haw) (fun h => h hready)
  · exact iff_of_true (Driver.seen_of_pc (by simp)) hready
  · exact iff_of_false (fun h => h.ar rfl har) (fun h => h harready)
  · exact iff_of_true (Driver.seen_of_pc (by simp)) harready

theorem seen_task {d : Driver} (hd : d.Drives) (holds : Holds d b)
    (answers : b.Answers ⟨d.out, x⟩) : (d.edge x).Seen (b.step ⟨d.out, x⟩) ↔
      d.Seen b ∧ ¬ (d.pc = .aw ∧ x.awready = true ∧ x.wready = true) := by
  rw [step_task hd]
  obtain ⟨pc, out, tr⟩ := d
  obtain ⟨hbvalid, hrvalid⟩ := answers
  cases pc with
  | done | bLast | rLast =>
    exact iff_of_true (Driver.seen_of_pc (by simp [Driver.edge]))
      ⟨Driver.seen_of_pc (by simp), by simp⟩
  | aw =>
    have haw : b.aw = [] := by simpa using holds.aw
    have hw : b.w = [] := by simpa using holds.w
    have hb : x.bvalid = false := by
      by_contra hb
      exact (hbvalid (by simpa using hb)).1 haw
    have hvalid := hd.awvalid
    simp only [Driver.edge, Driver.waitAw, Driver.waitW, Driver.waitB, hb, Bool.false_eq_true,
      reduceIte]
    split_ifs with hawready hwready
    · exact iff_of_false (fun h => h.w rfl hw) (fun h => h.2 ⟨trivial, hawready, hwready⟩)
    · refine iff_of_true ⟨fun _ => ?_, by simp, by simp⟩ ⟨(Driver.seen_of_pc (by simp)), ?_⟩
      · simp_all [Bus.pushAw, AxiSample.awHandshake]
      · exact fun h => hwready h.2.2
    · exact iff_of_true (Driver.seen_of_pc (by simp))
        ⟨Driver.seen_of_pc (by simp), fun h => hawready h.2.1⟩
  | w =>
    have hw : b.w = [] := by simpa using holds.w
    have hb : x.bvalid = false := by
      by_contra hb
      exact (hbvalid (by simpa using hb)).2 hw
    have hvalid := hd.wvalid
    simp only [Driver.edge, Driver.waitW, Driver.waitB, hb, Bool.false_eq_true, reduceIte]
    split_ifs with hready
    · have hpush : (b.pushW ⟨out, x⟩).w ≠ [] := by
        simp_all [Bus.pushW, AxiSample.wHandshake]
      constructor
      · exact fun h => ⟨⟨fun _ => h.aw (.inr rfl), by simp, by simp⟩, by simp⟩
      · exact fun h => ⟨fun _ => h.1.aw (.inl rfl), fun _ => hpush, by simp⟩
    · constructor
      · exact fun h => ⟨⟨fun _ => h.aw (.inl rfl), by simp, by simp⟩, by simp⟩
      · exact fun h => ⟨fun _ => h.1.aw (.inl rfl), by simp, by simp⟩
  | b =>
    simp only [Driver.edge, Driver.waitB]
    split_ifs with hb
    · obtain ⟨haw, hw⟩ := hbvalid hb
      exact iff_of_true (Driver.seen_of_pc (by simp))
        ⟨⟨fun _ => haw, fun _ => hw, by simp⟩, by simp⟩
    · rw [respond_of_not_bvalid hb]
      exact (and_iff_left (by simp)).symm
  | ar =>
    have har : b.ar = [] := by simpa using holds.ar
    have hr : x.rvalid = false := by
      by_contra hr
      exact hrvalid (by simpa using hr) har
    have hvalid := hd.arvalid
    simp only [Driver.edge, Driver.waitAr, Driver.waitR, hr, Bool.false_eq_true, reduceIte]
    split_ifs with hready
    · refine iff_of_true ⟨by simp, by simp, fun _ => ?_⟩ ⟨(Driver.seen_of_pc (by simp)), by simp⟩
      simp_all [Bus.pushAr, AxiSample.arHandshake]
    · exact iff_of_true (Driver.seen_of_pc (by simp)) ⟨(Driver.seen_of_pc (by simp)), by simp⟩
  | r =>
    simp only [Driver.edge, Driver.waitR]
    split_ifs with hr
    · exact iff_of_true (Driver.seen_of_pc (by simp))
        ⟨⟨by simp, by simp, fun _ => hrvalid hr⟩, by simp⟩
    · rw [respondRead_of_not_rvalid hr]
      exact (and_iff_left (by simp)).symm

theorem seen_poll (idle : b.Idle) (hb : x.bvalid = false) (hr : x.rvalid = false) :
    (m.poll x).Seen b ↔ ¬ ∃ tr ∈ m.requests.head?.join,
      if tr.dir = .write then x.awready = true else x.arready = true := by
  unfold Seen
  rcases hreq : m.requests with _ | ⟨_ | tr, requests⟩
  · simp [poll, hreq]
  · simp [poll, hreq]
  · simpa [poll, hreq] using seen_startTask idle hb hr

theorem step_answered {d : Driver} (hd : d.Drives)
    (hpc : d.pc = .bLast ∨ d.pc = .rLast ∨ d.pc = .done) (hb : x.bvalid = false)
    (hr : x.rvalid = false) : b.step ⟨d.out, x⟩ = b := by
  rw [step_task hd]
  rcases hpc with hpc | hpc | hpc
  · simp only [hpc]
    exact respond_of_not_bvalid (by simp [hb])
  · simp only [hpc]
    exact respondRead_of_not_rvalid (by simp [hr])
  · simp only [hpc]

/-- The slave has missed a word iff ready was early. -/
theorem seen_edge (h : Agrees m b) (answers : b.Answers ⟨m.out, x⟩) :
    (m.edge x).Seen (b.step ⟨m.out, x⟩) ↔ m.Seen b ∧ ¬ m.EarlyReady x := by
  obtain ⟨drives, completed, holds⟩ := h
  have hquiet := quiet_of_idle answers
  cases htask : m.task with
  | none =>
    rw [htask] at holds
    have hout : m.out.Idle := by
      rw [Drives, htask] at drives
      exact drives
    obtain ⟨hb, hr⟩ := hquiet holds
    rw [step_idle hout]
    simp only [edge, htask]
    rw [seen_poll holds hb hr]
    simp [Seen, EarlyReady, takes, htask]
  | some d =>
    rw [htask] at holds
    rw [Drives, htask] at drives
    obtain ⟨hd, hdone, hout⟩ := drives
    rw [← hout] at answers ⊢
    have hseen := seen_task hd holds answers
    simp only [edge, htask]
    split_ifs with hend
    · have hpc := Driver.pc_of_edge_done hdone hend
      have idle := holds.idle hpc
      have hpc' : d.pc ≠ .aw := by rcases hpc with hpc | hpc | hpc <;> simp [hpc]
      obtain ⟨hb, hr⟩ := hquiet idle
      have hdseen := d.seen_of_answered b hpc
      rw [step_answered hd hpc hb hr, seen_poll idle hb hr]
      simp [Seen, EarlyReady, takes, htask, hend, hpc', hdseen]
    · have hnew : m.takes x = none := by simp [takes, htask, hend]
      simpa [Seen, EarlyReady, hnew, htask] using hseen

/-- The item of a word the slave missed is not returned. -/
theorem returned_lt_started (h : ¬ m.Seen b) : m.returned.length < m.started.length := by
  unfold Seen at h
  push Not at h
  obtain ⟨d, hd, hnot⟩ := h
  have htask : m.task = some d := hd
  have hanswered : d.answered = [] := by
    by_contra hne
    refine hnot (d.seen_of_answered b ?_)
    by_contra hpc
    exact hne (if_neg hpc)
  simp [returned, started, htask, hanswered]

theorem returned_edge (m : MainPhase) (x : SlaveSignals) : m.returned <+: (m.edge x).returned := by
  have hpoll : ∀ m : MainPhase, m.done <+: (m.poll x).returned := by
    intro m
    unfold poll
    split <;> simp [returned]
  unfold edge
  split
  · next htask =>
    simpa [returned, htask] using hpoll m
  · next d htask =>
    dsimp only
    have hsame := d.answered_edge x
    split
    · next hend =>
      refine List.IsPrefix.trans ?_ (hpoll _)
      simpa [returned, htask, Driver.answered, hend] using hsame
    · simpa [returned, htask] using hsame

/-! ### What is left to do -/

/-- Edges the session still needs at least, with room for what a poll may start. -/
def left (m : MainPhase) : Nat := 6 * m.requests.length + m.task.elim 0 (·.pc.left)

theorem left_poll (m : MainPhase) (x : SlaveSignals) (h : m.requests ≠ []) :
    (m.poll x).left < 6 * m.requests.length := by
  rcases hreq : m.requests with _ | ⟨_ | tr, requests⟩
  · exact absurd hreq h
  · simp only [poll, hreq, left, List.length_cons, Option.elim_none]
    omega
  · simp only [poll, hreq, left, List.length_cons, Option.elim_some]
    have hbound : ∀ pc : Pc, pc.left ≤ 4 := by
      intro pc
      cases pc <;> decide
    have := hbound (Driver.startTask m.out tr x).pc
    omega

theorem left_poll_le (m : MainPhase) (x : SlaveSignals) :
    (m.poll x).left ≤ 6 * m.requests.length := by
  by_cases h : m.requests = []
  · simp [poll, h, left]
  · exact (left_poll m x h).le

theorem edge_of_end (htask : m.task = none) (hreq : m.requests = []) (x : SlaveSignals) :
    m.edge x = m := by
  obtain ⟨out, task, requests, done⟩ := m
  cases htask
  cases hreq
  rfl

/-- The session waits or gets on. -/
theorem left_edge (h : m.Drives) (x : SlaveSignals) : m.edge x = m ∨ (m.edge x).left < m.left := by
  unfold Drives at h
  cases htask : m.task with
  | none =>
    by_cases hreq : m.requests = []
    · exact .inl (edge_of_end htask hreq x)
    · right
      simp only [edge, htask]
      refine (left_poll m x hreq).trans_le ?_
      simp [left]
  | some d =>
    rw [htask] at h
    obtain ⟨-, hdone, hout⟩ := h
    simp only [edge, htask]
    rcases Driver.left_edge hdone x with hsame | hlt
    · left
      rw [hsame, if_neg hdone, hout, ← htask]
    · right
      split
      · refine (left_poll_le _ x).trans_lt ?_
        simp only [left, htask, Option.elim_some]
        omega
      · simpa [left, htask] using hlt

theorem left_edge_of_awaits {d : Driver} (h : m.Drives) (htask : m.task = some d)
    (hawaits : d.pc.awaits x = true) : (m.edge x).left < m.left := by
  rw [Drives, htask] at h
  have hlt := Driver.left_edge_of_awaits h.2.1 hawaits
  simp only [edge, htask]
  split
  · refine (left_poll_le _ x).trans_lt ?_
    simp only [left, htask, Option.elim_some]
    omega
  · simpa [left, htask] using hlt

/-- Nothing is left to do: everything was returned. -/
theorem returned_of_left (h : m.Drives) (hleft : m.left = 0) :
    m.requests = [] ∧ m.returned = m.started := by
  simp only [left, Nat.add_eq_zero_iff, Nat.mul_eq_zero, OfNat.ofNat_ne_zero, false_or,
    List.length_eq_zero_iff] at hleft
  obtain ⟨hreq, htask⟩ := hleft
  refine ⟨hreq, ?_⟩
  cases ht : m.task with
  | none => simp [returned, started, ht]
  | some d =>
    rw [Drives, ht] at h
    rw [ht, Option.elim_some] at htask
    exact absurd htask (by cases hpc : d.pc <;> simp_all [Pc.left])

end MainPhase

/-! ### A session with an endless slave -/

namespace Session

variable (requests : List (Option DriverItem)) (slave : Nat → SlaveSignals)

/-- The driver at edge `t`. -/
def state (t : Nat) : MainPhase := run MainPhase.edge { requests } ((List.range t).map slave)

/-- The bus at edge `t`. -/
def bus (t : Nat) : AxiSample := ⟨(state requests slave t).out, slave t⟩

/-- What is open at edge `t`. -/
def pending (t : Nat) : Bus := run Bus.step {} ((List.range t).map (bus requests slave))

/-- A slave that takes a valid word some time, and answers what it took, and nothing else. -/
structure Serves : Prop where
  answers : ∀ t, (pending requests slave t).Answers (bus requests slave t)
  acceptsAw : ∀ t, (bus requests slave t).awvalid = true → ∃ t', t ≤ t' ∧ (slave t').awready = true
  acceptsW : ∀ t, (bus requests slave t).wvalid = true → ∃ t', t ≤ t' ∧ (slave t').wready = true
  acceptsAr : ∀ t, (bus requests slave t).arvalid = true → ∃ t', t ≤ t' ∧ (slave t').arready = true
  responds : ∀ t, (pending requests slave t).aw ≠ [] → (pending requests slave t).w ≠ [] →
    ∃ t', t ≤ t' ∧ (slave t').bvalid = true
  respondsRead : ∀ t, (pending requests slave t).ar ≠ [] → ∃ t', t ≤ t' ∧ (slave t').rvalid = true

variable {requests slave}

theorem state_succ (t : Nat) :
    state requests slave (t + 1) = (state requests slave t).edge (slave t) :=
  run_map_range_succ slave _ t

theorem pending_succ (t : Nat) : pending requests slave (t + 1) =
    (pending requests slave t).step (bus requests slave t) :=
  run_map_range_succ (bus requests slave) _ t

theorem returned_mono {t t' : Nat} (h : t ≤ t') :
    (state requests slave t).returned.length ≤ (state requests slave t').returned.length := by
  induction t', h using Nat.le_induction with
  | base => exact le_rfl
  | succ t' _ ih =>
    rw [state_succ]
    exact ih.trans (MainPhase.returned_edge _ _).length_le

variable (requests slave) in
theorem inOrder (t : Nat) : MainPhase.InOrder requests.reduceOption (state requests slave t) :=
  MainPhase.inOrder_run (MainPhase.inOrder_init requests) (MainPhase.agrees_init requests).drives _

section Serves

variable (serves : Serves requests slave)
include serves

theorem agrees (t : Nat) :
    MainPhase.Agrees (state requests slave t) (pending requests slave t) := by
  induction t with
  | zero => exact MainPhase.agrees_init requests
  | succ t ih =>
    rw [state_succ, pending_succ]
    exact MainPhase.agrees_edge ih (serves.answers t)

theorem seen_iff (t : Nat) : (state requests slave t).Seen (pending requests slave t) ↔
    ∀ s < t, ¬ (state requests slave s).EarlyReady (slave s) := by
  induction t with
  | zero => exact iff_of_true (fun d hd => absurd hd (Option.not_mem_none d)) nofun
  | succ t ih =>
    rw [state_succ, pending_succ, Nat.forall_lt_succ_right, ← ih]
    exact MainPhase.seen_edge (agrees serves t) (serves.answers t)

/-- The session gets on as long as the slave has seen every word. -/
theorem exists_left_lt {t : Nat} (hseen : (state requests slave t).Seen (pending requests slave t))
    (hleft : 0 < (state requests slave t).left) :
    ∃ t', (state requests slave t').left < (state requests slave t).left := by
  have hagrees := agrees serves t
  have hready : ∃ t', t < t' ∧
      ((state requests slave t).edge (slave (t' - 1))).left < (state requests slave t).left := by
    suffices h : ∃ t', t ≤ t' ∧
        ((state requests slave t).edge (slave t')).left < (state requests slave t).left by
      obtain ⟨t', hle, hlt⟩ := h
      exact ⟨t' + 1, Nat.lt_succ_of_le hle, hlt⟩
    cases htask : (state requests slave t).task with
    | none =>
      have hreq : (state requests slave t).requests ≠ [] := by
        intro hreq
        simp [MainPhase.left, htask, hreq] at hleft
      have hlt := MainPhase.left_poll (state requests slave t) (slave t) hreq
      exact ⟨t, le_rfl, by simpa [MainPhase.edge, MainPhase.left, htask] using hlt⟩
    | some d =>
      have hawaits : ∃ t', t ≤ t' ∧ d.pc.awaits (slave t') = true := by
        have hd := hagrees.drives
        rw [MainPhase.Drives, htask] at hd
        obtain ⟨hd, hdone, hout⟩ := hd
        have hseen := hseen d htask
        have hbus : (bus requests slave t).toMasterSignals = d.out := hout.symm
        cases hpc : d.pc with
        | aw => exact serves.acceptsAw t (by rw [hbus, hd.awvalid, hpc]; rfl)
        | w => exact serves.acceptsW t (by rw [hbus, hd.wvalid, hpc]; rfl)
        | b => exact serves.responds t (hseen.aw (.inr hpc)) (hseen.w hpc)
        | ar => exact serves.acceptsAr t (by rw [hbus, hd.arvalid, hpc]; rfl)
        | r => exact serves.respondsRead t (hseen.ar hpc)
        | bLast | rLast | done => exact ⟨t, le_rfl, rfl⟩
      obtain ⟨t', hle, hx⟩ := hawaits
      exact ⟨t', hle, MainPhase.left_edge_of_awaits hagrees.drives htask hx⟩
  obtain ⟨k, htk, hlt, -, hsame⟩ := timed_wait (f := state requests slave)
    (x := fun t => slave (t - 1)) state_succ
    (fun x hx => (MainPhase.left_edge hagrees.drives x).resolve_right hx) rfl hready
  refine ⟨k, ?_⟩
  obtain ⟨k, rfl⟩ := Nat.exists_eq_succ_of_ne_zero (Nat.ne_of_gt (Nat.zero_lt_of_lt htk))
  rw [state_succ, hsame k (Nat.le_of_lt_succ htk) (Nat.lt_succ_self k)]
  exact hlt

/-- **With a slave that takes and answers what it sees, the session returns every item iff
ready is never up at the edge at which the driver raises the valid it belongs to.** -/
theorem returned_all_iff :
    (∃ t, List.Forall₂ DriverItem.Carries requests.reduceOption
      (state requests slave t).returned) ↔
    ∀ t, ¬ (state requests slave t).EarlyReady (slave t) := by
  constructor
  · rintro ⟨t, hall⟩ s hearly
    -- the word missed at `s` is still missing when everything has been returned
    have hmissed : ¬ (state requests slave (max t (s + 1))).Seen
        (pending requests slave (max t (s + 1))) := by
      rw [seen_iff serves]
      intro h
      exact h s (Nat.lt_of_lt_of_le (Nat.lt_succ_self s) (Nat.le_max_right _ _)) hearly
    have hlt := MainPhase.returned_lt_started hmissed
    have hmono : (state requests slave t).returned.length ≤
        (state requests slave (max t (s + 1))).returned.length :=
      returned_mono (Nat.le_max_left t (s + 1))
    obtain ⟨asked, hitems, hcarries⟩ := inOrder requests slave (max t (s + 1))
    have hlen := congrArg List.length hitems
    rw [List.length_append] at hlen
    have := hall.length_eq
    have := hcarries.length_eq
    omega
  · intro hnever
    have hseen : ∀ t, (state requests slave t).Seen (pending requests slave t) :=
      fun t => (seen_iff serves t).mpr fun s _ => hnever s
    have hend : ∀ n t, (state requests slave t).left = n →
        ∃ t', (state requests slave t').left = 0 := by
      intro n
      induction n using Nat.strong_induction_on with
      | _ n ih =>
        intro t ht
        rcases Nat.eq_zero_or_pos n with rfl | hpos
        · exact ⟨t, ht⟩
        · obtain ⟨t', hlt⟩ := exists_left_lt serves (hseen t) (ht ▸ hpos)
          exact ih _ (ht ▸ hlt) t' rfl
    obtain ⟨t, ht⟩ := hend _ 0 rfl
    obtain ⟨hreq, hstarted⟩ := MainPhase.returned_of_left (agrees serves t).drives ht
    obtain ⟨asked, hitems, hcarries⟩ := inOrder requests slave t
    rw [hreq] at hitems
    refine ⟨t, ?_⟩
    rw [hitems, hstarted]
    simpa using hcarries

end Serves

variable (requests slave) in
/-- After the last item nothing changes any more. -/
theorem quiet_of_end {n : Nat} (htask : (state requests slave n).task = none)
    (hreq : (state requests slave n).requests = []) (idle : (state requests slave n).out.Idle)
    (t : Nat) (h : n ≤ t) : state requests slave t = state requests slave n ∧
      pending requests slave t = pending requests slave n := by
  induction t, h using Nat.le_induction with
  | base => exact ⟨rfl, rfl⟩
  | succ t _ ih =>
    rw [state_succ, pending_succ, bus, ih.1, ih.2]
    exact ⟨MainPhase.edge_of_end htask hreq _, MainPhase.step_idle idle⟩

/-- The slave of `published_writeThenRead`, silent after that. -/
def silentSlave (t : Nat) : SlaveSignals := MainPhase.writeThenReadSlave.getD t {}

theorem quiet_silentSlave {t : Nat} (h : 9 ≤ t) :
    state MainPhase.writeThenRead silentSlave t = state MainPhase.writeThenRead silentSlave 9 ∧
      pending MainPhase.writeThenRead silentSlave t =
        pending MainPhase.writeThenRead silentSlave 9 :=
  quiet_of_end MainPhase.writeThenRead silentSlave (by decide) (by decide)
    ⟨rfl, rfl, rfl, rfl, rfl⟩ t h

/-- What is not there once the slave is silent is there up to edge `k` at most. -/
theorem le_of_quiet {p : MainPhase → Bus → Bool} {k : Nat}
    (hfirst : ∀ t < 10, p (state MainPhase.writeThenRead silentSlave t)
      (pending MainPhase.writeThenRead silentSlave t) = true → t ≤ k) (hk : k < 9) (t : Nat)
    (h : p (state MainPhase.writeThenRead silentSlave t)
      (pending MainPhase.writeThenRead silentSlave t) = true) : t ≤ k := by
  rcases Nat.lt_or_ge t 9 with hlt | hge
  · exact hfirst t (by omega) h
  · rw [(quiet_silentSlave hge).1, (quiet_silentSlave hge).2] at h
    exact absurd (hfirst 9 (by decide) h) (by omega)

theorem serves_silentSlave : Serves MainPhase.writeThenRead silentSlave where
  answers t := by
    rcases Nat.lt_or_ge t 9 with hlt | hge
    · have hfirst : ∀ t < 9, (pending MainPhase.writeThenRead silentSlave t).Answers
          (bus MainPhase.writeThenRead silentSlave t) := by decide
      exact hfirst t hlt
    · have hsilent : silentSlave t = {} :=
        List.getD_eq_default _ _ ((show _ ≤ 9 by decide).trans hge)
      rw [bus, hsilent]
      exact ⟨nofun, nofun⟩
  acceptsAw t h := ⟨1, le_of_quiet (p := fun m _ => m.out.awvalid) (by decide) (by decide) t h, rfl⟩
  acceptsW t h := ⟨2, le_of_quiet (p := fun m _ => m.out.wvalid) (by decide) (by decide) t h, rfl⟩
  acceptsAr t h := ⟨6, le_of_quiet (p := fun m _ => m.out.arvalid) (by decide) (by decide) t h, rfl⟩
  responds t _ hw := ⟨3, le_of_quiet (p := fun _ b => !b.w.isEmpty) (by decide) (by decide) t
    (by simpa using hw), rfl⟩
  respondsRead t har := ⟨7, le_of_quiet (p := fun _ b => !b.ar.isEmpty) (by decide) (by decide) t
    (by simpa using har), rfl⟩

/-- Its ready is never early, and the session ends. -/
theorem returned_silentSlave :
    ¬ ∃ t, (state MainPhase.writeThenRead silentSlave t).EarlyReady (silentSlave t) :=
  not_exists.mpr ((returned_all_iff serves_silentSlave).mp
    ⟨9, .cons ⟨rfl, rfl, rfl, fun _ => rfl⟩ (.cons ⟨rfl, rfl, rfl, nofun⟩ .nil)⟩)

end Session

end Testbench.Axi4lite
