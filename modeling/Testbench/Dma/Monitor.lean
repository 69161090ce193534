import Testbench.Lib.Changes

/-!
The DMA monitor `dma_monitor` (`mpsoc/uvc/dma/dma_monitor.sv`).

At each clock edge `run_phase` compares the 24 lines with their values at the edge before, at
first with those when the phase began. `publishes_events` says what it publishes over a whole
run, for lines of four values.
-/

namespace Testbench.Dma

open Testbench.Lib

/-! ### Lines -/

/-- A bit of four values; `none` is x or z. -/
abbrev Logic := Option Bool

namespace Logic

/-- `!b` -/
def lnot (b : Logic) : Logic := b.map (!·)

/-- `a && b` -/
def land : Logic → Logic → Logic
  | some false, _ => some false
  | _, some false => some false
  | some true, some true => some true
  | _, _ => none

/-- `if (cur && !prev)` takes its branch. -/
def rose (cur prev : Logic) : Bool := land cur (lnot prev) = some true

/-- Only a change from 0 to 1 counts; x and z do not. -/
theorem rose_iff {cur prev : Logic} : rose cur prev ↔ prev = some false ∧ cur = some true := by
  revert cur prev
  decide

end Logic

/-- The signals of `dma_vif`. -/
structure DmaLines where
  dmaReq : Fin 8 → Logic := fun _ => none
  dmaAck : Fin 8 → Logic := fun _ => none
  dmaInt : Fin 8 → Logic := fun _ => none
  deriving DecidableEq

/-- `dma_trans`; `lines` are its three signals. -/
structure DmaTrans where
  lines : DmaLines := {}
  channel : Int := 0
  handshakeDelay : Int := 0
  ackSeen : Bool := false
  deriving DecidableEq

/-! ### The monitor -/

/-- The variables of `run_phase`, and what it has published. -/
structure Monitor where
  prevReq : Fin 8 → Logic
  prevAck : Fin 8 → Logic
  prevInt : Fin 8 → Logic
  published : List DmaTrans := []

namespace Monitor

/-- Before the first edge. -/
def start (vif : DmaLines) : Monitor :=
  { prevReq := vif.dmaReq, prevAck := vif.dmaAck, prevInt := vif.dmaInt }

/-- One of the three branches for a channel. -/
def report (vif : DmaLines) (c : Fin 8) (ackSeen : Bool) (cur prev : Fin 8 → Logic)
    (published : List DmaTrans) : List DmaTrans :=
  if (cur c).rose (prev c) then published ++ [{ lines := vif, channel := c, ackSeen }]
  else published

/-- One clock edge. -/
def step (m : Monitor) (vif : DmaLines) : Monitor :=
  { prevReq := vif.dmaReq
    prevAck := vif.dmaAck
    prevInt := vif.dmaInt
    published := (List.finRange 8).foldl
      (fun published c =>
        let published := report vif c false vif.dmaReq m.prevReq published
        let published := report vif c true vif.dmaAck m.prevAck published
        report vif c false vif.dmaInt m.prevInt published)
      m.published }

/-- The values of the lines at the last edge. -/
def last (m : Monitor) : DmaLines := ⟨m.prevReq, m.prevAck, m.prevInt⟩

end Monitor

/-! ### Events -/

/-- The signals of a channel, in the order in which they count. -/
inductive Signal where
  | req
  | ack
  | int
  deriving DecidableEq

/-- Request before acknowledge before interrupt. -/
inductive Signal.Before : Signal → Signal → Prop
  | reqAck : Before .req .ack
  | reqInt : Before .req .int
  | ackInt : Before .ack .int

/-- The value of a line. -/
def DmaLines.level (vif : DmaLines) : Fin 8 × Signal → Logic
  | (c, .req) => vif.dmaReq c
  | (c, .ack) => vif.dmaAck c
  | (c, .int) => vif.dmaInt c

/-- A line rises at an edge. -/
structure Event where
  edge : Nat
  channel : Fin 8
  signal : Signal

namespace Event

/-- By clock edge, then channel, then signal. -/
def Before (e e' : Event) : Prop :=
  e.edge < e'.edge ∨ e.edge = e'.edge ∧
    (e.channel < e'.channel ∨ e.channel = e'.channel ∧ e.signal.Before e'.signal)

/-- The line is 0 in the sample before the edge and 1 in the one at the edge, where `first` is
the sample before all edges. -/
def Occurs (first : DmaLines) (samples : List DmaLines) (e : Event) : Prop :=
  ∃ prev cur, (first :: samples)[e.edge]? = some prev ∧ samples[e.edge]? = some cur ∧
    prev.level (e.channel, e.signal) = some false ∧ cur.level (e.channel, e.signal) = some true

/-- The transaction for an event. -/
def ReportedBy (samples : List DmaLines) (e : Event) (tr : DmaTrans) : Prop :=
  ∃ cur, samples[e.edge]? = some cur ∧
    tr = { lines := cur, channel := e.channel, ackSeen := decide (e.signal = .ack) }

end Event

/-- The published transactions are those of the events, each once and in order. -/
def PublishesEvents (first : DmaLines) (samples : List DmaLines) (published : List DmaTrans) :
    Prop :=
  ∃ events : List Event, events.Pairwise Event.Before ∧
    (∀ e, e ∈ events ↔ e.Occurs first samples) ∧
    List.Forall₂ (Event.ReportedBy samples) events published

namespace Monitor

/-- The lines in the order in which `run_phase` looks at them. -/
def lines : List (Fin 8 × Signal) :=
  (List.finRange 8).flatMap fun c => [(c, .req), (c, .ack), (c, .int)]

/-- A line has risen between two samples. -/
def risen (prev cur : DmaLines) (l : Fin 8 × Signal) : Bool := (cur.level l).rose (prev.level l)

/-- The transaction for a line. -/
def transOf (vif : DmaLines) (l : Fin 8 × Signal) : DmaTrans :=
  { lines := vif, channel := l.1, ackSeen := decide (l.2 = .ack) }

theorem mem_lines (l : Fin 8 × Signal) : l ∈ lines := by
  obtain ⟨c, s⟩ := l
  refine List.mem_flatMap.mpr ⟨c, List.mem_finRange c, ?_⟩
  cases s <;> simp

theorem pairwise_lines : lines.Pairwise (Prod.Lex (· < ·) Signal.Before) := by
  rw [lines, List.pairwise_flatMap]
  constructor
  · intro c _
    simp only [List.pairwise_cons, List.mem_cons, List.not_mem_nil, or_false]
    refine ⟨?_, ?_, by simp, .nil⟩
    · rintro l (rfl | rfl)
      · exact .right c .reqAck
      · exact .right c .reqInt
    · rintro l rfl
      exact .right c .ackInt
  · refine (List.pairwise_lt_finRange 8).imp fun {c c'} hlt l hl l' hl' => ?_
    have hc : l.1 = c := by
      simp only [List.mem_cons, List.not_mem_nil, or_false] at hl
      rcases hl with rfl | rfl | rfl <;> rfl
    have hc' : l'.1 = c' := by
      simp only [List.mem_cons, List.not_mem_nil, or_false] at hl'
      rcases hl' with rfl | rfl | rfl <;> rfl
    exact Prod.lex_def.mpr (.inl (by rw [hc, hc']; exact hlt))

/-- A branch appends the transaction of its line. -/
theorem report_eq (vif : DmaLines) (m : Monitor) (c : Fin 8) (s : Signal)
    (published : List DmaTrans) :
    report vif c (decide (s = .ack)) (fun c => vif.level (c, s)) (fun c => m.last.level (c, s))
        published =
      published ++ ([(c, s)].filter (risen m.last vif)).map (transOf vif) := by
  by_cases h : risen m.last vif (c, s)
  · rw [List.filter_cons_of_pos h]
    exact if_pos h
  · rw [List.filter_cons_of_neg h]
    exact (if_neg h).trans (List.append_nil published).symm

/-- **An edge publishes the lines that have risen since the edge before.** -/
theorem published_step (m : Monitor) (vif : DmaLines) :
    (m.step vif).published =
      m.published ++ (lines.filter (risen m.last vif)).map (transOf vif) := by
  have hchannel : ∀ (published : List DmaTrans) (c : Fin 8),
      report vif c false vif.dmaInt m.prevInt (report vif c true vif.dmaAck m.prevAck
          (report vif c false vif.dmaReq m.prevReq published)) =
        published ++ ([(c, .req), (c, .ack), (c, .int)].filter (risen m.last vif)).map
          (transOf vif) := by
    intro published c
    have hreq : report vif c false vif.dmaReq m.prevReq published = _ :=
      report_eq vif m c .req published
    have hack : ∀ l, report vif c true vif.dmaAck m.prevAck l = _ := report_eq vif m c .ack
    have hint : ∀ l, report vif c false vif.dmaInt m.prevInt l = _ := report_eq vif m c .int
    rw [hreq, hack, hint, List.append_assoc, List.append_assoc, ← List.map_append,
      ← List.map_append, ← List.filter_append, ← List.filter_append]
    rfl
  have hall := run_flatMap (f := id) hchannel m.published (List.finRange 8)
  rw [lines, List.filter_flatMap, List.map_flatMap]
  exact hall

/-- The event of an entry of `changes`. -/
def eventOf (e : Nat × Fin 8 × Signal) : Event := ⟨e.1, e.2.1, e.2.2⟩

theorem eventOf_injective : Function.Injective eventOf := by
  rintro ⟨edge, channel, signal⟩ ⟨edge', channel', signal'⟩ h
  cases h
  rfl

theorem mem_events {first : DmaLines} {samples : List DmaLines} {e : Event} :
    e ∈ (changes lines risen 0 first samples).map eventOf ↔ e.Occurs first samples := by
  obtain ⟨edge, channel, signal⟩ := e
  have hmem : eventOf (edge, channel, signal) ∈ (changes lines risen 0 first samples).map eventOf ↔
      (edge, channel, signal) ∈ changes lines risen 0 first samples :=
    List.mem_map_of_injective eventOf_injective
  rw [eventOf] at hmem
  rw [hmem, mem_changes]
  constructor
  · rintro ⟨-, n, hn, prev, cur, hprev, hcur, hrisen⟩
    obtain rfl : edge = n := by omega
    exact ⟨prev, cur, hprev, hcur, Logic.rose_iff.mp hrisen⟩
  · rintro ⟨prev, cur, hprev, hcur, hrisen⟩
    exact ⟨mem_lines _, edge, (Nat.zero_add edge).symm, prev, cur, hprev, hcur,
      Logic.rose_iff.mpr hrisen⟩

/-- **Each line that rises is published once, in order, with its channel and the sample.** -/
theorem publishes_events (first : DmaLines) (samples : List DmaLines) :
    PublishesEvents first samples (run step (start first) samples).published := by
  have hlast : ∀ (m : Monitor) vif, (m.step vif).last = vif := fun _ _ => rfl
  obtain ⟨entries, hentries, hlogged⟩ := run_changes hlast published_step (start first) samples 0
  refine ⟨(changes lines risen 0 first samples).map eventOf, ?_, fun _ => mem_events, ?_⟩
  · rw [List.pairwise_map]
    refine (pairwise_changes pairwise_lines).imp fun {e e'} h => ?_
    rcases Prod.lex_def.mp h with h | ⟨hedge, h⟩
    · exact .inl h
    · exact .inr ⟨hedge, Prod.lex_def.mp h⟩
  · rw [hentries, List.forall₂_map_left_iff]
    refine hlogged.imp ?_
    rintro e tr ⟨n, cur, hn, hcur, rfl⟩
    obtain rfl : e.1 = n := by omega
    exact ⟨cur, hcur, rfl⟩

end Monitor

end Testbench.Dma
