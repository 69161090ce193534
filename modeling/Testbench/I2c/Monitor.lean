import Testbench.I2c.Driver

/-!
`i2c_monitor` (`mpsoc/uvc/i2c/i2c_monitor.sv`).

The monitor waits for edges (`I2cMonitor.step`). Between an address and a STOP two threads
wait at once, one that takes the next byte and one for the STOP; whichever ends first ends the
other. As the lines never change together, the monitor reads events (`step_eq_run`), and what
it holds after them is a function of their transfer log (`monitorFor`): the clock of a STOP is
the first of a byte that is dropped.
-/

namespace Testbench.I2c

open Testbench.Lib

def posedge (prev next : Bool) : Bool := !prev && next

def negedge (prev next : Bool) : Bool := prev && !next

/-- Where `mon_sample_byte` and `mon_sample_ack`, run one after the other, wait. -/
inductive ByteThread where
  | sampleByte (i : Nat) (b : BitVec 8)
  | ackLow (b : BitVec 8)
  | ackHigh (b : BitVec 8)

namespace ByteThread

/-- Before bit 7. -/
def first : ByteThread := .sampleByte 7 0

/-- The thread at a change of the signals: it goes on, or ends with a byte. -/
def step (prev next : I2cVif) : ByteThread → ByteThread ⊕ BitVec 8
  | .sampleByte i b =>
      if posedge prev.scl next.scl then
        let b := setBit b i next.sda
        .inl (if i = 0 then .ackLow b else .sampleByte (i - 1) b)
      else .inl (.sampleByte i b)
  | .ackLow b => .inl (if negedge prev.scl next.scl then .ackHigh b else .ackLow b)
  | .ackHigh b => if posedge prev.scl next.scl then .inr b else .inl (.ackHigh b)

end ByteThread

/-- Where `run_phase` waits, with its variables. -/
inductive MonitorPosition where
  | waitStart
  | address (thread : ByteThread)
  | data (addr : BitVec 7) (rnw : Bool) (data : List (BitVec 8)) (thread : ByteThread)

/-- `run_phase` and what went to `mon_analysis_port`. -/
structure I2cMonitor where
  position : MonitorPosition
  published : List I2cTrans

namespace I2cMonitor

def idle : I2cMonitor := ⟨.waitStart, []⟩

/-- `run_phase` at a change of the signals. -/
def step (m : I2cMonitor) (prev next : I2cVif) : I2cMonitor :=
  match m.position with
  | .waitStart =>
      if negedge prev.sda next.sda && next.scl then { m with position := .address .first } else m
  | .address thread =>
      match thread.step prev next with
      | .inl thread => { m with position := .address thread }
      | .inr byte =>
          { m with position := .data (byte.extractLsb' 1 7) (byte.getLsbD 0) [] .first }
  | .data addr rnw data thread =>
      match thread.step prev next with
      | .inr byte => { m with position := .data addr rnw (data ++ [byte]) .first }
      | .inl thread =>
          -- the other thread, in `mon_wait_stop`
          if posedge prev.sda next.sda && next.scl then
            { position := .waitStart
              published := m.published ++ [⟨next.scl, next.sda, next.icIntr, addr, rnw, data⟩] }
          else { m with position := .data addr rnw data thread }

end I2cMonitor

/-- The monitor after a history. -/
def monitorOf : Point → List Point → I2cMonitor
  | _, [] => .idle
  | level, prev :: past => (monitorOf prev past).step prev.vif level.vif

def Wave.monitor (w : Wave) : I2cMonitor := monitorOf w.level w.past

/-! ### Reading events -/

/-- The thread at an event. -/
def ByteThread.on : ByteThread → LineEvent Point → ByteThread ⊕ BitVec 8
  | .sampleByte i b, .rise p =>
      let b := setBit b i p.vif.sda
      .inl (if i = 0 then .ackLow b else .sampleByte (i - 1) b)
  | .ackLow b, .fall => .inl (.ackHigh b)
  | .ackHigh b, .rise _ => .inr b
  | thread, _ => .inl thread

/-- What the monitor waits for, by the event there is. -/
structure Waits (prev next : I2cVif) (rise fall start stop : Bool) : Prop where
  rise : posedge prev.scl next.scl = rise
  fall : negedge prev.scl next.scl = fall
  start : (negedge prev.sda next.sda && next.scl) = start
  stop : (posedge prev.sda next.sda && next.scl) = stop

/-- Where one line changes at a time, there is one event at most. -/
theorem edge_cases {prev next : Point}
    (h : (seen next).scl = (seen prev).scl ∨ (seen next).sda = (seen prev).sda) :
    (lineEdge seen prev next = [] ∧ Waits prev.vif next.vif false false false false) ∨
      (lineEdge seen prev next = [.rise next] ∧ Waits prev.vif next.vif true false false false) ∨
      (lineEdge seen prev next = [.fall] ∧ Waits prev.vif next.vif false true false false) ∨
      (lineEdge seen prev next = [.start next] ∧ Waits prev.vif next.vif false false true false) ∨
      (lineEdge seen prev next = [.stop next] ∧ Waits prev.vif next.vif false false false true) := by
  cases hprev : prev.scl with
  | false =>
    cases hnext : next.scl with
    | false =>
      exact .inl ⟨lineEdge_low hprev hnext, by constructor <;>
        simp [Point.vif, posedge, negedge, hprev, hnext]⟩
    | true =>
      have hsda : next.sda = prev.sda := h.resolve_left (by simp [view, hprev, hnext])
      exact .inr (.inl ⟨lineEdge_rise hprev hnext, by constructor <;>
        simp [Point.vif, posedge, negedge, hprev, hnext, hsda]⟩)
  | true =>
    cases hnext : next.scl with
    | false =>
      exact .inr (.inr (.inl ⟨lineEdge_fall hprev hnext, by constructor <;>
        simp [Point.vif, posedge, negedge, hprev, hnext]⟩))
    | true =>
      cases hsda : prev.sda <;> cases hsda' : next.sda
      case false.true =>
        refine .inr (.inr (.inr (.inr ⟨?_, ?_⟩)))
        · rw [lineEdge_stop hprev hnext hsda]
          exact if_pos hsda'
        · constructor <;> simp [Point.vif, posedge, negedge, hprev, hnext, hsda, hsda']
      case true.false =>
        refine .inr (.inr (.inr (.inl ⟨?_, ?_⟩)))
        · rw [lineEdge_start hprev hnext hsda']
          exact if_pos hsda
        · constructor <;> simp [Point.vif, posedge, negedge, hprev, hnext, hsda, hsda']
      all_goals
        refine .inl ⟨lineEdge_same ?_, ?_⟩
        · exact congrArg₂ Lines.mk (hnext.trans hprev.symm) (hsda'.trans hsda.symm)
        · constructor <;> simp [Point.vif, posedge, negedge, hprev, hnext, hsda, hsda']

namespace I2cMonitor

/-- The monitor at an event. -/
def on (m : I2cMonitor) (e : LineEvent Point) : I2cMonitor :=
  match m.position, e with
  | .waitStart, .start _ => { m with position := .address .first }
  | .waitStart, _ => m
  | .address thread, e =>
      match thread.on e with
      | .inl thread => { m with position := .address thread }
      | .inr byte =>
          { m with position := .data (byte.extractLsb' 1 7) (byte.getLsbD 0) [] .first }
  | .data addr rnw data _, .stop p =>
      { position := .waitStart
        published := m.published ++ [⟨p.vif.scl, p.vif.sda, p.vif.icIntr, addr, rnw, data⟩] }
  | .data addr rnw data thread, e =>
      match thread.on e with
      | .inl thread => { m with position := .data addr rnw data thread }
      | .inr byte => { m with position := .data addr rnw (data ++ [byte]) .first }

/-- Where one line changes at a time, a step is the event it makes, if any. -/
theorem step_eq_run (m : I2cMonitor) (prev next : Point)
    (h : (seen next).scl = (seen prev).scl ∨ (seen next).sda = (seen prev).sda) :
    m.step prev.vif next.vif = run on m (lineEdge seen prev next) := by
  rcases edge_cases h with ⟨hedge, hw⟩ | ⟨hedge, hw⟩ | ⟨hedge, hw⟩ | ⟨hedge, hw⟩ | ⟨hedge, hw⟩
  all_goals
    rw [hedge]
    cases m with | mk position published =>
    cases position with
    | waitStart => simp [step, on, hw.start]
    | address thread =>
      cases thread <;> simp [step, on, ByteThread.step, ByteThread.on, hw.rise, hw.fall]
    | data addr rnw data thread =>
      cases thread <;> simp [step, on, ByteThread.step, ByteThread.on, hw.rise, hw.fall, hw.stop]

theorem monitorOf_eq_run (level : Point) (past : List Point) (h : OneLine seen level past) :
    monitorOf level past = run on idle (lineEvents seen level past) := by
  induction past generalizing level with
  | nil => rfl
  | cons prev past ih =>
    rw [monitorOf, ih prev h.1, step_eq_run _ _ _ h.2, lineEvents, run_append]

end I2cMonitor

/-- **The monitor reads events.** -/
theorem Wave.monitor_eq_run (w : Wave) :
    w.monitor = run I2cMonitor.on .idle (w.events seen) :=
  I2cMonitor.monitorOf_eq_run w.level w.past w.oneLine

/-! ### The monitor and the transfers -/

/-- The byte of some clocks, bit 7 first, with 0 for what is missing. -/
def byteOf (ps : List Point) : BitVec 8 := (readBits 8 0#8 (ps.map Point.sda)).1

/-- The byte of the address, which is the first. -/
def headByte (octets : List (Octet Point)) : BitVec 8 :=
  octets.head?.elim 0 fun o => byteOf o.bits

/-- **The transaction of a transfer**: the address byte, the bytes after it, and the signals at
the STOP. -/
def decode (t : Transfer Point) : I2cTrans where
  scl := t.stop.vif.scl
  sda := t.stop.vif.sda
  icIntr := t.stop.vif.icIntr
  addr := (headByte t.octets).extractLsb' 1 7
  rnw := (headByte t.octets).getLsbD 0
  data := t.octets.tail.map fun o => byteOf o.bits

/-- Where the thread waits after these clocks of its byte. -/
def threadFor (scl : Bool) (rest : List Point) : ByteThread :=
  if rest.length < 8 then .sampleByte (7 - rest.length) (byteOf rest)
  else if scl then .ackLow (byteOf rest)
  else .ackHigh (byteOf rest)

/-- Where the monitor waits in a frame. -/
def positionFor (scl : Bool) : Option (Frame Point) → MonitorPosition
  | none => .waitStart
  | some f =>
      if f.octets = [] then .address (threadFor scl f.rest)
      else .data ((headByte f.octets).extractLsb' 1 7) ((headByte f.octets).getLsbD 0)
        (f.octets.tail.map fun o => byteOf o.bits) (threadFor scl f.rest)

/-- The monitor after events with this log. -/
def monitorFor (scl : Bool) (log : TransferLog Point) : I2cMonitor :=
  ⟨positionFor scl log.frame?, log.transfers.map decode⟩

section Simulation

variable {log : TransferLog Point} {rest : List Point} {p : Point}

theorem threadFor_fall : (threadFor true rest).on .fall = .inl (threadFor false rest) := by
  unfold threadFor
  split_ifs <;> first | rfl | contradiction

theorem threadFor_rise (p : Point) : (threadFor false rest).on (.rise p) =
    if rest.length < 8 then .inl (threadFor true (rest ++ [p])) else .inr (byteOf rest) := by
  by_cases hlt : rest.length < 8
  · have hbyte : setBit (byteOf rest) (7 - rest.length) p.sda = byteOf (rest ++ [p]) := by
      have hlength : (rest.map Point.sda).length < 8 := by simpa
      rw [byteOf, byteOf, List.map_append, List.map_singleton, readBits_concat _ _ hlength,
        List.length_map]
    rw [if_pos hlt, threadFor, if_pos hlt, ByteThread.on]
    dsimp only [Point.vif]
    rw [hbyte, threadFor, List.length_append, List.length_singleton]
    by_cases hlast : rest.length = 7
    · rw [if_pos (by omega), if_neg (by omega), if_pos rfl]
    · rw [if_neg (by omega), if_pos (by omega), Nat.sub_sub]
  · rw [if_neg hlt, threadFor, if_neg hlt, if_neg Bool.false_ne_true, ByteThread.on]

theorem on_start (h : log.frame? = none) :
    (monitorFor true log).on (.start p) = monitorFor true (log.on (.start p)) := by
  simp [monitorFor, h, positionFor, I2cMonitor.on, TransferLog.on, ByteThread.first, threadFor,
    byteOf, readBits_nil]

theorem on_fall : (monitorFor true log).on .fall = monitorFor false log := by
  cases hframe : log.frame? with
  | none => simp [monitorFor, hframe, positionFor, I2cMonitor.on]
  | some f =>
    by_cases hoctets : f.octets = []
    · simp [monitorFor, hframe, positionFor, hoctets, I2cMonitor.on, threadFor_fall]
    · simp [monitorFor, hframe, positionFor, hoctets, I2cMonitor.on, threadFor_fall]

theorem on_rise (p : Point) :
    (monitorFor false log).on (.rise p) = monitorFor true (log.on (.rise p)) := by
  have hfirst : ByteThread.first = threadFor true [] := rfl
  cases hframe : log.frame? with
  | none => simp [monitorFor, hframe, positionFor, I2cMonitor.on, TransferLog.on]
  | some f =>
    by_cases hlt : f.rest.length < 8
    · by_cases hoctets : f.octets = []
      · simp [monitorFor, hframe, positionFor, hoctets, I2cMonitor.on, TransferLog.on,
          threadFor_rise, hlt, Frame.push]
      · simp [monitorFor, hframe, positionFor, hoctets, I2cMonitor.on, TransferLog.on,
          threadFor_rise, hlt, Frame.push]
    · by_cases hoctets : f.octets = []
      · simp [monitorFor, hframe, positionFor, hoctets, I2cMonitor.on, TransferLog.on,
          threadFor_rise, hlt, Frame.push, headByte, hfirst]
      · obtain ⟨o, os, ho⟩ := List.exists_cons_of_ne_nil hoctets
        simp [monitorFor, hframe, positionFor, ho, I2cMonitor.on, TransferLog.on,
          threadFor_rise, hlt, Frame.push, headByte, hfirst]

theorem on_stop (h : ∀ f ∈ log.frame?, f.octets ≠ []) :
    (monitorFor true log).on (.stop p) = monitorFor true (log.on (.stop p)) := by
  cases hframe : log.frame? with
  | none => simp [monitorFor, hframe, positionFor, I2cMonitor.on, TransferLog.on]
  | some f =>
    have hoctets : f.octets ≠ [] := h f (by rw [hframe]; rfl)
    simp [monitorFor, hframe, positionFor, hoctets, I2cMonitor.on, TransferLog.on, decode]

theorem run_pulses_monitor (log : TransferLog Point) (ps : List Point) :
    run I2cMonitor.on (monitorFor false log) (ps.flatMap pulse) =
      monitorFor false (run TransferLog.on log (ps.flatMap pulse)) := by
  induction ps generalizing log with
  | nil => rfl
  | cons p ps ih =>
    have hpulse : run I2cMonitor.on (monitorFor false log) (pulse p) =
        monitorFor false (run TransferLog.on log (pulse p)) := by
      rw [pulse, run_cons, on_rise, run_cons, on_fall]
      rfl
    rw [List.flatMap_cons, run_append, hpulse, ih, ← run_append]

end Simulation

end Testbench.I2c
