import Testbench.Lib.Run
import Testbench.Lib.Bits

/-!
Two-wire serial lines: a clock and a data line that also frames the transfers.

A history of levels is read as a list of events (`events`): the edges of the clock, and the
changes of the data line while the clock is high, which start and stop a transfer. Nine
clocks make an octet (`Frame.push`), and the events between a start and a stop make a
`Transfer`. Whoever reads the lines edge by edge reads `events`, so two readers are compared
on lists of events.
-/

namespace Testbench.Lib

/-- The levels of the lines. -/
structure Lines where
  scl : Bool
  sda : Bool

/-- What happens on the lines, with the levels at that moment. -/
inductive LineEvent (π : Type*) where
  | start (p : π)
  | stop (p : π)
  | rise (p : π)
  | fall

variable {π : Type*} (lines : π → Lines)

/-- What happens between two levels. -/
def lineEdge (prev next : π) : List (LineEvent π) :=
  match (lines prev).scl, (lines next).scl with
  | false, true => [.rise next]
  | true, false => [.fall]
  | true, true =>
      match (lines prev).sda, (lines next).sda with
      | true, false => [.start next]
      | false, true => [.stop next]
      | _, _ => []
  | false, false => []

/-- The events of a history, given by its last level and those before it, latest first. -/
def lineEvents : π → List π → List (LineEvent π)
  | _, [] => []
  | level, prev :: past => lineEvents prev past ++ lineEdge lines prev level

/-- At no step do both lines change. -/
def OneLine : π → List π → Prop
  | _, [] => True
  | level, prev :: past =>
      OneLine prev past ∧
        ((lines level).scl = (lines prev).scl ∨ (lines level).sda = (lines prev).sda)

section Edges

variable {lines} {prev next : π}

theorem lineEdge_low (hprev : (lines prev).scl = false) (hnext : (lines next).scl = false) :
    lineEdge lines prev next = [] := by
  simp [lineEdge, hprev, hnext]

theorem lineEdge_same (h : lines next = lines prev) : lineEdge lines prev next = [] := by
  unfold lineEdge
  rw [h]
  cases (lines prev).scl <;> cases (lines prev).sda <;> rfl

theorem lineEdge_rise (hprev : (lines prev).scl = false) (hnext : (lines next).scl = true) :
    lineEdge lines prev next = [.rise next] := by
  simp [lineEdge, hprev, hnext]

theorem lineEdge_fall (hprev : (lines prev).scl = true) (hnext : (lines next).scl = false) :
    lineEdge lines prev next = [.fall] := by
  simp [lineEdge, hprev, hnext]

theorem lineEdge_start (hscl : (lines prev).scl = true) (hscl' : (lines next).scl = true)
    (hsda : (lines next).sda = false) :
    lineEdge lines prev next = if (lines prev).sda then [.start next] else [] := by
  unfold lineEdge
  rw [hscl, hscl', hsda]
  cases (lines prev).sda <;> rfl

theorem lineEdge_stop (hscl : (lines prev).scl = true) (hscl' : (lines next).scl = true)
    (hsda : (lines prev).sda = false) :
    lineEdge lines prev next = if (lines next).sda then [.stop next] else [] := by
  unfold lineEdge
  rw [hscl, hscl', hsda]
  cases (lines next).sda <;> rfl

end Edges

/-! ### Transfers -/

/-- Nine clocks: eight bits and the answer to them. -/
structure Octet (π : Type*) where
  bits : List π
  ninth : π

/-- What has been clocked since the start: whole octets, and the clocks of the next. -/
structure Frame (π : Type*) where
  start : π
  octets : List (Octet π)
  rest : List π

/-- A frame and the level that stopped it. -/
structure Transfer (π : Type*) extends Frame π where
  stop : π

/-- The transfer under way and those completed. -/
structure TransferLog (π : Type*) where
  frame? : Option (Frame π)
  transfers : List (Transfer π)

/-- One more clock. -/
def Frame.push (f : Frame π) (p : π) : Frame π :=
  if f.rest.length < 8 then { f with rest := f.rest ++ [p] }
  else { f with octets := f.octets ++ [⟨f.rest, p⟩], rest := [] }

def TransferLog.empty : TransferLog π := ⟨none, []⟩

/-- An event in the log. A start while a transfer is under way begins it anew. -/
def TransferLog.on (log : TransferLog π) : LineEvent π → TransferLog π
  | .start p => { log with frame? := some ⟨p, [], []⟩ }
  | .rise p => { log with frame? := log.frame?.map (·.push p) }
  | .fall => log
  | .stop p =>
      match log.frame? with
      | some f => ⟨none, log.transfers ++ [⟨f, p⟩]⟩
      | none => log

/-- The log of a list of events. -/
def transferLog (events : List (LineEvent π)) : TransferLog π :=
  run TransferLog.on .empty events

/-- A clock pulse. -/
def pulse (p : π) : List (LineEvent π) := [.rise p, .fall]

/-- The clock pulses of an octet. -/
def Octet.clocks (o : Octet π) : List π := o.bits ++ [o.ninth]

section Transfers

variable {log : TransferLog π} {f : Frame π}

theorem transferLog_append (events events' : List (LineEvent π)) :
    transferLog (events ++ events') = run TransferLog.on (transferLog events) events' :=
  run_append ..

/-- Pulses only push. -/
theorem run_pulses (log : TransferLog π) (ps : List π) :
    run TransferLog.on log (ps.flatMap pulse) =
      { log with frame? := log.frame?.map fun f => ps.foldl Frame.push f } := by
  induction ps generalizing log with
  | nil => simp
  | cons p ps ih =>
    rw [List.flatMap_cons, run_append, ih]
    simp [pulse, TransferLog.on, Function.comp_def]

theorem foldl_push_bits {bits : List π} (h : f.rest.length + bits.length ≤ 8) :
    bits.foldl Frame.push f = { f with rest := f.rest ++ bits } := by
  induction bits generalizing f with
  | nil => simp
  | cons p bits ih =>
    rw [List.length_cons] at h
    have hpush : f.push p = { f with rest := f.rest ++ [p] } := if_pos (by omega)
    rw [List.foldl_cons, hpush, ih (by simp; omega)]
    simp

/-- The clocks of an octet make an octet. -/
theorem foldl_push_octet {o : Octet π} (hrest : f.rest = []) (ho : o.bits.length = 8) :
    o.clocks.foldl Frame.push f = { f with octets := f.octets ++ [o] } := by
  have hbits : o.bits.foldl Frame.push f = { f with rest := f.rest ++ o.bits } :=
    foldl_push_bits (by simp [hrest, ho])
  rw [hrest, List.nil_append] at hbits
  rw [Octet.clocks, List.foldl_append, hbits, List.foldl_cons, List.foldl_nil, Frame.push,
    if_neg (by simp [ho]), hrest]

theorem foldl_push_octets {os : List (Octet π)} (hrest : f.rest = [])
    (hos : ∀ o ∈ os, o.bits.length = 8) :
    (os.flatMap Octet.clocks).foldl Frame.push f = { f with octets := f.octets ++ os } := by
  induction os generalizing f with
  | nil => simp
  | cons o os ih =>
    have hhead := foldl_push_octet hrest (hos o List.mem_cons_self)
    rw [List.flatMap_cons, List.foldl_append, hhead]
    have htail := ih (f := { f with octets := f.octets ++ [o] }) hrest fun o' ho' =>
      hos o' (List.mem_cons_of_mem _ ho')
    rw [htail, List.append_assoc, List.singleton_append]

/-- Octets stay. -/
theorem octets_ne_nil_foldl_push (h : f.octets ≠ []) (ps : List π) :
    (ps.foldl Frame.push f).octets ≠ [] := by
  induction ps generalizing f with
  | nil => exact h
  | cons p ps ih =>
    refine ih ?_
    unfold Frame.push
    split
    · exact h
    · simp

/-- Nine clocks complete an octet, wherever the frame was. -/
theorem octets_ne_nil_of_nine {ps : List π} (hne : ps ≠ []) (h : 9 ≤ f.rest.length + ps.length) :
    (ps.foldl Frame.push f).octets ≠ [] := by
  induction ps generalizing f with
  | nil => exact absurd rfl hne
  | cons p ps ih =>
    rw [List.length_cons] at h
    rw [List.foldl_cons]
    by_cases hlt : f.rest.length < 8
    · have hpush : f.push p = { f with rest := f.rest ++ [p] } := if_pos hlt
      rw [hpush]
      refine ih ?_ ?_
      · rintro rfl
        rw [List.length_nil] at h
        omega
      · rw [List.length_append, List.length_singleton]
        omega
    · refine octets_ne_nil_foldl_push ?_ ps
      rw [Frame.push, if_neg hlt]
      simp

end Transfers

end Testbench.Lib
