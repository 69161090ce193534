import Testbench.Lib.TwoWire

/-!
`i2c_driver` (`mpsoc/uvc/i2c/i2c_driver.sv`) on an open-drain bus.

Either side pulls SDA low or releases it; SDA is high while both release it. The driver
bit-bangs its tasks one assignment at a time (`setScl`, `setSda`), and between two clock
edges a device moves its side of SDA as it likes while SCL is low. `Wave` is the history
of all this.

The tasks are summed up by the events they add to a history, whichever side's view of SDA
is taken (`view`): a packet is a start, octets, one more clock and a stop (`Packet`).
-/

namespace Testbench.I2c

open Testbench.Lib

/-- `i2c_trans`. -/
structure I2cTrans where
  scl : Bool
  sda : Bool
  icIntr : Bool
  addr : BitVec 7
  rnw : Bool
  data : List (BitVec 8)
  deriving DecidableEq

/-- The signals of `i2c_vif`. -/
structure I2cVif where
  scl : Bool
  sda : Bool
  icIntr : Bool

/-- The levels on the bus, with SDA as the driver and as the device leave it. -/
structure Point where
  scl : Bool
  master : Bool
  slave : Bool
  icIntr : Bool

def Point.sda (p : Point) : Bool := p.master && p.slave

def Point.vif (p : Point) : I2cVif := ⟨p.scl, p.sda, p.icIntr⟩

/-- The lines with some view of SDA. -/
def view (sda : Bool → Bool → Bool) (p : Point) : Lines := ⟨p.scl, sda p.master p.slave⟩

/-- The lines of the bus. -/
abbrev seen : Point → Lines := view (· && ·)

/-- The lines as the driver leaves them. -/
abbrev sent : Point → Lines := view fun master _ => master

/-- A history of the bus, with one change at a time. -/
structure Wave where
  level : Point
  past : List Point
  oneLine : OneLine seen level past

namespace Wave

/-- The next level. -/
def next (w : Wave) (p : Point)
    (h : p.scl = w.level.scl ∨ (seen p).sda = (seen w.level).sda) : Wave :=
  ⟨p, w.level :: w.past, ⟨w.oneLine, h⟩⟩

/-- What has happened so far. -/
def events (lines : Point → Lines) (w : Wave) : List (LineEvent Point) :=
  lineEvents lines w.level w.past

end Wave

/-- A device on the bus: the levels it gives SDA in a clock period, one after the other, and
its interrupt line. It leaves SDA alone while SCL is high. -/
structure Device where
  drive : Wave → List Bool
  intr : Wave → Bool
  quiet : ∀ w : Wave, w.level.scl = true → drive w = []

/-! ### Tasks -/

section Tasks

variable (dev : Device)

/-- `vif.scl = b`. -/
def setScl (b : Bool) (w : Wave) : Wave :=
  w.next { w.level with scl := b, icIntr := dev.intr w } (.inr rfl)

/-- `vif.sda = b`. -/
def setSda (b : Bool) (w : Wave) : Wave :=
  w.next { w.level with master := b, icIntr := dev.intr w } (.inl rfl)

/-- The device moves SDA. -/
def setSlave (w : Wave) (b : Bool) : Wave :=
  w.next { w.level with slave := b, icIntr := dev.intr w } (.inl rfl)

/-- A clock edge without a change on the bus. -/
def tick (w : Wave) : Wave :=
  w.next { w.level with icIntr := dev.intr w } (.inl rfl)

/-- `@(posedge vif.clk)`: the moves of the device, and the clock edge. -/
def clk (w : Wave) : Wave := tick dev (run (setSlave dev) w (dev.drive w))

def i2cStart (w : Wave) : Wave :=
  let w := setSda dev true w
  let w := setScl dev true w
  let w := clk dev w
  let w := setSda dev false w
  let w := clk dev w
  let w := setScl dev false w
  clk dev w

def i2cStop (w : Wave) : Wave :=
  let w := setScl dev false w
  let w := setSda dev false w
  let w := clk dev w
  let w := setScl dev true w
  let w := clk dev w
  let w := setSda dev true w
  clk dev w

/-- The first two of the three clocks of a bit, `b` on SDA. -/
def bitHigh (b : Bool) (w : Wave) : Wave :=
  let w := setScl dev false w
  let w := setSda dev b w
  let w := clk dev w
  let w := setScl dev true w
  clk dev w

/-- The third clock of a bit. -/
def bitLow (w : Wave) : Wave :=
  let w := setScl dev false w
  clk dev w

def i2cWriteBit (b : Bool) (w : Wave) : Wave := bitLow dev (bitHigh dev b w)

/-- `i2c_write_byte`, with its output `ack`. -/
def i2cWriteByte (d : BitVec 8) (w : Wave) : Bool × Wave :=
  let w := (bitsDown d 0 8).foldl (fun w b => i2cWriteBit dev b w) w
  let w := bitHigh dev true w
  let ack := !w.level.sda
  (ack, bitLow dev w)

/-- The loop of `i2c_read_byte` over the bits from `n - 1` down. -/
def readBitLoop : Nat → BitVec 8 → Wave → BitVec 8 × Wave
  | 0, tmp, w => (tmp, w)
  | n + 1, tmp, w =>
      let w := bitHigh dev true w
      readBitLoop n (setBit tmp n w.level.sda) (bitLow dev w)

/-- `i2c_read_byte`, with its output `d`. -/
def i2cReadByte (ack : Bool) (w : Wave) : BitVec 8 × Wave :=
  let (tmp, w) := readBitLoop dev 8 0 w
  (tmp, i2cWriteBit dev ack w)

/-- The loop of `driver_one_pkt` for a write. -/
def writeBytes : List (BitVec 8) → Wave → Wave
  | [], w => w
  | d :: rest, w =>
      let (ack, w) := i2cWriteByte dev d w
      if ack then w else writeBytes rest w

/-- The loop of `driver_one_pkt` for a read of `size` bytes. -/
def readBytes (size : Nat) (w : Wave) : Wave :=
  (List.range size).foldl (fun w i => (i2cReadByte dev (decide (i = size - 1)) w).2) w

/-- The part of `driver_one_pkt` between the address and the STOP. -/
def transferData (tr : I2cTrans) (ack : Bool) (w : Wave) : Wave :=
  if ack then w
  else if tr.rnw then readBytes dev tr.data.length w
  else writeBytes dev tr.data w

def driverOnePkt (tr : I2cTrans) (w : Wave) : Wave :=
  let w := i2cStart dev w
  let (ack, w) := i2cWriteByte dev (tr.addr ++ BitVec.ofBool tr.rnw) w
  let w := transferData dev tr ack w
  i2cStop dev w

/-- One turn of the loop of `main_phase`: without an item it waits for a clock. -/
def serve (w : Wave) : Option I2cTrans → Wave
  | none => clk dev w
  | some tr => driverOnePkt dev tr w

/-- `main_phase` up to some turn of its loop, with what `try_next_item` gave each time. The
clocks it waits before count as turns without an item. -/
def mainPhase (w : Wave) (items : List (Option I2cTrans)) : Wave :=
  run (serve dev) w (List.replicate 5 none ++ items)

end Tasks

/-- The bus after `reset_phase`. -/
def resetPhase (slave icIntr : Bool) : Wave := ⟨⟨true, true, slave, icIntr⟩, [], trivial⟩

/-! ### Clock edges -/

section Clock

variable {dev : Device} {w : Wave} {sda : Bool → Bool → Bool}

@[simp] theorem events_next {p : Point} (lines : Point → Lines)
    (h : p.scl = w.level.scl ∨ (seen p).sda = (seen w.level).sda) :
    (w.next p h).events lines = w.events lines ++ lineEdge lines w.level p := rfl

@[simp] theorem level_setScl (b : Bool) :
    (setScl dev b w).level = { w.level with scl := b, icIntr := dev.intr w } := rfl

@[simp] theorem level_setSda (b : Bool) :
    (setSda dev b w).level = { w.level with master := b, icIntr := dev.intr w } := rfl

@[simp] theorem scl_clk : (clk dev w).level.scl = w.level.scl := by
  change (run (setSlave dev) w (dev.drive w)).level.scl = w.level.scl
  refine run_const (f := fun w : Wave => w.level.scl) ?_ w
  exact fun _ _ _ => rfl

@[simp] theorem master_clk : (clk dev w).level.master = w.level.master := by
  change (run (setSlave dev) w (dev.drive w)).level.master = w.level.master
  refine run_const (f := fun w : Wave => w.level.master) ?_ w
  exact fun _ _ _ => rfl

/-- While SCL is high the device leaves SDA alone. -/
theorem clk_high (h : w.level.scl = true) : clk dev w = tick dev w := by
  rw [clk, dev.quiet w h, run_nil]

theorem events_tick : (tick dev w).events (view sda) = w.events (view sda) := by
  rw [tick, events_next, lineEdge_same, List.append_nil]
  rfl

theorem events_setSlave {b : Bool} (h : w.level.scl = false) :
    (setSlave dev w b).events (view sda) = w.events (view sda) := by
  rw [setSlave, events_next, lineEdge_low h h, List.append_nil]

/-- **Nothing happens on the lines at a clock edge**, whatever the device does to SDA. -/
@[simp] theorem events_clk : (clk dev w).events (view sda) = w.events (view sda) := by
  cases hscl : w.level.scl with
  | true => rw [clk_high hscl, events_tick]
  | false =>
    let kept (w' : Wave) : Prop :=
      w'.level.scl = false ∧ w'.events (view sda) = w.events (view sda)
    have hmoves : kept (run (setSlave dev) w (dev.drive w)) :=
      run_invariant (fun w' _ h => ⟨h.1, (events_setSlave h.1).trans h.2⟩) ⟨hscl, rfl⟩ _
    rw [clk, events_tick]
    exact hmoves.2

theorem events_setScl_rise (h : w.level.scl = false) :
    (setScl dev true w).events (view sda) =
      w.events (view sda) ++ [.rise (setScl dev true w).level] := by
  rw [setScl, events_next, lineEdge_rise h rfl]
  rfl

theorem events_setScl_fall (h : w.level.scl = true) :
    (setScl dev false w).events (view sda) = w.events (view sda) ++ [.fall] := by
  rw [setScl, events_next, lineEdge_fall h rfl]

theorem events_setScl_same {b : Bool} (h : w.level.scl = b) :
    (setScl dev b w).events (view sda) = w.events (view sda) := by
  rw [setScl, events_next, lineEdge_same (by simp [view, h]), List.append_nil]

theorem events_setSda_low {b : Bool} (h : w.level.scl = false) :
    (setSda dev b w).events (view sda) = w.events (view sda) := by
  rw [setSda, events_next, lineEdge_low h h, List.append_nil]

theorem events_setSda_same {b : Bool} (h : w.level.master = b) :
    (setSda dev b w).events (view sda) = w.events (view sda) := by
  rw [setSda, events_next, lineEdge_same (by simp [view, h]), List.append_nil]

theorem events_setSda_start (hscl : w.level.scl = true) (hmaster : w.level.master = true)
    (hlow : ∀ slave, sda false slave = false) :
    (setSda dev false w).events (view sda) = w.events (view sda) ++
      if sda true w.level.slave then [.start (setSda dev false w).level] else [] := by
  have hedge : lineEdge (view sda) w.level (setSda dev false w).level =
      if (view sda w.level).sda then [.start (setSda dev false w).level] else [] :=
    lineEdge_start hscl hscl (hlow _)
  rw [setSda, events_next]
  refine congrArg _ (hedge.trans ?_)
  simp only [view, hmaster]
  rfl

theorem events_setSda_stop (hscl : w.level.scl = true) (hmaster : w.level.master = false)
    (hlow : ∀ slave, sda false slave = false) :
    (setSda dev true w).events (view sda) = w.events (view sda) ++
      if sda true w.level.slave then [.stop (setSda dev true w).level] else [] := by
  have hsda : (view sda w.level).sda = false := by simp only [view, hmaster, hlow]
  have hedge : lineEdge (view sda) w.level (setSda dev true w).level =
      if sda true w.level.slave then [.stop (setSda dev true w).level] else [] :=
    lineEdge_stop hscl hscl hsda
  rw [setSda, events_next]
  exact congrArg _ hedge

end Clock

/-! ### What a task adds -/

/-- From SCL low to SCL low, with these clocks in between. -/
def Clocks (w w' : Wave) (ps : List Point) : Prop :=
  w'.level.scl = false ∧ ∀ sda : Bool → Bool → Bool,
    w'.events (view sda) = w.events (view sda) ++ ps.flatMap pulse

section Tasks

variable (dev : Device) {w w' w'' : Wave}

theorem Clocks.refl (h : w.level.scl = false) : Clocks w w [] := ⟨h, fun _ => by simp⟩

theorem Clocks.trans {ps qs : List Point} (h : Clocks w w' ps) (h' : Clocks w' w'' qs) :
    Clocks w w'' (ps ++ qs) := by
  refine ⟨h'.1, fun sda => ?_⟩
  rw [h'.2, h.2, List.flatMap_append, List.append_assoc]

/-- A bit is one clock. What is sampled is the level at its rising edge. -/
theorem clocks_bit (b : Bool) (h : w.level.scl = false) :
    ∃ p : Point, p.master = b ∧ (bitHigh dev b w).level.sda = p.sda ∧
      Clocks w (bitLow dev (bitHigh dev b w)) [p] := by
  let high := setScl dev true (clk dev (setSda dev b (setScl dev false w)))
  have hslave : (bitHigh dev b w).level.slave = high.level.slave := by
    rw [bitHigh, clk_high rfl]
    rfl
  have hmaster : (bitHigh dev b w).level.master = b := by simp [bitHigh]
  refine ⟨high.level, by simp [high], ?_, by simp [bitLow], fun sda => ?_⟩
  · simp [Point.sda, hslave, hmaster, high]
  · rw [bitLow, events_clk, events_setScl_fall (by simp [bitHigh]), bitHigh, events_clk,
      events_setScl_rise (by simp), events_clk, events_setSda_low rfl, events_setScl_same h]
    simp [pulse, high]

theorem clocks_writeBits (bits : List Bool) (h : w.level.scl = false) :
    ∃ ps : List Point, ps.map Point.master = bits ∧
      Clocks w (bits.foldl (fun w b => i2cWriteBit dev b w) w) ps := by
  induction bits generalizing w with
  | nil => exact ⟨[], rfl, .refl h⟩
  | cons b bits ih =>
    obtain ⟨p, hp, -, hbit⟩ := clocks_bit dev b h
    obtain ⟨ps, hps, hbits⟩ := ih hbit.1
    exact ⟨p :: ps, by rw [List.map_cons, hp, hps], hbit.trans hbits⟩

theorem clocks_readBits (n : Nat) (tmp : BitVec 8) (h : w.level.scl = false) :
    ∃ ps : List Point, ps.map Point.master = List.replicate n true ∧
      (readBitLoop dev n tmp w).1 = (readBits n tmp (ps.map Point.sda)).1 ∧
      Clocks w (readBitLoop dev n tmp w).2 ps := by
  induction n generalizing w tmp with
  | zero => exact ⟨[], rfl, rfl, .refl h⟩
  | succ n ih =>
    obtain ⟨p, hp, hsda, hbit⟩ := clocks_bit dev true h
    obtain ⟨ps, hps, htmp, hbits⟩ := ih (setBit tmp n (bitHigh dev true w).level.sda) hbit.1
    refine ⟨p :: ps, by rw [List.map_cons, hp, hps, List.replicate_succ], ?_, hbit.trans hbits⟩
    rw [readBitLoop, htmp, hsda, List.map_cons, readBits]

/-- The driver sends this byte and releases SDA for the answer. -/
structure WritesByte (d : BitVec 8) (o : Octet Point) : Prop where
  bits : o.bits.map Point.master = bitsDown d 0 8
  ninth : o.ninth.master = true

/-- The driver releases SDA for a byte and answers it. -/
structure ReadsByte (ack : Bool) (o : Octet Point) : Prop where
  bits : o.bits.map Point.master = List.replicate 8 true
  ninth : o.ninth.master = ack

theorem WritesByte.length {d : BitVec 8} {o : Octet Point} (h : WritesByte d o) :
    o.bits.length = 8 := by
  rw [← List.length_map (f := Point.master), h.bits, length_bitsDown]

theorem ReadsByte.length {ack : Bool} {o : Octet Point} (h : ReadsByte ack o) :
    o.bits.length = 8 := by
  rw [← List.length_map (f := Point.master), h.bits, List.length_replicate]

/-- **`i2c_write_byte` is an octet**, and its output is the answer turned over. -/
theorem clocks_writeByte (d : BitVec 8) (h : w.level.scl = false) :
    ∃ o : Octet Point, WritesByte d o ∧ (i2cWriteByte dev d w).1 = !o.ninth.sda ∧
      Clocks w (i2cWriteByte dev d w).2 o.clocks := by
  obtain ⟨ps, hps, hbits⟩ := clocks_writeBits dev (bitsDown d 0 8) h
  obtain ⟨p, hp, hsda, hbit⟩ := clocks_bit dev true hbits.1
  exact ⟨⟨ps, p⟩, ⟨hps, hp⟩, congrArg not hsda, hbits.trans hbit⟩

/-- **`i2c_read_byte` is an octet**, and its output the byte on SDA. -/
theorem clocks_readByte (ack : Bool) (h : w.level.scl = false) :
    ∃ o : Octet Point, ReadsByte ack o ∧
      (i2cReadByte dev ack w).1 = (readBits 8 0#8 (o.bits.map Point.sda)).1 ∧
      Clocks w (i2cReadByte dev ack w).2 o.clocks := by
  obtain ⟨ps, hps, htmp, hbits⟩ := clocks_readBits dev 8 0#8 h
  obtain ⟨p, hp, -, hbit⟩ := clocks_bit dev ack hbits.1
  exact ⟨⟨ps, p⟩, ⟨hps, hp⟩, htmp, hbits.trans hbit⟩

end Tasks

/-! ### Packets -/

/-- The octets of a write of these bytes: all of them, or up to the first whose answer is not
`go`. -/
inductive WriteOctets (go : Bool) : List (BitVec 8) → List (Octet Point) → Prop
  | nil : WriteOctets go [] []
  | break {d : BitVec 8} {data : List (BitVec 8)} {o : Octet Point} (ho : WritesByte d o)
      (hgo : o.ninth.sda ≠ go) : WriteOctets go (d :: data) [o]
  | cons {d : BitVec 8} {data : List (BitVec 8)} {o : Octet Point} {os : List (Octet Point)}
      (ho : WritesByte d o) (hgo : o.ninth.sda = go) (hrest : WriteOctets go data os) :
      WriteOctets go (d :: data) (o :: os)

/-- The octets of a read of `size` bytes: the driver answers the last with a 1. -/
def ReadOctets (size : Nat) (os : List (Octet Point)) : Prop :=
  List.Forall₂ (fun i o => ReadsByte (decide (i = size - 1)) o) (List.range size) os

/-- The octets of a packet: the address, and the data if it is answered with `go`. -/
inductive PacketOctets (go : Bool) (tr : I2cTrans) : List (Octet Point) → Prop
  | refused {o : Octet Point} (ho : WritesByte (tr.addr ++ BitVec.ofBool tr.rnw) o)
      (hgo : o.ninth.sda ≠ go) : PacketOctets go tr [o]
  | read {o : Octet Point} {os : List (Octet Point)}
      (ho : WritesByte (tr.addr ++ BitVec.ofBool tr.rnw) o) (hgo : o.ninth.sda = go)
      (hrnw : tr.rnw = true) (hos : ReadOctets tr.data.length os) : PacketOctets go tr (o :: os)
  | write {o : Octet Point} {os : List (Octet Point)}
      (ho : WritesByte (tr.addr ++ BitVec.ofBool tr.rnw) o) (hgo : o.ninth.sda = go)
      (hrnw : tr.rnw = false) (hos : WriteOctets go tr.data os) : PacketOctets go tr (o :: os)

/-- What a packet is on the bus. -/
structure Packet where
  start : Point
  octets : List (Octet Point)
  last : Point
  stop : Point

/-- The events of a packet under a view of SDA: START and STOP are there if SDA is high when
the driver releases it. -/
def Packet.events (sda : Bool → Bool → Bool) (pk : Packet) : List (LineEvent Point) :=
  (if sda true pk.start.slave then [.start pk.start] else []) ++ [.fall] ++
    (pk.octets.flatMap Octet.clocks).flatMap pulse ++ [.rise pk.last] ++
    (if sda true pk.stop.slave then [.stop pk.stop] else [])

/-! ### The transfer of a packet -/

section Transfer

variable {go : Bool} {tr : I2cTrans} {os : List (Octet Point)}

theorem WriteOctets.length {data : List (BitVec 8)} (h : WriteOctets go data os) :
    ∀ o ∈ os, o.bits.length = 8 := by
  induction h with
  | nil => simp
  | «break» ho _ => simpa using ho.length
  | cons ho _ _ ih => simpa using ⟨ho.length, ih⟩

theorem ReadOctets.length {size : Nat} (h : ReadOctets size os) :
    ∀ o ∈ os, o.bits.length = 8 := by
  unfold ReadOctets at h
  generalize List.range size = indices at h
  induction h with
  | nil => simp
  | cons ho _ ih => simpa using ⟨ho.length, ih⟩

theorem PacketOctets.length (h : PacketOctets go tr os) : ∀ o ∈ os, o.bits.length = 8 := by
  cases h with
  | refused ho _ => simpa using ho.length
  | read ho _ _ hos => simpa using ⟨ho.length, hos.length⟩
  | write ho _ _ hos => simpa using ⟨ho.length, hos.length⟩

/-- The transfer of a packet. The clock of the STOP is left over. -/
def Packet.transfer (pk : Packet) : Transfer Point where
  start := pk.start
  octets := pk.octets
  rest := [pk.last]
  stop := pk.stop

/-- **A packet whose START and STOP are visible is a transfer.** -/
theorem log_packet {pk : Packet} {sda : Bool → Bool → Bool} (hos : PacketOctets go tr pk.octets)
    (hstart : sda true pk.start.slave = true) (hstop : sda true pk.stop.slave = true)
    (log : TransferLog Point) : run TransferLog.on log (pk.events sda) =
      ⟨none, log.transfers ++ [pk.transfer]⟩ := by
  have hframe := foldl_push_octets (f := ⟨pk.start, [], []⟩) rfl hos.length
  rw [Packet.events, if_pos hstart, if_pos hstop, run_append, run_append, run_append, run_append,
    run_pulses]
  simp [TransferLog.on, hframe, Frame.push, Packet.transfer]

end Transfer

section Packets

variable (dev : Device) {w : Wave}

/-- The bus between packets: the driver has released both lines. -/
structure Idle (w : Wave) : Prop where
  scl : w.level.scl = true
  master : w.level.master = true

theorem clocks_writeBytes (data : List (BitVec 8)) (h : w.level.scl = false) :
    ∃ os : List (Octet Point), WriteOctets true data os ∧
      Clocks w (writeBytes dev data w) (os.flatMap Octet.clocks) := by
  induction data generalizing w with
  | nil => exact ⟨[], .nil, .refl h⟩
  | cons d data ih =>
    obtain ⟨o, ho, hack, hbyte⟩ := clocks_writeByte dev d h
    rw [writeBytes]
    cases hsda : o.ninth.sda with
    | false =>
      rw [hsda] at hack
      refine ⟨[o], .break ho (by simp [hsda]), ?_⟩
      simpa [hack] using hbyte
    | true =>
      rw [hsda] at hack
      obtain ⟨os, hos, hrest⟩ := ih hbyte.1
      refine ⟨o :: os, .cons ho hsda hos, ?_⟩
      simpa [hack] using hbyte.trans hrest

theorem clocks_readBytes (size : Nat) (h : w.level.scl = false) :
    ∃ os : List (Octet Point), ReadOctets size os ∧
      Clocks w (readBytes dev size w) (os.flatMap Octet.clocks) := by
  unfold ReadOctets readBytes
  generalize List.range size = indices
  induction indices generalizing w with
  | nil => exact ⟨[], .nil, .refl h⟩
  | cons i indices ih =>
    obtain ⟨o, ho, -, hbyte⟩ := clocks_readByte dev (decide (i = size - 1)) h
    obtain ⟨os, hos, hrest⟩ := ih hbyte.1
    exact ⟨o :: os, .cons ho hos, hbyte.trans hrest⟩

/-- `i2c_start` on an idle bus. -/
theorem events_i2cStart (h : Idle w) : (i2cStart dev w).level.scl = false ∧
    ∃ p : Point, p.slave = w.level.slave ∧
      ∀ sda : Bool → Bool → Bool, (∀ slave, sda false slave = false) →
        (i2cStart dev w).events (view sda) = w.events (view sda) ++
          (if sda true p.slave then [.start p] else []) ++ [.fall] := by
  let before := clk dev (setScl dev true (setSda dev true w))
  have hscl : before.level.scl = true := by simp [before]
  have hslave : before.level.slave = w.level.slave :=
    congrArg (fun w => w.level.slave) (clk_high rfl)
  refine ⟨by simp [i2cStart], (setSda dev false before).level, hslave, fun sda hlow => ?_⟩
  have hevents : before.events (view sda) = w.events (view sda) := by
    rw [events_clk, events_setScl_same (w := setSda dev true w) h.scl,
      events_setSda_same h.master]
  rw [i2cStart, events_clk, events_setScl_fall (by simp), events_clk,
    events_setSda_start hscl (by simp [before]) hlow, hevents]
  rfl

/-- `i2c_stop` after a clock. -/
theorem events_i2cStop (h : w.level.scl = false) : Idle (i2cStop dev w) ∧
    ∃ p q : Point, q.slave = (i2cStop dev w).level.slave ∧
      ∀ sda : Bool → Bool → Bool, (∀ slave, sda false slave = false) →
        (i2cStop dev w).events (view sda) = w.events (view sda) ++ [.rise p] ++
          (if sda true q.slave then [.stop q] else []) := by
  let low := clk dev (setSda dev false (setScl dev false w))
  let high := clk dev (setScl dev true low)
  have hscl : high.level.scl = true := by simp [high]
  have hslave : (i2cStop dev w).level.slave = high.level.slave :=
    congrArg (fun w => w.level.slave) (clk_high (w := setSda dev true high) hscl)
  refine ⟨⟨by simp [i2cStop], by simp [i2cStop]⟩, (setScl dev true low).level,
    (setSda dev true high).level, hslave.symm, fun sda hlow => ?_⟩
  have hevents : high.events (view sda) =
      w.events (view sda) ++ [.rise (setScl dev true low).level] := by
    rw [events_clk, events_setScl_rise (by simp [low]), events_clk, events_setSda_low rfl,
      events_setScl_same h]
  rw [i2cStop, events_clk, events_setSda_stop hscl (by simp [high, low]) hlow, hevents]
  rfl

/-- What follows the address, whose answer is the last of `o`. -/
theorem clocks_transferData {tr : I2cTrans} {o : Octet Point}
    (ho : WritesByte (tr.addr ++ BitVec.ofBool tr.rnw) o) (h : w.level.scl = false) :
    ∃ os : List (Octet Point), PacketOctets true tr (o :: os) ∧
      Clocks w (transferData dev tr (!o.ninth.sda) w) (os.flatMap Octet.clocks) := by
  unfold transferData
  cases hsda : o.ninth.sda with
  | false => exact ⟨[], .refused ho (by simp [hsda]), .refl h⟩
  | true =>
    cases hrnw : tr.rnw with
    | true =>
      obtain ⟨os, hos, hread⟩ := clocks_readBytes dev tr.data.length h
      exact ⟨os, .read ho hsda hrnw hos, hread⟩
    | false =>
      obtain ⟨os, hos, hwrite⟩ := clocks_writeBytes dev tr.data h
      exact ⟨os, .write ho hsda hrnw hos, hwrite⟩

/-- **What `driver_one_pkt` puts on the bus**, whatever the device does. It goes on where an
answer is high. -/
theorem packet_driverOnePkt (tr : I2cTrans) (h : Idle w) : Idle (driverOnePkt dev tr w) ∧
    ∃ pk : Packet, PacketOctets true tr pk.octets ∧ pk.start.slave = w.level.slave ∧
      pk.stop.slave = (driverOnePkt dev tr w).level.slave ∧
      ∀ sda : Bool → Bool → Bool, (∀ slave, sda false slave = false) →
        (driverOnePkt dev tr w).events (view sda) = w.events (view sda) ++ pk.events sda := by
  obtain ⟨hlow, start, hslave, hstart⟩ := events_i2cStart dev h
  obtain ⟨o, ho, hack, hbyte⟩ :=
    clocks_writeByte dev (tr.addr ++ BitVec.ofBool tr.rnw) hlow
  obtain ⟨os, hos, hdata⟩ := clocks_transferData dev ho hbyte.1
  rw [← hack] at hdata
  obtain ⟨hidle, last, stop, hslave', hstop⟩ := events_i2cStop dev hdata.1
  refine ⟨hidle, ⟨start, o :: os, last, stop⟩, hos, hslave, hslave', fun sda hlow => ?_⟩
  rw [driverOnePkt]
  dsimp only
  rw [hstop sda hlow, hdata.2, hbyte.2, hstart sda hlow]
  simp [Packet.events]

/-- The packets of some items, one after the other on the bus, which the device leaves at
`slave` before the first. -/
inductive Packets : Bool → List I2cTrans → List Packet → Prop
  | nil {slave : Bool} : Packets slave [] []
  | cons {tr : I2cTrans} {trs : List I2cTrans} {pk : Packet} {pks : List Packet}
      (octets : PacketOctets true tr pk.octets) (rest : Packets pk.stop.slave trs pks) :
      Packets pk.start.slave (tr :: trs) (pk :: pks)

theorem idle_clk (h : Idle w) : Idle (clk dev w) :=
  ⟨scl_clk.trans h.scl, master_clk.trans h.master⟩

/-- **What a run of the driver puts on the bus.** -/
theorem packets_run (items : List (Option I2cTrans)) (h : Idle w) :
    ∃ pks : List Packet, Packets w.level.slave items.reduceOption pks ∧
      ∀ sda : Bool → Bool → Bool, (∀ slave, sda false slave = false) →
        (run (serve dev) w items).events (view sda) =
          w.events (view sda) ++ pks.flatMap (Packet.events sda) := by
  induction items generalizing w with
  | nil => exact ⟨[], .nil, fun _ _ => by simp⟩
  | cons item items ih =>
    cases item with
    | none =>
      obtain ⟨pks, hpks, hevents⟩ := ih (idle_clk dev h)
      rw [clk_high h.scl] at hpks
      refine ⟨pks, hpks, fun sda hlow => ?_⟩
      rw [run_cons, serve, hevents sda hlow, events_clk]
    | some tr =>
      obtain ⟨hidle, pk, hoctets, hstart, hstop, hpkt⟩ := packet_driverOnePkt dev tr h
      obtain ⟨pks, hpks, hevents⟩ := ih hidle
      rw [← hstop] at hpks
      refine ⟨pk :: pks, ?_, fun sda hlow => ?_⟩
      · rw [← hstart]
        exact .cons hoctets hpks
      · rw [run_cons, serve, hevents sda hlow, hpkt sda hlow, List.flatMap_cons,
          List.append_assoc]

theorem idle_run (items : List (Option I2cTrans)) (h : Idle w) : Idle (run (serve dev) w items) :=
  run_invariant (fun w item h => by
    cases item with
    | none => exact idle_clk dev h
    | some tr => exact (packet_driverOnePkt dev tr h).1) h items

end Packets

theorem idle_resetPhase (slave icIntr : Bool) : Idle (resetPhase slave icIntr) := ⟨rfl, rfl⟩

theorem idle_mainPhase (dev : Device) (slave icIntr : Bool) (items : List (Option I2cTrans)) :
    Idle (mainPhase dev (resetPhase slave icIntr) items) :=
  idle_run dev _ (idle_resetPhase slave icIntr)

/-- What the driver has put on the bus since reset. -/
theorem packets_mainPhase (dev : Device) (slave icIntr : Bool) (items : List (Option I2cTrans)) :
    ∃ pks : List Packet, Packets slave items.reduceOption pks ∧
      ∀ sda : Bool → Bool → Bool, (∀ slave, sda false slave = false) →
        (mainPhase dev (resetPhase slave icIntr) items).events (view sda) =
          pks.flatMap (Packet.events sda) := by
  have hrun := packets_run dev (List.replicate 5 none ++ items)
    (idle_resetPhase slave icIntr)
  exact hrun

end Testbench.I2c
