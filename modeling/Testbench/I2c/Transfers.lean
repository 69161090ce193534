import Testbench.I2c.Handshake
import Testbench.I2c.Monitor

/-!
The monitor on what the driver puts on the bus.

`monitor_mainPhase` follows the monitor through a run of the driver: at the end of each packet
it is where `monitorFor` says. It publishes the transfers that are seen on the bus, one for
each START..STOP (`published_iff_released` says more where the device leaves SDA alone when the
driver needs it: then these are the packets of the driver). A device that holds SDA low hides
a START or a STOP, or changes the address.
-/

namespace Testbench.I2c

open Testbench.Lib

section Packets

variable {go : Bool} {tr : I2cTrans} {trs : List I2cTrans} {pk : Packet} {pks : List Packet}
  {log : TransferLog Point} {slave : Bool}

theorem PacketOctets.ne_nil {os : List (Octet Point)} (h : PacketOctets go tr os) : os ≠ [] := by
  cases h <;> simp

/-- The first octet has nine clocks. -/
theorem PacketOctets.nine_le {os : List (Octet Point)} (h : PacketOctets go tr os) :
    9 ≤ (os.flatMap Octet.clocks).length := by
  obtain ⟨o, os, rfl⟩ := List.exists_cons_of_ne_nil h.ne_nil
  have ho := h.length o List.mem_cons_self
  rw [List.flatMap_cons, List.length_append, Octet.clocks, List.length_append, ho]
  exact Nat.le_add_right 9 _

/-- The clocks of a packet, from the START to before the STOP. -/
def Packet.clocks (pk : Packet) : List (LineEvent Point) :=
  .fall :: (pk.octets.flatMap Octet.clocks).flatMap pulse ++ [.rise pk.last]

theorem Packet.events_seen (pk : Packet) : pk.events (· && ·) =
    (if pk.start.slave then [.start pk.start] else []) ++ pk.clocks ++
      (if pk.stop.slave then [.stop pk.stop] else []) := by
  simp [Packet.events, Packet.clocks]

/-- The clocks are followed, and complete at least an octet of a transfer under way. -/
theorem monitor_clocks (hos : PacketOctets go tr pk.octets) (log : TransferLog Point) :
    run I2cMonitor.on (monitorFor true log) pk.clocks =
      monitorFor true (run TransferLog.on log pk.clocks) ∧
    ∀ f ∈ (run TransferLog.on log pk.clocks).frame?, f.octets ≠ [] := by
  have hlog : run TransferLog.on log pk.clocks =
      (run TransferLog.on log ((pk.octets.flatMap Octet.clocks).flatMap pulse)).on
        (.rise pk.last) := by
    rw [Packet.clocks, run_append_singleton, run_cons]
    rfl
  constructor
  · rw [hlog, Packet.clocks, run_append_singleton, run_cons, on_fall, run_pulses_monitor, on_rise]
  · rw [hlog, run_pulses]
    intro f hf
    obtain ⟨f', hf', rfl⟩ := Option.mem_map.mp hf
    obtain ⟨f₀, -, rfl⟩ := Option.mem_map.mp hf'
    have hnine := hos.nine_le
    have hpush : ((pk.octets.flatMap Octet.clocks).foldl Frame.push f₀).octets ≠ [] :=
      octets_ne_nil_of_nine (List.ne_nil_of_length_pos (by omega)) (by omega)
    exact octets_ne_nil_foldl_push hpush [pk.last]

/-- **The monitor follows a packet**, if it is waiting for a START that is visible. -/
theorem monitor_packet (hos : PacketOctets go tr pk.octets)
    (hidle : pk.start.slave = true → log.frame? = none) :
    run I2cMonitor.on (monitorFor true log) (pk.events (· && ·)) =
      monitorFor true (run TransferLog.on log (pk.events (· && ·))) ∧
    (pk.stop.slave = true → (run TransferLog.on log (pk.events (· && ·))).frame? = none) := by
  have hstart : ∃ log' : TransferLog Point,
      run TransferLog.on log (if pk.start.slave then [.start pk.start] else []) = log' ∧
      run I2cMonitor.on (monitorFor true log)
        (if pk.start.slave then [.start pk.start] else []) = monitorFor true log' := by
    refine ⟨_, rfl, ?_⟩
    cases hslave : pk.start.slave with
    | false => rfl
    | true => exact on_start (hidle hslave)
  obtain ⟨log', hlog', hmon⟩ := hstart
  obtain ⟨hclocks, hoctets⟩ := monitor_clocks hos log'
  rw [pk.events_seen, run_append, run_append, run_append, run_append, hlog', hmon, hclocks]
  cases hslave : pk.stop.slave with
  | false => exact ⟨rfl, fun h => absurd h Bool.false_ne_true⟩
  | true =>
    refine ⟨on_stop hoctets, fun _ => ?_⟩
    cases hframe : (run TransferLog.on log' pk.clocks).frame? with
    | none => simp [TransferLog.on, hframe]
    | some f => simp [TransferLog.on, hframe]

/-- **The monitor follows the packets of a run.** -/
theorem monitor_packets (h : Packets slave trs pks)
    (hidle : slave = true → log.frame? = none) :
    run I2cMonitor.on (monitorFor true log) (pks.flatMap (Packet.events (· && ·))) =
      monitorFor true (run TransferLog.on log (pks.flatMap (Packet.events (· && ·)))) := by
  induction h generalizing log with
  | nil => rfl
  | cons hos _ ih =>
    obtain ⟨hmon, hframe⟩ := monitor_packet hos hidle
    rw [List.flatMap_cons, run_append, run_append, hmon]
    exact ih hframe

/-! ### Packets that the device leaves alone -/

/-- The device leaves SDA released at the START, in the address byte and at the STOP. -/
structure Released (t : Transfer Point) : Prop where
  start : t.start.slave = true
  address : ∀ o ∈ t.octets.head?, ∀ p ∈ o.bits, p.slave = true
  stop : t.stop.slave = true

instance (t : Transfer Point) : Decidable (Released t) :=
  decidable_of_iff (t.start.slave = true ∧
      (∀ o ∈ t.octets.head?, ∀ p ∈ o.bits, p.slave = true) ∧ t.stop.slave = true)
    ⟨fun h => ⟨h.1, h.2.1, h.2.2⟩, fun h => ⟨h.start, h.address, h.stop⟩⟩

/-- The transfers as the driver has them on the lines are its packets. -/
theorem log_packets_sent (h : Packets slave trs pks) (log : TransferLog Point) :
    (run TransferLog.on log (pks.flatMap (Packet.events fun master _ => master))).transfers =
      log.transfers ++ pks.map Packet.transfer := by
  induction h generalizing log with
  | nil => simp
  | cons hos _ ih =>
    rw [List.flatMap_cons, run_append, ih, log_packet hos rfl rfl]
    simp

theorem events_eq_of_released (h : ∀ t ∈ pks.map Packet.transfer, Released t) :
    pks.flatMap (Packet.events (· && ·)) =
      pks.flatMap (Packet.events fun master _ => master) := by
  refine List.flatMap_congr fun pk hpk => ?_
  have hpacket := h _ (List.mem_map_of_mem hpk)
  have hstart : pk.start.slave = true := hpacket.start
  have hstop : pk.stop.slave = true := hpacket.stop
  simp [Packet.events, hstart, hstop]

/-- The address and the direction of a transaction. -/
def I2cTrans.header (tr : I2cTrans) : BitVec 7 × Bool := (tr.addr, tr.rnw)

/-- A byte that the device leaves alone is on SDA as it is sent. -/
theorem byteOf_writesByte {d : BitVec 8} {o : Octet Point} (ho : WritesByte d o)
    (h : ∀ p ∈ o.bits, p.slave = true) : byteOf o.bits = d := by
  have hbits : o.bits.map Point.sda = bitsDown d 0 8 := by
    rw [← ho.bits]
    refine List.map_congr_left fun p hp => ?_
    rw [Point.sda, h p hp, Bool.and_true]
  have hread := readBits_bitsDown 0#8 d []
  rw [List.append_nil] at hread
  rw [byteOf, hbits, hread]

theorem addr_append (addr : BitVec 7) (rnw : Bool) :
    (addr ++ BitVec.ofBool rnw).extractLsb' 1 7 = addr := by
  rw [BitVec.extractLsb'_append_eq_of_le (by decide)]
  simp

theorem rnw_append (addr : BitVec 7) (rnw : Bool) :
    (addr ++ BitVec.ofBool rnw).getLsbD 0 = rnw := by
  rw [BitVec.getLsbD_append]
  simp

theorem header_decode (hos : PacketOctets go tr pk.octets) (h : Released pk.transfer) :
    (decode pk.transfer).header = tr.header := by
  have hhead : headByte pk.octets = tr.addr ++ BitVec.ofBool tr.rnw := by
    have haddress := h.address
    cases hos' : pk.octets with
    | nil => exact absurd hos' hos.ne_nil
    | cons o os =>
      rw [hos'] at hos
      have ho : WritesByte (tr.addr ++ BitVec.ofBool tr.rnw) o := by cases hos <;> assumption
      exact byteOf_writesByte ho (haddress o (by simp [Packet.transfer, hos']))
  change ((headByte pk.octets).extractLsb' 1 7, (headByte pk.octets).getLsbD 0) = _
  rw [hhead]
  exact Prod.ext (addr_append tr.addr tr.rnw) (rnw_append tr.addr tr.rnw)

theorem headers_decode (h : Packets slave trs pks)
    (hreleased : ∀ t ∈ pks.map Packet.transfer, Released t) :
    (pks.map Packet.transfer).map (fun t => (decode t).header) = trs.map I2cTrans.header := by
  induction h with
  | nil => rfl
  | cons hos _ ih =>
    rw [List.map_cons, List.forall_mem_cons] at hreleased
    rw [List.map_cons, List.map_cons, List.map_cons, header_decode hos hreleased.1,
      ih hreleased.2]

end Packets

/-- **The run is decoded**: a transaction is published for each item, with its address and
direction, and with the bytes after the address that were on SDA. -/
structure Decodes (w : Wave) (trs : List I2cTrans) : Prop where
  headers : w.monitor.published.map I2cTrans.header = trs.map I2cTrans.header
  data : w.monitor.published.map I2cTrans.data =
    (transferLog (w.events sent)).transfers.map fun t => t.octets.tail.map fun o => byteOf o.bits

/-- The monitor after a run of the driver. -/
theorem monitor_mainPhase (dev : Device) (slave icIntr : Bool) (items : List (Option I2cTrans)) :
    (mainPhase dev (resetPhase slave icIntr) items).monitor =
      monitorFor true
        (transferLog ((mainPhase dev (resetPhase slave icIntr) items).events seen)) := by
  obtain ⟨pks, hpks, hevents⟩ := packets_mainPhase dev slave icIntr items
  rw [Wave.monitor_eq_run, hevents _ fun _ => rfl]
  exact @monitor_packets _ _ .empty _ hpks fun _ => rfl

/-- **The monitor publishes the transfers on the bus**, in order and one for each START..STOP,
whatever the device does while SCL is low. Where it leaves SDA released at START, at STOP and in
the address byte, these are the packets of the driver. -/
theorem monitor_published (dev : Device) (slave icIntr : Bool) (items : List (Option I2cTrans)) :
    (mainPhase dev (resetPhase slave icIntr) items).monitor.published =
      (transferLog ((mainPhase dev (resetPhase slave icIntr) items).events seen)).transfers.map
        decode ∧
    ((∀ t ∈ (transferLog ((mainPhase dev (resetPhase slave icIntr) items).events
        sent)).transfers, Released t) →
      Decodes (mainPhase dev (resetPhase slave icIntr) items) items.reduceOption) := by
  have hpublished : (mainPhase dev (resetPhase slave icIntr) items).monitor.published =
      (transferLog ((mainPhase dev (resetPhase slave icIntr) items).events
        seen)).transfers.map decode :=
    congrArg I2cMonitor.published (monitor_mainPhase dev slave icIntr items)
  refine ⟨hpublished, fun hreleased => ?_⟩
  obtain ⟨pks, hpks, hevents⟩ := packets_mainPhase dev slave icIntr items
  have hsent : (transferLog ((mainPhase dev (resetPhase slave icIntr) items).events
      sent)).transfers = pks.map Packet.transfer := by
    rw [hevents _ fun _ => rfl]
    exact log_packets_sent hpks .empty
  rw [hsent] at hreleased
  have hseen : (mainPhase dev (resetPhase slave icIntr) items).events seen =
      (mainPhase dev (resetPhase slave icIntr) items).events sent := by
    rw [hevents _ fun _ => rfl, hevents _ fun _ => rfl, events_eq_of_released hreleased]
  rw [hseen, hsent] at hpublished
  constructor
  · rw [hpublished, List.map_map]
    exact headers_decode hpks hreleased
  · rw [hpublished, hsent, List.map_map]
    rfl

/-- A write of no byte to address 0x7F. -/
def writeNone : I2cTrans where
  scl := true
  sda := true
  icIntr := false
  addr := 0x7F#7
  rnw := false
  data := []

/-- A device that is not there. -/
def absent : Device where
  drive _ := []
  intr _ := false
  quiet _ _ := rfl

/-- A packet without data that a device answers, and one with a byte that none does. -/
theorem acknowledged_decoded :
    Decodes (mainPhase acknowledging (resetPhase true false) [some writeNone]) [writeNone] ∧
      Decodes (mainPhase absent (resetPhase true false) [some writeOne]) [writeOne] ∧
      (mainPhase absent (resetPhase true false) [some writeOne]).monitor.published.map
        I2cTrans.data = [writeOne.data] :=
  ⟨(monitor_published acknowledging true false [some writeNone]).2 (by decide +kernel),
    (monitor_published absent true false [some writeOne]).2 (by decide +kernel),
    by decide +kernel⟩

/-- A device that pulls SDA low in the second bit of the address. -/
def intruding : Device where
  drive w := if w.level.scl then [] else [clockCount w ≠ 1]
  intr _ := false
  quiet _ h := if_pos h

/-- There is one transfer on the bus, from START to STOP, and its address is another. -/
theorem intruding_not_decoded :
    (transferLog ((mainPhase intruding (resetPhase true false) [some writeNone]).events
      seen)).transfers.length = 1 ∧
    ¬ Decodes (mainPhase intruding (resetPhase true false) [some writeNone]) [writeNone] :=
  ⟨by decide +kernel, fun h => absurd h.headers (by decide +kernel)⟩

end Testbench.I2c
