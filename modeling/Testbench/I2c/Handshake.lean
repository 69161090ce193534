import Testbench.I2c.Driver

/-!
The answers to the bytes of the driver.

`i2c_write_byte` reports an answer turned over, and `driver_one_pkt` takes the report for the
answer: the driver goes on where it is refused and gives up where it is acknowledged. What it
puts on the bus is the packet that is meant only where there is nothing to go on with.
-/

namespace Testbench.I2c

open Testbench.Lib

/-- **The handshake of a packet**: a transfer from START to STOP in which the driver goes on
where the device acknowledges, with SDA low in the ninth clock. -/
def Handshake (dev : Device) (tr : I2cTrans) (w : Wave) : Prop :=
  ∃ t : Transfer Point, PacketOctets false tr t.octets ∧
    transferLog ((driverOnePkt dev tr w).events sent) =
      ⟨none, (transferLog (w.events sent)).transfers ++ [t]⟩

section Handshake

variable {go : Bool} {tr : I2cTrans} {os : List (Octet Point)}

theorem WriteOctets.eq_nil_iff {data : List (BitVec 8)} (h : WriteOctets go data os) :
    os = [] ↔ data = [] := by
  cases h <;> simp

theorem ReadOctets.eq_nil_iff {size : Nat} (h : ReadOctets size os) : os = [] ↔ size = 0 := by
  rw [← List.length_eq_zero_iff, ← h.length_eq, List.length_range]

/-- The driver's octets are those of the handshake iff there are no data. -/
theorem PacketOctets.acknowledged_iff (h : PacketOctets true tr os) :
    PacketOctets false tr os ↔ tr.data = [] := by
  cases h with
  | refused ho hgo =>
    -- the device acknowledges the address, and the driver ends the packet
    replace hgo := Bool.eq_false_iff.mpr hgo
    constructor
    · rintro (⟨-, hne⟩ | ⟨-, -, -, hread⟩ | ⟨-, -, -, hwrite⟩)
      · exact absurd hgo hne
      · exact List.length_eq_zero_iff.mp (hread.eq_nil_iff.mp rfl)
      · exact hwrite.eq_nil_iff.mp rfl
    · intro hdata
      cases hrnw : tr.rnw with
      | true => exact .read ho hgo hrnw (by rw [hdata]; exact .nil)
      | false => exact .write ho hgo hrnw (by rw [hdata]; exact .nil)
  | read ho hgo hrnw hread =>
    -- the device refuses the address, and the driver reads
    have hnil := hread.eq_nil_iff
    rw [List.length_eq_zero_iff] at hnil
    rw [← hnil]
    constructor
    · rintro (⟨-, -⟩ | ⟨-, hack, -, -⟩ | ⟨-, hack, -, -⟩)
      · rfl
      · exact absurd (hack.symm.trans hgo) Bool.false_ne_true
      · exact absurd (hack.symm.trans hgo) Bool.false_ne_true
    · rintro rfl
      exact .refused ho (by simp [hgo])
  | write ho hgo hrnw hwrite =>
    rw [← hwrite.eq_nil_iff]
    constructor
    · rintro (⟨-, -⟩ | ⟨-, hack, -, -⟩ | ⟨-, hack, -, -⟩)
      · rfl
      · exact absurd (hack.symm.trans hgo) Bool.false_ne_true
      · exact absurd (hack.symm.trans hgo) Bool.false_ne_true
    · rintro rfl
      exact .refused ho (by simp [hgo])

end Handshake

/-- On an idle bus, whatever the device answers. -/
theorem handshake_iff_of_idle {dev : Device} {w : Wave} (h : Idle w) (tr : I2cTrans) :
    Handshake dev tr w ↔ tr.data = [] := by
  obtain ⟨-, pk, hos, -, -, hevents⟩ := packet_driverOnePkt dev tr h
  have hlog : run TransferLog.on (transferLog (w.events sent)) (pk.events fun master _ => master) =
      ⟨none, (transferLog (w.events sent)).transfers ++ [pk.transfer]⟩ :=
    log_packet hos rfl rfl _
  rw [← transferLog_append, ← hevents _ fun _ => rfl] at hlog
  rw [← hos.acknowledged_iff]
  constructor
  · rintro ⟨t, ht, hlog'⟩
    rw [hlog, TransferLog.mk.injEq, List.append_cancel_left_eq, List.singleton_inj] at hlog'
    rw [← hlog'.2] at ht
    exact ht
  · exact fun h => ⟨pk.transfer, h, hlog⟩

/-- **After any run of the driver and whatever the device answers, a packet follows the handshake
iff it has no data.** -/
theorem handshake_iff (dev : Device) (slave icIntr : Bool) (items : List (Option I2cTrans))
    (tr : I2cTrans) :
    Handshake dev tr (mainPhase dev (resetPhase slave icIntr) items) ↔ tr.data = [] :=
  handshake_iff_of_idle (idle_mainPhase dev slave icIntr items) tr

/-- The clocks so far. -/
def clockCount (w : Wave) : Nat :=
  (w.events seen).countP fun
    | .rise _ => true
    | _ => false

/-- A device that acknowledges every byte of the first packet and leaves SDA alone otherwise. -/
def acknowledging : Device where
  drive w := if w.level.scl then [] else [clockCount w % 9 ≠ 8]
  intr _ := false
  quiet _ h := if_pos h

/-- A write of one byte to address 0x50. -/
def writeOne : I2cTrans where
  scl := true
  sda := true
  icIntr := false
  addr := 0x50#7
  rnw := false
  data := [0xA5#8]

/-- The address is acknowledged and nothing follows it. -/
theorem writeOne_not_handshake :
    (transferLog ((driverOnePkt acknowledging writeOne
      (mainPhase acknowledging (resetPhase true false) [])).events sent)).transfers.map
        (fun t => t.octets.map fun o => o.ninth.sda) = [[false]] ∧
    ¬ Handshake acknowledging writeOne
      (mainPhase acknowledging (resetPhase true false) []) :=
  ⟨by decide +kernel, fun h => List.cons_ne_nil _ _
    ((handshake_iff_of_idle (idle_mainPhase _ _ _ _) _).mp h)⟩

end Testbench.I2c
