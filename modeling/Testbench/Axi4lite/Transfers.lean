import Testbench.Axi4lite.DoRead
import Testbench.Axi4lite.DoWrite

/-!
What the AXI driver transfers.

`transfers_iff` collects both tasks. The slave with which they work takes addresses and
data at alternate edges; with one that is ready all the time they transfer nothing.
-/

namespace Testbench.Axi4lite.Driver

/-- **A task transfers what it is called for exactly when no ready it waits for is up
before the valid it belongs to can be seen.** -/
theorem transfers_iff {out : MasterSignals} (idle : out.Idle) (tr : DriverItem)
    (slave : Nat → SlaveSignals) :
    (ServesWrite (writeCall out tr slave).bus →
      (Writes (writeCall out tr slave) tr ↔ (slave 0).awready = false ∧
        ∀ a, (slave a).awready = true → (∀ t < a, (slave t).awready = false) →
          (slave a).wready = false)) ∧
    (ServesRead (readCall out tr slave).bus →
      (Reads (readCall out tr slave) tr ↔ (slave 0).arready = false)) :=
  ⟨writes_iff idle, reads_iff idle⟩

/-- A slave that takes addresses at odd edges and data at even ones. -/
def alternating (t : Nat) : SlaveSignals :=
  { awready := t % 2 = 1, wready := t % 2 = 0, bvalid := t = 3
    arready := t % 2 = 1, rvalid := t = 2, rdata := 0x55 }

/-- A slave that is always ready. -/
def alwaysReady (_ : Nat) : SlaveSignals := { awready := true, wready := true, arready := true }

/-- A write to the mode register. -/
def msrItem : DriverItem :=
  { dir := .write, addr := 0x4, data := 0x2, resp := .okay, wstrb := 0xF }

theorem servesWrite_alternating : ServesWrite (writeCall {} msrItem alternating).bus where
  acceptsAw t _ := ⟨2 * t + 1, by omega, by rw [bus_slave]; simp [writeCall, alternating]⟩
  acceptsW t _ := ⟨2 * t, by omega, by rw [bus_slave]; simp [writeCall, alternating]⟩
  responds _ _ _ _ := ⟨3, rfl⟩
  asked n hn := by
    rw [bus_slave] at hn
    obtain rfl : n = 3 := of_decide_eq_true hn
    exact ⟨⟨1, by decide, rfl⟩, 2, by decide, rfl⟩
  once n hn t ht := by
    rw [bus_slave] at hn
    obtain rfl : n = 3 := of_decide_eq_true hn
    have hne : t ≠ 3 := ht.ne
    simp [AxiSample.bHandshake, bus_slave, writeCall, alternating, hne]

theorem servesRead_alternating : ServesRead (readCall {} msrItem alternating).bus where
  acceptsAr t _ := ⟨2 * t + 1, by omega, by rw [bus_slave]; simp [readCall, alternating]⟩
  responds _ _ := ⟨2, rfl⟩
  asked n hn := by
    rw [bus_slave] at hn
    obtain rfl : n = 2 := of_decide_eq_true hn
    exact ⟨1, by decide, rfl⟩
  once n hn t ht := by
    rw [bus_slave] at hn
    obtain rfl : n = 2 := of_decide_eq_true hn
    have hne : t ≠ 2 := ht.ne
    simp [AxiSample.rHandshake, bus_slave, readCall, alternating, hne]

/-- Both tasks work with the alternating slave. -/
theorem alternating_transfers :
    Writes (writeCall {} msrItem alternating) msrItem ∧
      Reads (readCall {} msrItem alternating) msrItem := by
  have idle : ({} : MasterSignals).Idle := ⟨rfl, rfl, rfl, rfl, rfl⟩
  have h := transfers_iff idle msrItem alternating
  refine ⟨(h.1 servesWrite_alternating).mpr ⟨rfl, fun a ha _ => ?_⟩,
    (h.2 servesRead_alternating).mpr rfl⟩
  have hodd : a % 2 = 1 := of_decide_eq_true ha
  simp [alternating, hodd]

/-- Neither does with a slave that is ready all the time. -/
theorem alwaysReady_not_transfers :
    ServesWrite (writeCall {} msrItem alwaysReady).bus ∧
      ServesRead (readCall {} msrItem alwaysReady).bus ∧
      ¬ Writes (writeCall {} msrItem alwaysReady) msrItem ∧
      ¬ Reads (readCall {} msrItem alwaysReady) msrItem := by
  have idle : ({} : MasterSignals).Idle := ⟨rfl, rfl, rfl, rfl, rfl⟩
  have haw : ∀ t, ((writeCall {} msrItem alwaysReady).bus t).awHandshake = none :=
    awHandshake_none idle rfl
  have har : ∀ t, ((readCall {} msrItem alwaysReady).bus t).arHandshake = none :=
    arHandshake_none idle rfl
  have hbvalid : ∀ n, ((writeCall {} msrItem alwaysReady).bus n).bvalid ≠ true := by
    intro n
    rw [bus_slave]
    exact nofun
  have hrvalid : ∀ n, ((readCall {} msrItem alwaysReady).bus n).rvalid ≠ true := by
    intro n
    rw [bus_slave]
    exact nofun
  refine ⟨?_, ?_, ?_, ?_⟩
  · exact { acceptsAw := fun t _ => ⟨t, le_rfl, by rw [bus_slave]; rfl⟩
            acceptsW := fun t _ => ⟨t, le_rfl, by rw [bus_slave]; rfl⟩
            responds := fun t _ h => by rw [haw t] at h; cases h
            asked := fun n h => absurd h (hbvalid n)
            once := fun n h => absurd h (hbvalid n) }
  · exact { acceptsAr := fun t _ => ⟨t, le_rfl, by rw [bus_slave]; rfl⟩
            responds := fun t h => by rw [har t] at h; cases h
            asked := fun n h => absurd h (hrvalid n)
            once := fun n h => absurd h (hrvalid n) }
  · rintro ⟨⟨a, ha, -⟩, -⟩
    cases (haw a).symm.trans ha
  · rintro ⟨⟨a, ha, -⟩, -⟩
    cases (har a).symm.trans ha

end Testbench.Axi4lite.Driver
