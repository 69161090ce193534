import Testbench.Lib.Bits

/-!
The SPI slave `spi_driver` (`mpsoc/uvc/spi/spi_driver.sv`).

`driver_one_pkt` serves one frame as a thread that waits on levels of `ss_n` and edges of
`sclk`, next to a timeout counted in clock edges; the main loop calls it for one item after
the other. `Phase` says where the thread waits. The bits a driver has taken in its calls
(`taken`) grow by rising edges of `sclk` alone, and only after a falling one (`Sampling`).
-/

namespace Testbench.Spi

open Testbench.Lib

/-- The lines of `spi_vif` that the master drives. -/
structure Lines where
  sclk : Bool := false
  mosi : Bool := false
  ssN : BitVec 4 := 0xF
  ssiIntr : Bool := false
  deriving DecidableEq

/-- `ss_n[c] === 1'b0`. -/
def Lines.selected (l : Lines) (c : Fin 4) : Bool := !l.ssN.getLsbD c

/-- `spi_trans`: the protocol fields and the lines it was taken from. -/
structure SpiTrans where
  lines : Lines := {}
  miso : Bool := false
  channel : Fin 4 := 0
  frameSize : Nat := 0
  txData : BitVec 32 := 0
  rxData : BitVec 32 := 0
  deriving DecidableEq

def TIMEOUT_CYCLES : Nat := 10000

/-- Where `driver_one_pkt` waits: to be selected, for the falling edge at which it drives
bit `i` or the rising edge at which it samples it, or for the end of the frame. The main loop
idles while the sequencer has no item. -/
inductive Phase where
  | idle
  | select (tr : SpiTrans)
  | drive (tr : SpiTrans) (i : Nat)
  | sample (tr : SpiTrans) (i : Nat)
  | deselect (tr : SpiTrans)

namespace Phase

/-- The item being served. -/
def item : Phase → Option SpiTrans
  | .idle => none
  | .select tr | .drive tr _ | .sample tr _ | .deselect tr => some tr

/-- The loop with `n` bits to go. -/
def bitsToGo (tr : SpiTrans) : Nat → Phase
  | 0 => .deselect tr
  | i + 1 => .drive tr i

/-- The bits taken in this call. -/
def taken : Phase → Nat
  | .idle | .select _ => 0
  | .drive tr i | .sample tr i => tr.frameSize - 1 - i
  | .deselect tr => tr.frameSize

end Phase

/-- A finished call of `driver_one_pkt`, and which branch of its fork came first. -/
structure Call where
  tr : SpiTrans
  timedOut : Bool

/-- The slave; `items` are still to come from the sequencer. -/
structure Driver where
  phase : Phase := .idle
  elapsed : Nat := 0
  miso : Bool := false
  items : List SpiTrans
  finished : List Call := []

namespace Driver

/-- `try_next_item`, and `driver_one_pkt` up to the first wait that blocks. -/
def tryNextItem (l : Lines) (d : Driver) : Driver :=
  match d.items with
  | [] => { d with phase := .idle }
  | req :: items =>
      let tr := { req with rxData := 0 }
      { d with
        items
        elapsed := 0
        phase := if l.selected tr.channel then .bitsToGo tr tr.frameSize else .select tr }

/-- The end of a call, and the start of the next one. -/
def itemDone (l : Lines) (d : Driver) (tr : SpiTrans) (timedOut : Bool) : Driver :=
  tryNextItem l { d with miso := false, finished := d.finished ++ [{ tr, timedOut }] }

/-- `@(posedge vif.clk)`: of the timeout, or of the idle main loop. -/
def clk (l : Lines) (d : Driver) : Driver :=
  match d.phase.item with
  | none => d.tryNextItem l
  | some tr =>
      if d.elapsed + 1 = TIMEOUT_CYCLES then d.itemDone l tr true
      else { d with elapsed := d.elapsed + 1 }

/-- A change of `ss_n`. -/
def ssNChange (l : Lines) (d : Driver) : Driver :=
  match d.phase with
  | .select tr =>
      if l.selected tr.channel then { d with phase := .bitsToGo tr tr.frameSize } else d
  | .deselect tr => if l.selected tr.channel then d else d.itemDone l tr false
  | _ => d

/-- `@(negedge vif.sclk)`. -/
def negedgeSclk (d : Driver) : Driver :=
  match d.phase with
  | .drive tr i => { d with miso := tr.txData.getLsbD i, phase := .sample tr i }
  | _ => d

/-- `@(posedge vif.sclk)`; the wait for the end of the frame does not block when the slave
is not selected any more. -/
def posedgeSclk (l : Lines) (d : Driver) : Driver :=
  match d.phase with
  | .sample tr i =>
      let tr := { tr with rxData := setBit tr.rxData i l.mosi }
      if i = 0 ∧ l.selected tr.channel = false then d.itemDone l tr false
      else { d with phase := .bitsToGo tr i }
  | _ => d

/-! ### Bits -/

/-- The bits taken in a list of calls, those given up apart. -/
def takenIn (calls : List Call) : Nat :=
  ((calls.filter fun c => !c.timedOut).map fun c => c.tr.frameSize).sum

/-- The bits taken so far. -/
def taken (d : Driver) : Nat := takenIn d.finished + d.phase.taken

/-- The sizes of all the frames, served or not. -/
def sizes (d : Driver) : List Nat :=
  d.finished.map (·.tr.frameSize) ++ (d.phase.item.toList ++ d.items).map (·.frameSize)

/-- The next rising edge takes a bit. -/
def Sampling (d : Driver) : Prop := ∃ tr i, d.phase = .sample tr i

theorem item_bitsToGo (tr : SpiTrans) (n : Nat) : (Phase.bitsToGo tr n).item = some tr := by
  cases n with
  | zero => rfl
  | succ n => rfl

theorem taken_bitsToGo (tr : SpiTrans) : (Phase.bitsToGo tr tr.frameSize).taken = 0 := by
  cases hsize : tr.frameSize with
  | zero => exact hsize
  | succ n =>
    show tr.frameSize - 1 - n = 0
    omega

theorem bitsToGo_ne_sample {tr tr' : SpiTrans} {n i : Nat} :
    Phase.bitsToGo tr n ≠ .sample tr' i := by
  cases n with
  | zero => exact Phase.noConfusion
  | succ n => exact Phase.noConfusion

theorem takenIn_append (calls : List Call) (c : Call) :
    takenIn (calls ++ [c]) = takenIn calls + if c.timedOut then 0 else c.tr.frameSize := by
  rw [takenIn, List.filter_append, List.map_append, List.sum_append]
  cases hout : c.timedOut with
  | false => simp [takenIn, hout]
  | true => simp [takenIn, hout]

section Steps

variable (l : Lines) (d : Driver)

/-- The next item starts with nothing taken of it. -/
theorem tryNextItem_spec :
    (d.tryNextItem l).taken = takenIn d.finished ∧
      (d.tryNextItem l).sizes =
        d.finished.map (·.tr.frameSize) ++ d.items.map (·.frameSize) ∧
      ¬ (d.tryNextItem l).Sampling := by
  cases hitems : d.items with
  | nil =>
    rw [tryNextItem, hitems]
    refine ⟨rfl, by simp [sizes, Phase.item], ?_⟩
    rintro ⟨tr, i, hphase⟩
    cases hphase
  | cons req items =>
    rw [tryNextItem, hitems]
    cases hsel : l.selected req.channel with
    | false =>
      refine ⟨by simp [taken, hsel, Phase.taken], by simp [sizes, hsel, Phase.item], ?_⟩
      rintro ⟨tr, i, hphase⟩
      simp [hsel] at hphase
    | true =>
      have htaken := taken_bitsToGo { req with rxData := 0 }
      refine ⟨?_, ?_, ?_⟩
      · simp only [taken, hsel, if_true]
        exact Nat.add_left_cancel_iff.mpr htaken
      · simp [sizes, hsel, item_bitsToGo]
      · rintro ⟨tr, i, hphase⟩
        simp only [hsel, if_true] at hphase
        exact bitsToGo_ne_sample hphase

/-- What a step other than a falling edge does to the count: it takes at most `bits` bits,
drops no frame and does not get ready to sample. -/
structure Takes (bits : Nat) (d d' : Driver) : Prop where
  taken : d'.taken ≤ d.taken + bits
  sizes : d'.sizes = d.sizes
  sampling : d'.Sampling → d.Sampling

theorem Takes.rfl {d : Driver} : Takes 0 d d := ⟨le_rfl, Eq.refl _, id⟩

/-- A move to another point of the same call. -/
theorem takes_phase {bits : Nat} {p : Phase}
    (hitem : p.item.map (·.frameSize) = d.phase.item.map (·.frameSize))
    (htaken : p.taken ≤ d.phase.taken + bits) (hsample : ∀ tr i, p ≠ .sample tr i) :
    Takes bits d { d with phase := p } := by
  refine ⟨?_, ?_, ?_⟩
  · rw [taken, taken, Nat.add_assoc]
    exact Nat.add_le_add_left htaken _
  · simp only [sizes, List.map_append, ← Option.toList_map, hitem]
  · rintro ⟨tr, i, hphase⟩
    exact absurd hphase (hsample tr i)

/-- The end of a call counts its bits unless it is given up. -/
theorem takes_itemDone {bits : Nat} {tr tr' : SpiTrans} (timedOut : Bool)
    (hitem : d.phase.item = some tr) (hsize : tr'.frameSize = tr.frameSize)
    (htaken : (if timedOut then 0 else tr.frameSize) ≤ d.phase.taken + bits) :
    Takes bits d (d.itemDone l tr' timedOut) := by
  obtain ⟨hcount, hsizes, hsampling⟩ := tryNextItem_spec l
    { d with miso := false, finished := d.finished ++ [{ tr := tr', timedOut }] }
  refine ⟨?_, ?_, fun h => absurd h hsampling⟩
  · rw [itemDone, hcount, takenIn_append, hsize, taken, Nat.add_assoc]
    exact Nat.add_le_add_left htaken _
  · rw [itemDone, hsizes]
    simp [sizes, hitem, hsize]

theorem takes_clk : Takes 0 d (d.clk l) := by
  unfold clk
  cases hitem : d.phase.item with
  | none =>
    obtain ⟨htaken, hsizes, hsampling⟩ := tryNextItem_spec l d
    refine ⟨?_, ?_, fun h => absurd h hsampling⟩
    · rw [htaken]
      exact Nat.le_add_right _ _
    · rw [hsizes]
      simp [sizes, hitem]
  | some tr =>
    dsimp only
    split
    · exact takes_itemDone l d true hitem rfl (Nat.zero_le _)
    · exact ⟨le_rfl, rfl, id⟩

theorem takes_ssNChange : Takes 0 d (d.ssNChange l) := by
  unfold ssNChange
  split
  · rename_i tr hphase
    split
    · apply takes_phase d _ _ fun _ _ => bitsToGo_ne_sample
      · rw [item_bitsToGo, hphase]
        rfl
      · rw [taken_bitsToGo]
        exact Nat.zero_le _
    · exact Takes.rfl
  · rename_i tr hphase
    split
    · exact Takes.rfl
    · have hitem : d.phase.item = some tr := by rw [hphase]; rfl
      apply takes_itemDone l d false hitem rfl
      rw [hphase]
      exact le_rfl
  · exact Takes.rfl

/-- A rising edge takes a bit from a driver that samples, and none otherwise. -/
theorem takes_posedgeSclk :
    d.Sampling ∧ Takes 1 d (d.posedgeSclk l) ∨ d.posedgeSclk l = d := by
  unfold posedgeSclk
  split
  · rename_i tr i hphase
    left
    have hitem : d.phase.item = some tr := by rw [hphase]; rfl
    refine ⟨⟨tr, i, hphase⟩, ?_⟩
    dsimp only
    split
    · rename_i hlast
      have hsize : ({ tr with rxData := setBit tr.rxData i l.mosi } : SpiTrans).frameSize =
          tr.frameSize := rfl
      apply takes_itemDone l d false hitem hsize
      rw [hphase, hlast.1]
      show tr.frameSize ≤ tr.frameSize - 1 - 0 + 1
      omega
    · apply takes_phase d _ _ fun _ _ => bitsToGo_ne_sample
      · rw [item_bitsToGo, hphase]
        rfl
      · rw [hphase]
        cases i with
        | zero =>
          show tr.frameSize ≤ tr.frameSize - 1 - 0 + 1
          omega
        | succ i =>
          show tr.frameSize - 1 - i ≤ tr.frameSize - 1 - (i + 1) + 1
          omega
  · exact Or.inr rfl

theorem negedgeSclk_spec : d.negedgeSclk.taken = d.taken ∧ d.negedgeSclk.sizes = d.sizes := by
  unfold negedgeSclk
  split
  · rename_i tr i hphase
    simp [taken, sizes, hphase, Phase.taken, Phase.item]
  · exact ⟨rfl, rfl⟩

end Steps

end Driver

end Testbench.Spi
