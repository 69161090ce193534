import Testbench.Spi.Driver

/-!
The SPI monitor `spi_monitor` (`mpsoc/uvc/spi/spi_monitor.sv`).

`run_phase` starts on a change of `ss_n` and then follows rising edges of `sclk` alone: it
looks at `ss_n` again right after each edge. It so waits for one more edge when a frame is
shorter than its 32 bits, and what it publishes then is longer than the frame (`Overrun`).
-/

namespace Testbench.Spi

open Testbench.Lib

/-- Where `run_phase` waits: for a change of `ss_n`, or for a rising edge of `sclk` with `i`
bits captured. -/
inductive MonitorPhase where
  | wait
  | capture (tr : SpiTrans) (i : Nat)

/-- The monitor, and what it has published. -/
structure Monitor where
  phase : MonitorPhase := .wait
  published : List SpiTrans := []

namespace Monitor

/-- The last selected channel, 0 if there is none. -/
def channel (l : Lines) : Fin 4 :=
  (List.finRange 4).foldl (fun ch c => if l.selected c then c else ch) 0

/-- The head of the capture loop, and the broadcast behind it. -/
def loop (l : Lines) (miso : Bool) (m : Monitor) (tr : SpiTrans) (i : Nat) : Monitor :=
  if l.selected tr.channel ∧ i < 32 then { m with phase := .capture tr i }
  else
    { phase := .wait
      published := m.published ++ [{ tr with frameSize := i, lines := l, miso }] }

/-- A change of `ss_n`. -/
def ssNChange (l : Lines) (miso : Bool) (m : Monitor) : Monitor :=
  match m.phase with
  | .wait => if l.ssN = 0xF then m else m.loop l miso { channel := channel l } 0
  | .capture _ _ => m

/-- `@(posedge vif.sclk)`. -/
def posedgeSclk (l : Lines) (miso : Bool) (m : Monitor) : Monitor :=
  match m.phase with
  | .wait => m
  | .capture tr i =>
      let tr := { tr with
        rxData := setBit tr.rxData i l.mosi
        txData := setBit tr.txData i miso }
      m.loop l miso tr (i + 1)

/-- The monitor has published `pre` and captured `n` bits since, or it has published a longer
frame behind `pre`. -/
inductive Overrun (pre : List SpiTrans) (n : Nat) (m : Monitor) : Prop where
  | pending (tr : SpiTrans) (i : Nat) (hphase : m.phase = .capture tr i) (hle : n ≤ i)
      (hpub : m.published = pre)
  | published (tr : SpiTrans) (rest : List SpiTrans) (hpub : m.published = pre ++ tr :: rest)
      (hlt : n < tr.frameSize)

section Steps

variable {pre : List SpiTrans} {n : Nat} {m : Monitor} (l : Lines) (miso : Bool)

theorem published_loop (m : Monitor) (tr : SpiTrans) (i : Nat) :
    (m.loop l miso tr i).published = m.published ∧
        (m.loop l miso tr i).phase = .capture tr i ∨
      ∃ tr', (m.loop l miso tr i).published = m.published ++ [tr'] ∧ tr'.frameSize = i := by
  unfold loop
  split
  · exact Or.inl ⟨rfl, rfl⟩
  · exact Or.inr ⟨_, rfl, rfl⟩

theorem Overrun.loop (h : Overrun pre n m) {tr : SpiTrans} {i : Nat}
    (hi : m.published = pre → n < i) : Overrun pre n (m.loop l miso tr i) := by
  rcases published_loop l miso m tr i with ⟨hpub, hphase⟩ | ⟨tr', hpub, hsize⟩
  · cases h with
    | pending _ _ _ _ hpre => exact .pending tr i hphase (hi hpre).le (hpub.trans hpre)
    | published tr'' rest hpre hlt => exact .published tr'' rest (hpub.trans hpre) hlt
  · cases h with
    | pending _ _ _ _ hpre =>
      rw [hpre] at hpub
      exact .published tr' [] hpub (by rw [hsize]; exact hi hpre)
    | published tr'' rest hpre hlt =>
      rw [hpre, List.append_assoc] at hpub
      exact .published tr'' (rest ++ [tr']) hpub hlt

theorem Overrun.ssNChange (h : Overrun pre n m) : Overrun pre n (m.ssNChange l miso) := by
  unfold Monitor.ssNChange
  split
  · rename_i hwait
    split
    · exact h
    · refine h.loop l miso fun hpre => ?_
      cases h with
      | pending _ _ hphase => rw [hwait] at hphase; cases hphase
      | published _ _ hpub =>
        rw [hpre] at hpub
        simp at hpub
  · exact h

theorem Overrun.posedgeSclk (h : Overrun pre n m) : Overrun pre n (m.posedgeSclk l miso) := by
  unfold Monitor.posedgeSclk
  split
  · exact h
  · rename_i tr i hcapture
    refine h.loop l miso fun hpre => ?_
    cases h with
    | pending tr' i' hphase hle =>
      rw [hcapture] at hphase
      cases hphase
      exact Nat.lt_succ_of_le hle
    | published _ _ hpub =>
      rw [hpre] at hpub
      simp at hpub

end Steps

/-- The bits of a word in the order they came in. -/
def LsbFirst (rxData : BitVec 32) (bits : Nat → Bool) (n : Nat) : Prop :=
  ∀ i < 32, rxData.getLsbD i = (decide (i < n) && bits i)

theorem LsbFirst.setBit {rxData : BitVec 32} {bits : Nat → Bool} {n : Nat}
    (h : LsbFirst rxData bits n) : LsbFirst (setBit rxData n (bits n)) bits (n + 1) := by
  intro i hi
  rw [getLsbD_setBit _ _ _ _ hi]
  split
  · rename_i heq
    rw [heq, decide_eq_true (Nat.lt_succ_self n), Bool.true_and]
  · rename_i hne
    rw [h i hi]
    congr 1
    exact decide_eq_decide.mpr (by omega)

/-- The monitor has captured the first `n` bits of a frame, and has published the frame if that
makes 32. -/
inductive Captured (pre : List SpiTrans) (c : Fin 4) (bits : Nat → Bool) (n : Nat) :
    Monitor → Prop where
  | pending (tr : SpiTrans) (hchannel : tr.channel = c) (hbits : LsbFirst tr.rxData bits n)
      (hlt : n < 32) : Captured pre c bits n { phase := .capture tr n, published := pre }
  | published (tr : SpiTrans) (hsize : tr.frameSize = n) (hbits : LsbFirst tr.rxData bits n)
      (hfull : n = 32) : Captured pre c bits n { published := pre ++ [tr] }

section Capture

variable {pre : List SpiTrans} {c : Fin 4} {bits : Nat → Bool} {n : Nat} {m : Monitor} {l : Lines}

theorem ssN_of_selected (hsel : l.selected c = true) : l.ssN ≠ 0xF := by
  intro h
  have hall : ∀ c : Fin 4, (!(0xF : BitVec 4).getLsbD c) ≠ true := by decide
  rw [Lines.selected, h] at hsel
  exact hall c hsel

/-- The end of a selection goes unnoticed. -/
theorem ssNChange_idle (hssN : l.ssN = 0xF) (miso : Bool) : m.ssNChange l miso = m := by
  unfold ssNChange
  split
  · exact if_pos hssN
  · rfl

theorem captured_start (hsel : l.selected c = true) (hchannel : channel l = c) (miso : Bool) :
    Captured pre c bits 0 (({ published := pre } : Monitor).ssNChange l miso) := by
  have hbits : LsbFirst 0 bits 0 := fun i _ => by simp
  rw [ssNChange, if_neg (ssN_of_selected hsel), hchannel, loop, if_pos ⟨hsel, by decide⟩]
  exact .pending { channel := c } rfl hbits (by decide)

theorem Captured.posedgeSclk (h : Captured pre c bits n m) (hn : n < 32)
    (hsel : l.selected c = true) (hmosi : l.mosi = bits n) (miso : Bool) :
    Captured pre c bits (n + 1) (m.posedgeSclk l miso) := by
  cases h with
  | published _ _ _ hfull => exact absurd hfull hn.ne
  | pending tr hchannel hbits =>
    have hnext := hbits.setBit
    rw [← hmosi] at hnext
    simp only [Monitor.posedgeSclk, Monitor.loop, hchannel, hsel, true_and]
    split
    · rename_i hlt
      exact .pending _ rfl hnext hlt
    · rename_i hge
      exact .published _ rfl hnext (by omega)

/-- A word captured this way is right iff it reads the same in either bit order. -/
theorem LsbFirst.eq_iff {w : Nat} {rxData : BitVec 32} {x : BitVec w} (hw : w ≤ 32)
    (h : LsbFirst rxData x.getMsbD w) : rxData = x.setWidth 32 ↔ x.reverse = x := by
  have hbit : ∀ i < w, rxData.getLsbD i = x.reverse.getLsbD i := by
    intro i hi
    rw [h i (by omega), decide_eq_true hi, Bool.true_and, BitVec.getLsbD_reverse]
  constructor
  · intro heq
    apply BitVec.eq_of_getLsbD_eq
    intro i hi
    rw [← hbit i hi, heq, BitVec.getLsbD_setWidth, decide_eq_true (by omega), Bool.true_and]
  · intro heq
    apply BitVec.eq_of_getLsbD_eq
    intro i hi
    rw [BitVec.getLsbD_setWidth, decide_eq_true hi, Bool.true_and]
    rcases Nat.lt_or_ge i w with hlt | hge
    · rw [hbit i hlt, heq]
    · rw [h i hi, decide_eq_false hge.not_gt, Bool.false_and, BitVec.getLsbD_of_ge _ _ hge]

end Capture

end Monitor

end Testbench.Spi
