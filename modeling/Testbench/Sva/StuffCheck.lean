import Testbench.Lib.Run
import Testbench.Canphy.Stuffing

/-!
The bit stuffing check of `sva_tb_top` (`canfd/sva/code/sva_tb_top.sv`).

`stuff_bit_cnt_tx` counts clock edges at which `can_phy_tx` has not changed, so it passes
five on every level that lasts longer: in the idle bus, in the EOF of every frame, and in
every bit of six or more cycles. `checksStuffing_iff` says which traces the assertion
classifies rightly all the same.
-/

namespace Testbench.Sva

open Testbench.Lib Testbench.Canphy

/-- `stuff_bit_cnt_tx`, `stuff_prev_bit_tx`, and the level sampled at the edge before, for
`$fell`. -/
structure StuffCheck where
  cnt : BitVec 3 := 0
  prevBit : Bool := true
  sampled : Bool := true

/-- A clock edge at which `can_phy_tx` has the level `tx`. -/
def StuffCheck.step (rstn : Bool) (s : StuffCheck) (tx : Bool) : StuffCheck :=
  if !rstn || (s.sampled && !tx) then { cnt := 0, prevBit := tx, sampled := tx }
  else if tx = s.prevBit then { s with cnt := s.cnt + 1, sampled := tx }
  else { cnt := 0, prevBit := tx, sampled := tx }

/-- `a_bit_stuffing_tx` reports an error at an edge: the counter it samples is not below
five. -/
def StuffCheck.reports (s : StuffCheck) (_ : Bool) : Bool := !decide (s.cnt < 5)

/-- The assertion reports an error in a trace that starts out of reset on an idle bus. -/
def Reports (xs : List Bool) : Prop :=
  true ∈ trace (StuffCheck.step true) StuffCheck.reports {} xs

/-! ### Traces -/

/-- A frame on `can_phy_tx`: the bits after SOF up to the end of the CRC field, which is
its delimiter, the level of the ACK slot, and one less than the clock cycles of a bit. -/
structure TxFrame where
  afterSof : List Bool
  ack : Bool
  cycles : Nat

namespace TxFrame

variable (f : TxFrame)

/-- SOF to the end of the CRC field. -/
def stuffedBits : List Bool := false :: f.afterSof

/-- ACK slot, ACK delimiter and EOF follow. -/
def bits : List Bool := f.stuffedBits ++ [f.ack, true] ++ List.replicate 7 true

/-- The levels at the clock edges. -/
def samples : List Bool := f.bits.flatMap (List.replicate (f.cycles + 1))

/-- Six equal bits in a row between SOF and the end of the CRC field. -/
def Violates : Prop := ∃ v, List.replicate 6 v <:+: f.stuffedBits

end TxFrame

/-- What a trace is made of: clock cycles of an idle bus, and frames. -/
inductive TxSegment where
  | idle (cycles : Nat)
  | frame (f : TxFrame)

/-- The levels at the clock edges of a segment. -/
def TxSegment.samples : TxSegment → List Bool
  | idle cycles => List.replicate cycles true
  | frame f => f.samples

/-- The assertion reports an error iff some frame violates the stuffing rule. -/
def ChecksStuffing (segments : List TxSegment) : Prop :=
  Reports (segments.flatMap TxSegment.samples) ↔ ∃ f, .frame f ∈ segments ∧ f.Violates

/-! ### Where it reports -/

/-- Eight recessive levels in a row take the counter past five, whatever it was before. -/
theorem mem_trace_recessive (s : StuffCheck) :
    true ∈ trace (StuffCheck.step true) StuffCheck.reports s (List.replicate 8 true) := by
  obtain ⟨cnt, prevBit, sampled⟩ := s
  revert cnt prevBit sampled
  decide

theorem reports_of_infix {xs : List Bool} (h : List.replicate 8 true <:+: xs) : Reports xs := by
  obtain ⟨pre, post, rfl⟩ := h
  unfold Reports
  rw [List.append_assoc, trace_append, trace_append]
  exact List.mem_append_right _ (List.mem_append_left _ (mem_trace_recessive _))

/-- The ACK delimiter and EOF of a frame are such levels. -/
theorem TxFrame.recessive_infix (f : TxFrame) : List.replicate 8 true <:+: f.samples := by
  have hbits : f.bits = (f.stuffedBits ++ [f.ack]) ++ List.replicate 8 true := by
    rw [bits, List.append_assoc, List.append_assoc]
    rfl
  have hcycles : List.replicate (8 * (f.cycles + 1)) true =
      List.replicate 8 true ++ List.replicate (8 * f.cycles) true := by
    rw [List.replicate_append_replicate, Nat.mul_succ, Nat.add_comm]
  unfold samples
  rw [hbits, List.flatMap_append, List.flatMap_replicate, List.flatten_replicate_replicate,
    hcycles, ← List.append_assoc]
  exact List.infix_append _ _ _

theorem reports_of_frame {segments : List TxSegment} {f : TxFrame} (h : .frame f ∈ segments) :
    Reports (segments.flatMap TxSegment.samples) := by
  obtain ⟨before, after, rfl⟩ := List.append_of_mem h
  apply reports_of_infix
  rw [List.flatMap_append, List.flatMap_cons]
  refine f.recessive_infix.trans ?_
  exact (List.prefix_append f.samples _).isInfix.trans (List.suffix_append _ _).isInfix

/-- On an idle bus the sixth edge is the first to report. -/
theorem reports_idle_iff (n : Nat) : Reports (List.replicate n true) ↔ 6 ≤ n := by
  constructor
  · intro h
    by_contra hn
    rw [Nat.not_le] at hn
    unfold Reports at h
    interval_cases n <;> exact absurd h (by decide)
  · intro h
    obtain ⟨k, rfl⟩ := Nat.exists_eq_add_of_le h
    unfold Reports
    rw [← List.replicate_append_replicate, trace_append]
    exact List.mem_append_left _ (by decide)

/-- A trace without frames is an idle bus. -/
theorem samples_idle {segments : List TxSegment} (h : ∀ f, .frame f ∉ segments) :
    segments.flatMap TxSegment.samples =
      List.replicate (segments.flatMap TxSegment.samples).length true := by
  rw [List.eq_replicate_iff]
  refine ⟨rfl, fun x hx => ?_⟩
  obtain ⟨segment, hsegment, hx⟩ := List.mem_flatMap.mp hx
  cases segment with
  | idle cycles => exact List.eq_of_mem_replicate hx
  | frame f => exact absurd hsegment (h f)

/-- **The assertion is right about a trace iff some frame in it does violate the rule, or
it has no frame and is over within five cycles**: every other trace is reported although
nothing is wrong with it. -/
theorem checksStuffing_iff (segments : List TxSegment) :
    ChecksStuffing segments ↔
      (∃ f, .frame f ∈ segments ∧ f.Violates) ∨
        (∀ f, .frame f ∉ segments) ∧ (segments.flatMap TxSegment.samples).length < 6 := by
  unfold ChecksStuffing
  by_cases hframe : ∃ f, .frame f ∈ segments
  · obtain ⟨f, hf⟩ := hframe
    rw [iff_true_left (reports_of_frame hf), or_iff_left]
    exact fun h => h.1 f hf
  · have hnone : ∀ f, .frame f ∉ segments := not_exists.mp hframe
    have hquiet : ¬ ∃ f, .frame f ∈ segments ∧ f.Violates := fun ⟨f, hf, _⟩ => hnone f hf
    rw [samples_idle hnone, reports_idle_iff, iff_false_right hquiet, or_iff_right hquiet,
      and_iff_right hnone, Nat.not_le, List.length_replicate]

/-- SOF to DLC of a remote frame with identifier 0x123 and DLC 1. -/
def remoteFields : List Bool :=
  false :: bitsDown 0x123#11 0 11 ++ [true, false, false] ++ bitsDown 1#4 0 4

/-- The frame, stuffed by five with its CRC and acknowledged, at sixty cycles to a bit. -/
def remoteTxFrame : TxFrame where
  afterSof := (stuffBits 5 false 0 (remoteFields ++ crcValues remoteFields false) ++ [true]).tail
  ack := false
  cycles := 59

/-- It is stuffed as it should be, and reported. -/
theorem remoteTxFrame_not_checksStuffing : ¬ ChecksStuffing [.frame remoteTxFrame] := by
  intro h
  obtain ⟨f, hf, hviolates⟩ := h.mp (reports_of_frame (List.mem_singleton.mpr rfl))
  obtain rfl : f = remoteTxFrame := TxSegment.frame.inj (List.mem_singleton.mp hf)
  unfold TxFrame.Violates at hviolates
  exact absurd hviolates (by decide +kernel)

end Testbench.Sva
