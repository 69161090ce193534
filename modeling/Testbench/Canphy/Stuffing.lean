import Testbench.Lib.BitStuffing
import Testbench.Lib.Run
import Testbench.Canphy.DriveFrame

/-!
The stuffing loop of `drive_can_frame` (`canfd/uvc/canphy/canphy_driver.sv`), by the values
it assigns to successive positions of `stuffed`. It stuffs as `Lib.BitStuffing` does with
`k = 5` (`stuffAssigns_eq`).
-/

namespace Testbench.Canphy

open Testbench.Lib

/-- The values one iteration of the stuffing loop assigns. -/
def Stuffing.assigns (s : Stuffing) (b : Bool) : List Bool :=
  if b = s.lastBit ∧ s.sameCount + 1 = 5 then [b, !b] else [b]

/-- The values assigned to positions 0, 1, 2, … of `stuffed`, the first before the loop. -/
def stuffAssigns : List Bool → List Bool
  | [] => []
  | b :: bitStream =>
      b :: (trace Stuffing.next Stuffing.assigns
        { stuffed := stuff [b], lastBit := b } bitStream).flatten

/-- An iteration pushes the values it assigns. -/
theorem Stuffing.stuffed_next (s : Stuffing) (b : Bool) :
    (s.next b).stuffed = s.stuffed.pushAll (s.assigns b) := by
  unfold Stuffing.next Stuffing.assigns
  by_cases hlast : b = s.lastBit
  · by_cases hfive : s.sameCount + 1 = 5
    · rw [if_pos hlast, if_pos hfive, if_pos ⟨hlast, hfive⟩]
      rfl
    · rw [if_pos hlast, if_neg hfive, if_neg (fun h => hfive h.2)]
      rfl
  · rw [if_neg hlast, if_neg (fun h => hlast h.1)]
    rfl

theorem stuffed_foldl_next (s : Stuffing) (bits : List Bool) :
    (bits.foldl Stuffing.next s).stuffed =
      s.stuffed.pushAll (trace Stuffing.next Stuffing.assigns s bits).flatten := by
  induction bits generalizing s with
  | nil => rfl
  | cons b bits ih =>
    rw [List.foldl_cons, ih, Stuffing.stuffed_next, trace, List.flatten_cons]
    exact List.foldl_append.symm

/-- The loop is these assignments, one push each. -/
theorem stuff_eq_pushAll (bits : List Bool) :
    stuff bits = ({} : DynArray Bool).pushAll (stuffAssigns bits) := by
  cases bits with
  | nil => rfl
  | cons b bits => exact stuffed_foldl_next _ bits

theorem trace_assigns (s : Stuffing) (bits : List Bool) :
    (trace Stuffing.next Stuffing.assigns s bits).flatten =
      stuffBits 5 s.lastBit s.sameCount bits := by
  induction bits generalizing s with
  | nil => rfl
  | cons b bits ih =>
    rw [trace, List.flatten_cons, ih, stuffBits, Stuffing.next, Stuffing.assigns]
    by_cases hlast : b = s.lastBit
    · by_cases hfive : s.sameCount + 1 = 5
      · simp [hlast, hfive]
      · simp [hlast, hfive]
    · simp [hlast]

/-- The driver stuffs by five. -/
theorem stuffAssigns_eq (bits : List Bool) : stuffAssigns bits = stuffBits 5 false 0 bits := by
  cases bits with
  | nil => rfl
  | cons b bits => rw [stuffBits_head (by decide), stuffAssigns, trace_assigns]

theorem stuffValues_eq (last : Bool) (n : Nat) (bits : List Bool) :
    stuffValues last n bits = stuffBits 5 last n bits := by
  induction bits generalizing last n with
  | nil => rfl
  | cons b bits ih => simp only [stuffValues, stuffBits, ih]

/-- **The stuffing loop is right**: no six equal bits, reversible, and of the length
it should have. The array is filled by these values in this order. -/
theorem stuffing_correct (b : Bool) (bits : List Bool) :
    stuff (b :: bits) = ({} : DynArray Bool).pushAll (stuffAssigns (b :: bits)) ∧
    (∀ v, ¬ List.replicate 6 v <:+: stuffAssigns (b :: bits)) ∧
    destuffBits 5 false 0 (stuffAssigns (b :: bits)) = b :: bits ∧
    (b :: bits).length ≤ (stuffAssigns (b :: bits)).length ∧
    (stuffAssigns (b :: bits)).length ≤
      (b :: bits).length + ((b :: bits).length - 1) / 4 := by
  refine ⟨stuff_eq_pushAll _, ?_, ?_, ?_, ?_⟩ <;> rw [stuffAssigns_eq]
  · exact not_replicate_infix_stuffBits (by decide) false (by decide) _
  · exact destuffBits_stuffBits (by decide) false (by decide) _
  · exact le_length_stuffBits false 0 _
  · exact length_stuffBits_le (by decide) false b bits

end Testbench.Canphy
