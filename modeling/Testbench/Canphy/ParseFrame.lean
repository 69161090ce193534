import Testbench.Canphy.Capture
import Testbench.Canphy.Destuffing
import Testbench.Canphy.Monitor

/-!
`parse_frame` of `canphy_monitor` (`canfd/uvc/canphy/canphy_monitor.sv`) from the queue it
is passed to the frame it writes to the analysis ports.

`destuffed` is grown by `new[size()+1]`, which drops what it held, so of the destuffed bits
only their number and the last one reach the field parser. What it reports is a blank frame
(`published_blank`).
-/

namespace Testbench.Canphy

open Testbench.Lib

theorem full_nil : 0 = ([] : List Bool).length := rfl

/-- `destuffed` after step 1 of `parse_frame`. -/
def destuffed (bitQueue : List Bool) : List Bool :=
  (({ full := full_nil } : DynArray Bool).pushAll (destuffAssigns bitQueue)).elems

/-- `parse_frame`. -/
def parseFrame (dir : CanDirection) (bitQueue : List Bool) : Option CanphyTrans :=
  parseFields dir (destuffed bitQueue)

/-- What a thread of the monitor has written to its analysis ports. -/
def Monitor.published (dir : CanDirection) (m : Monitor) : List CanphyTrans :=
  m.parsed.filterMap (parseFrame dir)

/-- A standard data frame with identifier 0 and without payload. Only when there are just
enough bits for a DLC can the last one get into it, and then the payload is one unknown
byte. -/
structure BlankFrame (dir : CanDirection) (tr : CanphyTrans) : Prop where
  frameType : tr.frameType = .canStdData
  canId : tr.canId = 0
  flags : tr.ide = false ∧ tr.rtr = false ∧ tr.fdf = false ∧ tr.brs = false ∧ tr.esi = false
  payload : tr.dlc = 0 ∧ tr.data = [] ∨ tr.bitCount = 20 ∧ tr.dlc = 1 ∧ tr.data = [none]
  bitCount : 20 ≤ tr.bitCount ∧ tr.bitCount ≤ 150
  direction : tr.direction = dir

/-! ### What is left of the destuffed bits -/

theorem destuffed_of_concat {bitQueue vs : List Bool} {last : Bool}
    (h : destuffAssigns bitQueue = vs ++ [last]) :
    destuffed bitQueue = List.replicate vs.length false ++ [last] := by
  rw [destuffed, h, DynArray.elems_pushAll_concat]
  simp

/-- The loop assigns at most one element to an iteration. -/
theorem length_destuffLoop_le (i : Nat) (last : Bool) (n : Nat) (bits : List Bool) :
    (destuffLoop i last n bits).length ≤ 150 - i := by
  induction hlen : bits.length using Nat.strong_induction_on generalizing i last n bits with
  | _ len ih =>
    subst hlen
    cases bits with
    | nil => exact Nat.zero_le _
    | cons b rest =>
      have hnext : ∀ last n, (destuffLoop (i + 1) last n rest).length ≤ 150 - (i + 1) :=
        fun last n => ih rest.length (by simp) _ _ _ _ rfl
      rw [destuffLoop.eq_def]
      dsimp only
      split_ifs with hi hlast hfive
      · rcases rest with _ | ⟨_, _ | ⟨x, rest⟩⟩
        · exact Nat.zero_le _
        · exact Nat.zero_le _
        · have hskip : (destuffLoop (i + 2) x 1 (x :: rest)).length ≤ 150 - (i + 2) :=
            ih (x :: rest).length (by simp only [List.length_cons]; omega) _ _ _ _ rfl
          simp only [List.length_cons]
          omega
      · have h := hnext last (n + 1)
        rw [List.length_cons]
        omega
      · have h := hnext b 1
        rw [List.length_cons]
        omega
      · exact Nat.zero_le _

theorem length_destuffAssigns_le (bitQueue : List Bool) :
    (destuffAssigns bitQueue).length ≤ 150 := by
  cases bitQueue with
  | nil => exact Nat.zero_le _
  | cons b bits =>
    have hloop := length_destuffLoop_le 1 b 1 bits
    rw [destuffAssigns, List.length_cons]
    omega

/-! ### The fields of dominant bits -/

theorem readBits_dominant {w : Nat} (n : Nat) (rest : List Bool) :
    readBits n (0 : BitVec w) (List.replicate n false ++ rest) = (0, rest) := by
  induction n with
  | zero => rfl
  | succ n ih =>
    have hzero : setBit (0 : BitVec w) n false = 0 := by simp [setBit]
    rw [List.replicate_succ, List.cons_append, readBits, hzero, ih]

/-- Twenty dominant bits are a standard data frame with DLC 0. -/
theorem parseFields_dominant (dir : CanDirection) (rest : List Bool) :
    parseFields dir (List.replicate 20 false ++ rest) =
      some { direction := dir, bitCount := (List.replicate 20 false ++ rest).length } := by
  have hlong : ¬ (List.replicate 20 false ++ rest).length < 20 := by simp
  have hid : ∀ bits, readBits 11 (0 : BitVec 29) (List.replicate 11 false ++ bits) = (0, bits) :=
    readBits_dominant 11
  have hdlc : readBits 4 (0 : BitVec 4) (List.replicate 4 false ++ rest) = (0, rest) :=
    readBits_dominant 4 rest
  have hsplit : (List.replicate 20 false ++ rest).drop 1 = List.replicate 11 false ++
      (false :: false :: false :: false :: (List.replicate 4 false ++ rest)) := rfl
  rw [parseFields, if_neg hlong, hsplit, parseArbitration, hid]
  simp only [nextBit, Bool.false_eq_true, if_false, parseControl, List.drop_one, List.tail_cons,
    hdlc]
  rfl

/-- The frame reported for `n` bits that are dominant up to the last one. -/
def blankFrame (dir : CanDirection) (n : Nat) (last : Bool) : CanphyTrans where
  dlc := if n = 20 ∧ last then 1 else 0
  data := if n = 20 ∧ last then [none] else []
  direction := dir
  bitCount := n

/-- With exactly twenty bits the last one is the low bit of the DLC. -/
theorem parseFields_blank (dir : CanDirection) {n : Nat} (last : Bool) (hn : 20 ≤ n + 1) :
    parseFields dir (List.replicate n false ++ [last]) = some (blankFrame dir (n + 1) last) := by
  rcases Nat.eq_or_lt_of_le hn with h | h
  · obtain rfl : n = 19 := by omega
    cases dir <;> cases last <;> decide
  · obtain ⟨m, rfl⟩ : ∃ m, n = 20 + m := Nat.exists_eq_add_of_le (by omega)
    have hne : ¬ (20 + m + 1 = 20 ∧ last = true) := by omega
    rw [← List.replicate_append_replicate, List.append_assoc, parseFields_dominant, blankFrame,
      if_neg hne, if_neg hne]
    simp [add_comm, add_left_comm]

theorem blankFrame_spec (dir : CanDirection) {n : Nat} (last : Bool) (hn : 20 ≤ n ∧ n ≤ 150) :
    BlankFrame dir (blankFrame dir n last) where
  frameType := rfl
  canId := rfl
  flags := ⟨rfl, rfl, rfl, rfl, rfl⟩
  payload := by
    by_cases h : n = 20 ∧ last
    · exact .inr ⟨congrArg Nat.cast h.1, if_pos h, if_pos h⟩
    · exact .inl ⟨if_neg h, if_neg h⟩
  bitCount := by
    dsimp only [blankFrame]
    omega
  direction := rfl

/-- **`parse_frame` reports a blank frame iff the queue has bits enough.** -/
theorem parseFrame_spec (dir : CanDirection) (bitQueue : List Bool) :
    ((parseFrame dir bitQueue).isSome ↔ 20 ≤ (destuffAssigns bitQueue).length) ∧
      ∀ tr ∈ parseFrame dir bitQueue,
        BlankFrame dir tr ∧ tr.bitCount = (destuffAssigns bitQueue).length := by
  have hbound := length_destuffAssigns_le bitQueue
  rcases List.eq_nil_or_concat' (destuffAssigns bitQueue) with hnil | ⟨vs, last, hconcat⟩
  · have hnone : parseFrame dir bitQueue = none := by
      rw [parseFrame, destuffed, hnil]
      rfl
    rw [hnone, hnil]
    exact ⟨by decide, fun _ htr => absurd htr (Option.not_mem_none _)⟩
  · have hlen : (destuffAssigns bitQueue).length = vs.length + 1 := by
      rw [hconcat, List.length_append, List.length_singleton]
    rw [hlen] at hbound ⊢
    rw [parseFrame, destuffed_of_concat hconcat]
    rcases Nat.lt_or_ge (vs.length + 1) 20 with hshort | hlong
    · have hnone : parseFields dir (List.replicate vs.length false ++ [last]) = none := by
        rw [parseFields, if_pos (by simpa using hshort)]
      rw [hnone]
      exact ⟨iff_of_false (by decide) (by omega), fun _ htr => absurd htr (Option.not_mem_none _)⟩
    · rw [parseFields_blank dir last hlong]
      refine ⟨iff_of_true rfl hlong, fun tr htr => ?_⟩
      obtain rfl := Option.some.inj htr
      exact ⟨blankFrame_spec dir last ⟨hlong, hbound⟩, rfl⟩

/-- **Whatever is on the bus, the monitor publishes one blank frame for each captured queue
with enough bits, and nothing else.** -/
theorem published_blank (dir : CanDirection) (cyclesPerBit : Nat) (levels : List Bool) :
    let m := run (Monitor.step cyclesPerBit) {} levels
    (m.published dir).length = m.parsed.countP (fun q => 20 ≤ (destuffAssigns q).length) ∧
      ∀ tr ∈ m.published dir, BlankFrame dir tr := by
  intro m
  constructor
  · have hsome : ∀ q, (parseFrame dir q).isSome = decide (20 ≤ (destuffAssigns q).length) :=
      fun q => Bool.eq_iff_iff.mpr (by simpa using (parseFrame_spec dir q).1)
    rw [Monitor.published, List.length_filterMap_eq_countP]
    exact List.countP_congr fun q _ => by rw [hsome]
  · intro tr htr
    obtain ⟨q, -, hq⟩ := List.mem_filterMap.mp htr
    exact ((parseFrame_spec dir q).2 tr hq).1

end Testbench.Canphy
