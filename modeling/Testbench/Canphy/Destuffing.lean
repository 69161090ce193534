import Testbench.Lib.Bits
import Testbench.Lib.BitStuffing
import Testbench.Lib.RunLength

/-!
The destuffing loop of `parse_frame` (`canfd/uvc/canphy/canphy_monitor.sv`), by the values
it assigns to successive positions of `destuffed`.

The loop does not assign the fifth equal bit, and it assigns the bit behind the stuff bit
twice. That gives back a run of six to eight bits, one bit for another, and loses a run of
five; from nine bits on the run counter is off by one as well (`destuffs_iff`).
-/

namespace Testbench.Canphy

open Testbench.Lib

/-- The values assigned from iteration `i` on, where `bit_queue` still has the bits of the
list. -/
def destuffLoop (i : Nat) (lastBit : Bool) (sameCount : Nat) : List Bool → List Bool
  | [] => []
  | b :: rest =>
      if i < 150 then
        if b = lastBit then
          if sameCount + 1 = 5 then
            match rest with
            | [] => []
            | [_] => []
            -- past the stuff bit; what follows it is assigned here and in the next iteration
            | _ :: x :: rest => x :: destuffLoop (i + 2) x 1 (x :: rest)
          else b :: destuffLoop (i + 1) lastBit (sameCount + 1) rest
        else b :: destuffLoop (i + 1) b 1 rest
      else []

/-- The values `parse_frame` assigns to positions 0, 1, 2, … of `destuffed`. -/
def destuffAssigns : List Bool → List Bool
  | [] => []
  | b :: bitQueue => b :: destuffLoop 1 b 1 bitQueue

/-- Every run is shorter than nine bits and none has five. -/
def KeepsRuns (bits : List Bool) : Prop :=
  ∀ r ∈ bits.splitBy (· == ·), r.length ≠ 5 ∧ r.length ≤ 8

/-! ### The loop without its bound -/

/-- The loop as it runs on a queue it does not cut off. -/
def destuffFree (lastBit : Bool) (sameCount : Nat) : List Bool → List Bool
  | [] => []
  | b :: rest =>
      if b = lastBit then
        if sameCount + 1 = 5 then
          match rest with
          | [] => []
          | [_] => []
          | _ :: x :: rest => x :: destuffFree x 1 (x :: rest)
        else b :: destuffFree lastBit (sameCount + 1) rest
      else b :: destuffFree b 1 rest

theorem destuffLoop_eq_free {i : Nat} {last : Bool} {n : Nat} {bits : List Bool}
    (h : i + bits.length ≤ 150) : destuffLoop i last n bits = destuffFree last n bits := by
  induction hlen : bits.length using Nat.strong_induction_on generalizing i last n bits with
  | _ len ih =>
    subst hlen
    cases bits with
    | nil => rfl
    | cons b rest =>
      rw [List.length_cons] at h
      rw [destuffLoop.eq_def, destuffFree.eq_def]
      have hnext : ∀ last n, destuffLoop (i + 1) last n rest = destuffFree last n rest :=
        fun last n => ih rest.length (by simp) (by omega) rfl
      simp only [if_pos (show i < 150 by omega), hnext]
      match rest with
      | [] => rfl
      | [_] => rfl
      | _ :: x :: rest =>
        simp only [List.length_cons] at h
        have hskip : destuffLoop (i + 2) x 1 (x :: rest) = destuffFree x 1 (x :: rest) :=
          ih (x :: rest).length (by simp) (by simp only [List.length_cons]; omega) rfl
        simp only [hskip]

/-! ### One run -/

section Run

variable {v : Bool} {n m : Nat} {bits : List Bool}

theorem destuffFree_other {last : Bool} (h : v ≠ last) :
    destuffFree last n (v :: bits) = v :: destuffFree v 1 bits := by
  rw [destuffFree.eq_def]
  exact if_neg h

theorem destuffFree_same (h : n + 1 ≠ 5) :
    destuffFree v n (v :: bits) = v :: destuffFree v (n + 1) bits := by
  rw [destuffFree.eq_def]
  exact (if_pos rfl).trans (if_neg h)

/-- Up to four equal bits are assigned as they are. -/
theorem destuffFree_run (h : n + m ≤ 4) :
    destuffFree v n (List.replicate m v ++ bits) =
      List.replicate m v ++ destuffFree v (n + m) bits := by
  induction m generalizing n with
  | zero => rfl
  | succ m ih =>
    rw [List.replicate_succ, List.cons_append, destuffFree_same (by omega), ih (by omega),
      List.cons_append, Nat.add_right_comm, Nat.add_assoc]

/-- Of the fifth and the two bits behind it the last one is assigned, twice. -/
theorem destuffFree_fifth (x y : Bool) :
    destuffFree v 4 (v :: x :: y :: bits) = y :: y :: destuffFree y 2 bits := by
  rw [destuffFree.eq_def]
  simp only [if_true]
  rw [destuffFree_same (by decide)]

theorem destuffFree_fifth_end (x : Bool) : destuffFree v 4 [v, x] = [] := by
  rw [destuffFree.eq_def]
  simp only [if_true]

theorem stuffBits_other {k : Nat} {last : Bool} (h : v ≠ last) :
    stuffBits k last n (v :: bits) = v :: stuffBits k v 1 bits := by
  rw [stuffBits, if_neg h]

theorem stuffBits_run (h : n + m ≤ 4) :
    stuffBits 5 v n (List.replicate m v ++ bits) =
      List.replicate m v ++ stuffBits 5 v (n + m) bits := by
  induction m generalizing n with
  | zero => rfl
  | succ m ih =>
    rw [List.replicate_succ, List.cons_append, stuffBits, if_pos rfl, if_neg (by omega),
      ih (by omega), List.cons_append, Nat.add_right_comm, Nat.add_assoc]

theorem stuffBits_fifth : stuffBits 5 v 4 (v :: bits) = v :: (!v) :: stuffBits 5 (!v) 1 bits := by
  rw [stuffBits, if_pos rfl, if_pos rfl]

theorem exists_stuffBits_cons {last : Bool} (hn : n < 4) :
    ∃ tail, stuffBits 5 last n (v :: bits) = v :: tail := by
  by_cases hlast : v = last
  · exact ⟨_, by rw [stuffBits, if_pos hlast, if_neg (by omega)]⟩
  · exact ⟨_, stuffBits_other hlast⟩

variable {last : Bool} (h : v ≠ last)
include h

/-- A run of at most four bits comes back. -/
theorem destuffs_short_run {n' : Nat} (hm : m ≤ 3) :
    destuffFree last n (stuffBits 5 last n' (List.replicate (m + 1) v ++ bits)) =
      List.replicate (m + 1) v ++ destuffFree v (1 + m) (stuffBits 5 v (1 + m) bits) := by
  rw [List.replicate_succ, List.cons_append, stuffBits_other h, destuffFree_other h,
    stuffBits_run (by omega), destuffFree_run (by omega), List.cons_append]

/-- The stuff bit behind the first five bits of a run. -/
theorem stuffBits_five : stuffBits 5 last n (List.replicate 5 v ++ bits) =
    List.replicate 5 v ++ (!v) :: stuffBits 5 (!v) 1 bits := by
  have hfive : ∀ t, List.replicate 5 v ++ t = v :: (List.replicate 3 v ++ v :: t) :=
    fun _ => rfl
  rw [hfive, hfive, stuffBits_other h, stuffBits_run (by decide), stuffBits_fifth]

theorem destuffFree_five (x y : Bool) :
    destuffFree last n (List.replicate 5 v ++ x :: y :: bits) =
      List.replicate 4 v ++ y :: y :: destuffFree y 2 bits := by
  have hfive : List.replicate 5 v ++ x :: y :: bits =
      v :: (List.replicate 3 v ++ v :: x :: y :: bits) := rfl
  rw [hfive, destuffFree_other h, destuffFree_run (by decide), destuffFree_fifth]
  rfl

theorem destuffFree_five_end (x : Bool) :
    destuffFree last n (List.replicate 5 v ++ [x]) = List.replicate 4 v := by
  have hfive : List.replicate 5 v ++ [x] = v :: (List.replicate 3 v ++ [v, x]) := rfl
  rw [hfive, destuffFree_other h, destuffFree_run (by decide), destuffFree_fifth_end]
  rfl

/-- A run of five bits loses its last one. -/
theorem not_destuffs_five {n' : Nat} (hhead : bits.head? ≠ some v) :
    destuffFree last n (stuffBits 5 last n' (List.replicate 5 v ++ bits)) ≠
      List.replicate 5 v ++ bits := by
  have hfive : List.replicate 5 v ++ bits = List.replicate 4 v ++ v :: bits := rfl
  rw [stuffBits_five h]
  cases bits with
  | nil =>
    rw [stuffBits, destuffFree_five_end h]
    intro heq
    exact absurd (congrArg List.length heq) (by simp)
  | cons w bits =>
    have hcons : ∃ tail, stuffBits 5 (!v) 1 (w :: bits) = w :: tail :=
      exists_stuffBits_cons (by decide)
    obtain ⟨tail, htail⟩ := hcons
    rw [htail, destuffFree_five h, hfive]
    intro heq
    exact hhead (congrArg some (List.cons.inj (List.append_cancel_left heq)).1)

/-- A run of six to eight bits comes back: the bit behind the stuff bit stands for two. -/
theorem destuffs_six {n' : Nat} (hm : m ≤ 2) :
    destuffFree last n (stuffBits 5 last n'
        (List.replicate 5 v ++ v :: (List.replicate m v ++ bits))) =
      List.replicate 5 v ++ v :: (List.replicate m v ++
        destuffFree v (2 + m) (stuffBits 5 v (1 + m) bits)) := by
  rw [stuffBits_five h, stuffBits_other (by simp), destuffFree_five h, stuffBits_run (by omega),
    destuffFree_run (by omega)]
  rfl

end Run

/-- The ninth equal bit counts as a fifth: whatever follows, it or what stands for it is
wrong. -/
theorem not_destuffs_ninth (v : Bool) (bits : List Bool) :
    destuffFree v 4 (v :: stuffBits 5 v 4 bits) ≠ v :: bits := by
  intro heq
  cases bits with
  | nil => simp [stuffBits, destuffFree] at heq
  | cons w bits =>
    by_cases hw : w = v
    · subst hw
      rw [stuffBits_fifth, destuffFree_fifth] at heq
      simp at heq
    · rw [stuffBits_other hw] at heq
      cases bits with
      | nil =>
        rw [stuffBits, destuffFree_fifth_end] at heq
        cases heq
      | cons x bits =>
        have hcons : ∃ tail, stuffBits 5 w 1 (x :: bits) = x :: tail :=
          exists_stuffBits_cons (by decide)
        obtain ⟨tail, htail⟩ := hcons
        rw [htail, destuffFree_fifth] at heq
        obtain ⟨hx, hrest⟩ := List.cons.inj heq
        exact hw ((List.cons.inj hrest).1.symm.trans hx)

/-! ### All runs -/

theorem keepsRuns_run_append {v : Bool} {m : Nat} {rest : List Bool} (h : rest.head? ≠ some v) :
    KeepsRuns (List.replicate (m + 1) v ++ rest) ↔ (m ≠ 4 ∧ m ≤ 7) ∧ KeepsRuns rest := by
  unfold KeepsRuns
  rw [forall_mem_splitBy_run_append h, List.length_replicate]
  have hlen : (m + 1 ≠ 5 ∧ m + 1 ≤ 8) ↔ (m ≠ 4 ∧ m ≤ 7) := by omega
  rw [hlen]

theorem destuffFree_stuffBits_iff {last : Bool} {n n' : Nat} {bits : List Bool}
    (hhead : bits.head? ≠ some last) :
    destuffFree last n (stuffBits 5 last n' bits) = bits ↔ KeepsRuns bits := by
  induction hlen : bits.length using Nat.strong_induction_on generalizing last n n' bits with
  | _ len ih =>
    subst hlen
    cases bits with
    | nil => simp [stuffBits, destuffFree, KeepsRuns]
    | cons v l =>
      have hv : v ≠ last := fun h => hhead (congrArg some h)
      obtain ⟨m, rest, heq, hrest⟩ := exists_run_append v l
      rw [heq] at ih ⊢
      rw [keepsRuns_run_append hrest]
      have hrec : ∀ n n', destuffFree v n (stuffBits 5 v n' rest) = rest ↔ KeepsRuns rest :=
        fun n n' => ih rest.length (by simp) hrest rfl
      rcases Nat.lt_or_ge m 4 with hshort | hlong
      · rw [destuffs_short_run hv (by omega), List.append_cancel_left_eq, hrec]
        simp [show m ≠ 4 ∧ m ≤ 7 by omega]
      rcases Nat.eq_or_lt_of_le hlong with rfl | hsix
      · exact iff_of_false (not_destuffs_five hv hrest) (by simp)
      obtain ⟨j, rfl⟩ : ∃ j, m = 5 + j := Nat.exists_eq_add_of_le hsix
      have hrun : ∀ bits, List.replicate (5 + j + 1) v ++ bits =
          List.replicate 5 v ++ v :: (List.replicate j v ++ bits) := by
        intro bits
        rw [Nat.add_assoc, ← List.replicate_append_replicate, List.append_assoc]
        rfl
      rcases Nat.lt_or_ge j 3 with height | hnine
      · rw [hrun, destuffs_six hv (by omega), List.append_cancel_left_eq, List.cons_inj_right,
          List.append_cancel_left_eq, hrec]
        simp [show 5 + j ≠ 4 ∧ 5 + j ≤ 7 by omega]
      · obtain ⟨i, rfl⟩ := Nat.exists_eq_add_of_le hnine
        have hsplit : List.replicate (3 + i) v ++ rest =
            List.replicate 2 v ++ v :: (List.replicate i v ++ rest) := by
          rw [← List.replicate_append_replicate, List.append_assoc]
          rfl
        refine iff_of_false ?_ (by omega)
        rw [hrun, hsplit, destuffs_six hv le_rfl, stuffBits, if_pos rfl, if_neg (by decide),
          List.append_cancel_left_eq, List.cons_inj_right, List.append_cancel_left_eq]
        exact not_destuffs_ninth v _

/-- **The destuffing loop gives back a stuffed sequence exactly when no run of the original
has five bits or more than eight.** -/
theorem destuffs_iff (bits : List Bool) (hshort : (stuffBits 5 false 0 bits).length < 150) :
    destuffAssigns (stuffBits 5 false 0 bits) = bits ↔ KeepsRuns bits := by
  cases bits with
  | nil => simp [stuffBits, destuffAssigns, KeepsRuns]
  | cons b bits =>
    -- the loop starts as if the bit before had been the other one
    have hfree : destuffFree (!b) 0 (stuffBits 5 (!b) 0 (b :: bits)) = b :: bits ↔
        KeepsRuns (b :: bits) := destuffFree_stuffBits_iff (by simp)
    rw [stuffBits_head (by decide)] at hshort hfree ⊢
    rw [← hfree, destuffFree_other (by simp), destuffAssigns, destuffLoop_eq_free]
    rw [List.length_cons] at hshort
    omega

/-- A run of six dominant bits comes back. -/
theorem destuffs_six_dominant :
    destuffAssigns (stuffBits 5 false 0 (List.replicate 6 false)) = List.replicate 6 false ↔
      KeepsRuns (List.replicate 6 false) :=
  destuffs_iff (List.replicate 6 false) (by decide)

/-- SOF and the identifier 0x07F: five dominant bits, of which four come back. -/
theorem not_destuffs_sof_07F :
    (stuffBits 5 false 0 (false :: bitsDown 0x07F#11 0 11)).length < 150 ∧
    destuffAssigns (stuffBits 5 false 0 (false :: bitsDown 0x07F#11 0 11)) ≠
      false :: bitsDown 0x07F#11 0 11 := by
  decide

end Testbench.Canphy
