import Mathlib

/-!
Bit stuffing.

After `k` equal bits in a row the sender inserts their inverse, and the receiver drops the
bit that follows `k` equal ones. Inserted bits count as the first of the next run on both
sides. For `k` at least 2 dropping undoes inserting (`destuffBits_stuffBits`), no run is
longer than `k` (`not_replicate_infix_stuffBits`), and every inserted bit but the first
takes `k - 1` bits of its own (`length_stuffBits_le`).
-/

namespace Testbench.Lib

variable {k : Nat}

/-- Insert the inverse bit after every `k` equal bits. `n` bits equal to `last` came right
before. -/
def stuffBits (k : Nat) (last : Bool) (n : Nat) : List Bool → List Bool
  | [] => []
  | b :: bits =>
      if b = last then
        if n + 1 = k then b :: (!b) :: stuffBits k (!b) 1 bits
        else b :: stuffBits k last (n + 1) bits
      else b :: stuffBits k b 1 bits

/-- Drop the bit after every `k` equal bits. -/
def destuffBits (k : Nat) (last : Bool) (n : Nat) : List Bool → List Bool
  | [] => []
  | [b] => [b]
  | b :: x :: bits =>
      if b = last then
        if n + 1 = k then b :: destuffBits k x 1 bits
        else b :: destuffBits k last (n + 1) (x :: bits)
      else b :: destuffBits k b 1 (x :: bits)

/-- The first bit starts a run whatever came before. -/
theorem stuffBits_head (hk : 2 ≤ k) (last b : Bool) (bits : List Bool) :
    stuffBits k last 0 (b :: bits) = b :: stuffBits k b 1 bits := by
  by_cases hlast : b = last
  · rw [stuffBits, if_pos hlast, if_neg (by omega), hlast]
  · rw [stuffBits, if_neg hlast]

/-! ### Round trip -/

theorem destuffBits_cons_same {last : Bool} {n : Nat} (h : n + 1 ≠ k) (bits : List Bool) :
    destuffBits k last n (last :: bits) = last :: destuffBits k last (n + 1) bits := by
  cases bits with
  | nil => rfl
  | cons x bits => rw [destuffBits, if_pos rfl, if_neg h]

theorem destuffBits_cons_other {b last : Bool} {n : Nat} (h : b ≠ last) (bits : List Bool) :
    destuffBits k last n (b :: bits) = b :: destuffBits k b 1 bits := by
  cases bits with
  | nil => rfl
  | cons x bits => rw [destuffBits, if_neg h]

/-- **Destuffing undoes stuffing.** -/
theorem destuffBits_stuffBits (hk : 2 ≤ k) (last : Bool) {n : Nat} (hn : n < k)
    (bits : List Bool) : destuffBits k last n (stuffBits k last n bits) = bits := by
  induction bits generalizing last n with
  | nil => rfl
  | cons b bits ih =>
    rw [stuffBits]
    by_cases hlast : b = last
    · subst hlast
      by_cases hfull : n + 1 = k
      · rw [if_pos rfl, if_pos hfull, destuffBits, if_pos rfl, if_pos hfull, ih (!b) (by omega)]
      · rw [if_pos rfl, if_neg hfull, destuffBits_cons_same hfull, ih b (by omega)]
    · rw [if_neg hlast, destuffBits_cons_other hlast, ih b (by omega)]

/-! ### Runs -/

/-- The run under way does not grow beyond `k`. -/
theorem le_of_replicate_prefix_stuffBits {last : Bool} {n m : Nat} (hn : n < k)
    {bits : List Bool} (h : List.replicate m last <+: stuffBits k last n bits) : n + m ≤ k := by
  induction bits generalizing n m with
  | nil =>
    have hm : m = 0 := by simpa [stuffBits] using h
    omega
  | cons b bits ih =>
    cases m with
    | zero => omega
    | succ m =>
      rw [stuffBits, List.replicate_succ] at h
      by_cases hlast : b = last
      · subst hlast
        by_cases hfull : n + 1 = k
        · rw [if_pos rfl, if_pos hfull, List.cons_prefix_cons] at h
          cases m with
          | zero => omega
          | succ m =>
            rw [List.replicate_succ, List.cons_prefix_cons] at h
            simp at h
        · rw [if_pos rfl, if_neg hfull, List.cons_prefix_cons] at h
          have hrest := ih (by omega) h.2
          omega
      · rw [if_neg hlast, List.cons_prefix_cons] at h
        exact absurd h.1.symm hlast

/-- **No run is longer than `k`.** -/
theorem not_replicate_infix_stuffBits (hk : 2 ≤ k) (last : Bool) {n : Nat} (hn : n < k)
    (bits : List Bool) (v : Bool) :
    ¬ List.replicate (k + 1) v <:+: stuffBits k last n bits := by
  induction bits generalizing last n with
  | nil => simp [stuffBits]
  | cons b bits ih =>
    rw [stuffBits]
    by_cases hlast : b = last
    · subst hlast
      by_cases hfull : n + 1 = k
      · rw [if_pos rfl, if_pos hfull, List.infix_cons_iff, List.infix_cons_iff]
        rintro (h | h | h)
        · -- the inverse bit ends this run
          obtain ⟨k, rfl⟩ := Nat.exists_eq_add_of_le' hk
          rw [List.replicate_succ, List.replicate_succ, List.cons_prefix_cons,
            List.cons_prefix_cons] at h
          simp [h.1] at h
        · rw [List.replicate_succ, List.cons_prefix_cons] at h
          obtain ⟨rfl, h⟩ := h
          have hrun := le_of_replicate_prefix_stuffBits (by omega) h
          omega
        · exact ih (!b) (by omega) h
      · rw [if_pos rfl, if_neg hfull, List.infix_cons_iff]
        rintro (h | h)
        · rw [List.replicate_succ, List.cons_prefix_cons] at h
          obtain ⟨rfl, h⟩ := h
          have hrun := le_of_replicate_prefix_stuffBits (by omega) h
          omega
        · exact ih b (by omega) h
    · rw [if_neg hlast, List.infix_cons_iff]
      rintro (h | h)
      · rw [List.replicate_succ, List.cons_prefix_cons] at h
        obtain ⟨rfl, h⟩ := h
        have hrun := le_of_replicate_prefix_stuffBits (by omega) h
        omega
      · exact ih b (by omega) h

/-! ### Length -/

theorem le_length_stuffBits (last : Bool) (n : Nat) (bits : List Bool) :
    bits.length ≤ (stuffBits k last n bits).length := by
  induction bits generalizing last n with
  | nil => exact le_rfl
  | cons b bits ih =>
    rw [stuffBits]
    split
    · split
      · exact Nat.succ_le_succ (Nat.le_succ_of_le (ih (!b) 1))
      · exact Nat.succ_le_succ (ih last (n + 1))
    · exact Nat.succ_le_succ (ih b 1)

/-- Each inserted bit uses up a run of `k`, of which its predecessor was the first. -/
theorem mul_length_stuffBits (hk : 2 ≤ k) (last : Bool) {n : Nat} (hn : 1 ≤ n)
    (bits : List Bool) :
    (k - 1) * (stuffBits k last n bits).length + 1 ≤ k * bits.length + n := by
  obtain ⟨k, rfl⟩ := Nat.exists_eq_add_of_le' hk
  induction bits generalizing last n with
  | nil => simpa [stuffBits] using hn
  | cons b bits ih =>
    have hinverse := ih (!b) le_rfl
    have hsame := ih last (Nat.le_succ_of_le hn)
    have hother := ih b le_rfl
    rw [stuffBits]
    split
    · split
      · simp only [List.length_cons]
        grind
      · simp only [List.length_cons]
        grind
    · simp only [List.length_cons]
      grind

/-- **A stuffed sequence is longer by at most one bit for every `k - 1` after the first.** -/
theorem length_stuffBits_le (hk : 2 ≤ k) (last : Bool) (b : Bool) (bits : List Bool) :
    (stuffBits k last 0 (b :: bits)).length ≤ bits.length + 1 + bits.length / (k - 1) := by
  have hmul := mul_length_stuffBits hk b le_rfl bits
  have hsplit : k * bits.length = (k - 1) * bits.length + bits.length := by
    obtain ⟨j, rfl⟩ : ∃ j, k = j + 1 := ⟨k - 1, by omega⟩
    exact Nat.succ_mul j bits.length
  have hquot : (stuffBits k b 1 bits).length - bits.length ≤ bits.length / (k - 1) := by
    rw [Nat.le_div_iff_mul_le (by omega), Nat.sub_mul, Nat.mul_comm, Nat.mul_comm bits.length]
    omega
  rw [stuffBits_head hk, List.length_cons]
  omega

end Testbench.Lib
