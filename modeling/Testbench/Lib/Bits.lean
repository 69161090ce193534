import Mathlib

/-!
Packed vectors, bit by bit and as bit streams.

A serializer walks a vector from its most significant bit down; the matching
parser assigns the bits of a stream to the same positions. `readBits_bitsDown`
says the second walk undoes the first: it replaces exactly the bits the first
one emitted and leaves the rest of the stream alone. The parser may run off the
end of the stream, in which case the remaining positions keep their old value.
-/

namespace Testbench.Lib

variable {w v : Nat}

/-- Assignment to one bit of a packed vector, `x[i] = b`. An index past the end
assigns nothing. -/
def setBit (x : BitVec w) (i : Nat) (b : Bool) : BitVec w :=
  if b then x ||| BitVec.twoPow w i else x &&& ~~~BitVec.twoPow w i

theorem getLsbD_setBit (x : BitVec w) (i j : Nat) (b : Bool) (hj : j < w) :
    (setBit x i b).getLsbD j = if j = i then b else x.getLsbD j := by
  unfold setBit
  by_cases h : j = i
  · subst h
    cases b <;> simp [hj]
  · cases b <;> simp [h, hj]

theorem getLsbD_setBit_self {x : BitVec w} {i : Nat} {b : Bool} (hi : i < w) :
    (setBit x i b).getLsbD i = b := by
  rw [getLsbD_setBit x i i b hi, if_pos rfl]

/-- A vector has no bit outside a mask iff its bits outside are zero. -/
theorem and_not_eq_zero_iff {x mask : BitVec w} :
    x &&& ~~~mask = 0 ↔ ∀ i : Fin w, mask.getLsbD i = false → x.getLsbD i = false := by
  constructor
  · intro h i hi
    have hbit : (x &&& ~~~mask).getLsbD i = false := by rw [h]; exact BitVec.getLsbD_zero
    rw [BitVec.getLsbD_and, BitVec.getLsbD_not, hi] at hbit
    simpa using hbit
  · intro h
    apply BitVec.eq_of_getLsbD_eq
    intro i hi
    cases hmask : mask.getLsbD i with
    | true => simp [hmask]
    | false => simp [h ⟨i, hi⟩ hmask]

/-- Such a vector is its own restriction to the mask. -/
theorem and_eq_self_of_and_not {x mask : BitVec w} (h : x &&& ~~~mask = 0) : x &&& mask = x := by
  apply BitVec.eq_of_getLsbD_eq
  intro i hi
  cases hmask : mask.getLsbD i with
  | true => simp [hmask]
  | false => simp [hmask, and_not_eq_zero_iff.mp h ⟨i, hi⟩ hmask]

/-! ### Serializing and reading back -/

/-- Bits `lo + n - 1` down to `lo` of `x`, most significant first. -/
def bitsDown (x : BitVec w) (lo : Nat) : Nat → List Bool
  | 0 => []
  | n + 1 => x.getLsbD (lo + n) :: bitsDown x lo n

@[simp] theorem length_bitsDown (x : BitVec w) (lo n : Nat) : (bitsDown x lo n).length = n := by
  induction n with
  | zero => rfl
  | succ n ih => simp [bitsDown, ih]

/-- A wider copy of a vector serializes alike as far as it reaches. -/
theorem bitsDown_setWidth (x : BitVec w) {lo n : Nat} (h : lo + n ≤ v) :
    bitsDown (x.setWidth v) lo n = bitsDown x lo n := by
  induction n with
  | zero => rfl
  | succ n ih =>
    have hbit : lo + n < v := by omega
    rw [bitsDown, bitsDown, ih (by omega), BitVec.getLsbD_setWidth, decide_eq_true hbit,
      Bool.true_and]

/-- The loop that assigns bits `n - 1` down to `0` of `x` from a stream, stopping
where the stream ends. Returns the vector and what is left of the stream. -/
def readBits : Nat → BitVec w → List Bool → BitVec w × List Bool
  | 0, x, stream => (x, stream)
  | _ + 1, x, [] => (x, [])
  | n + 1, x, b :: stream => readBits n (setBit x n b) stream

theorem readBits_nil (n : Nat) (x : BitVec w) : readBits n x [] = (x, []) := by
  cases n <;> rfl

/-- One more bit of a stream that ends early goes to the next position. -/
theorem readBits_concat {n : Nat} (x : BitVec w) {bits : List Bool} (b : Bool)
    (h : bits.length < n) : (readBits n x (bits ++ [b])).1 =
      setBit (readBits n x bits).1 (n - 1 - bits.length) b := by
  induction bits generalizing n x with
  | nil =>
    obtain ⟨n, rfl⟩ := Nat.exists_eq_succ_of_ne_zero (Nat.ne_of_gt h)
    change (readBits n (setBit x n b) []).1 = setBit x n b
    rw [readBits_nil]
  | cons bit bits ih =>
    obtain ⟨n, rfl⟩ := Nat.exists_eq_succ_of_ne_zero (Nat.ne_of_gt (Nat.zero_lt_of_lt h))
    rw [List.length_cons] at h
    change (readBits n (setBit x n bit) (bits ++ [b])).1 =
      setBit (readBits n (setBit x n bit) bits).1 (n + 1 - 1 - (bits.length + 1)) b
    rw [ih _ (Nat.lt_of_succ_lt_succ h)]
    congr 1
    omega

/-- Reading `n` bits off a stream that starts with `n` serialized ones leaves the
rest of the stream. -/
theorem readBits_bitsDown_rest (x : BitVec w) (y : BitVec v) (lo n : Nat) (rest : List Bool) :
    (readBits n x (bitsDown y lo n ++ rest)).2 = rest := by
  induction n generalizing x with
  | zero => rfl
  | succ n ih => exact ih _

/-- Reading back replaces the low `n` bits by the serialized ones and no others. -/
theorem getLsbD_readBits_bitsDown (x : BitVec w) (y : BitVec v) (lo n : Nat) (rest : List Bool)
    {i : Nat} (hi : i < w) :
    (readBits n x (bitsDown y lo n ++ rest)).1.getLsbD i =
      if i < n then y.getLsbD (lo + i) else x.getLsbD i := by
  induction n generalizing x with
  | zero => simp [readBits, bitsDown]
  | succ n ih =>
    show (readBits n (setBit x n (y.getLsbD (lo + n))) (bitsDown y lo n ++ rest)).1.getLsbD i = _
    rw [ih, getLsbD_setBit x n i _ hi]
    by_cases hlt : i < n
    · simp [hlt, Nat.lt_succ_of_lt hlt]
    · by_cases heq : i = n
      · simp [heq]
      · have : ¬ i < n + 1 := by omega
        simp [hlt, heq, this]

/-- A whole vector survives the round trip, whatever was in the target before. -/
theorem readBits_bitsDown (x y : BitVec w) (rest : List Bool) :
    readBits w x (bitsDown y 0 w ++ rest) = (y, rest) := by
  refine Prod.ext ?_ (readBits_bitsDown_rest x y 0 w rest)
  apply BitVec.eq_of_getLsbD_eq
  intro i hi
  rw [getLsbD_readBits_bitsDown x y 0 w rest hi]
  simp [hi]

end Testbench.Lib
