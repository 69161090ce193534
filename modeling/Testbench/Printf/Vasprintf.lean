import Mathlib
import Testbench.Printf.Buffer

/-!
`vasprintf` (`mpsoc/testcase/sw/lib/newlib_wrap/vasprintf.c`).

The text is formatted into larger and larger buffers until it fits, each time from the same
`va_list`, of which no copy is made. Where a `va_list` is passed by value that is the same list
of arguments again; where it is an array the arguments are used up in the first turn. `after`
is what is left of them. `vasprintf_returns` says how many allocations it takes, what is
returned, and how many buffers stay allocated: one, also where the text is empty and nobody
gets to know of it.
-/

namespace Testbench.Printf

/-- `CHUNKSIZE` -/
def chunkSize : Nat := 256

/-- `-ENOMEM` -/
def enomem : Int := -12

/-- The allocations that were asked for, and the blocks that are not free. -/
structure Heap where
  calls : Nat := 0
  live : Nat := 0
  deriving DecidableEq

/-- What `vasprintf` leaves: the string `*ret` points to, its result and the heap. -/
structure Formatted where
  ret : Option (List Char)
  value : Int
  heap : Heap
  deriving DecidableEq

section Code

variable {target : Target} (alloc : Nat → Bool) (fresh : Nat → Memory)
  (after : List (Arg target) → List (Arg target))

/-- `malloc`, as the allocator has it. -/
def Heap.malloc (heap : Heap) : Bool × Heap :=
  if alloc heap.calls then (true, { calls := heap.calls + 1, live := heap.live + 1 })
  else (false, { heap with calls := heap.calls + 1 })

/-- `free` -/
def Heap.free (heap : Heap) : Heap := { heap with live := heap.live - 1 }

/-- The size of the next buffer. -/
def nextSize (chunks : Nat) (len : Int) : Nat :=
  let buflen := chunks * chunkSize
  if 0 ≤ len ∧ buflen ≤ len.toNat then len.toNat + 1 else buflen

/-- `*ret = strdup(buf)` and what comes with it. -/
def strip (heap : Heap) (buf : List Char) (len : Int) : Formatted :=
  if 0 < len then
    let (ok, heap) := heap.malloc alloc
    { ret := some buf, value := len, heap := if ok then heap.free else heap }
  else { ret := none, value := len, heap }

/-- The loop of `vasprintf`, in at most this many turns. -/
def vasprintfLoop (format : List Char) :
    List (Arg target) → Nat → Nat → Nat → Heap → Option Formatted
  | _, 0, _, _, _ => none
  | args, fuel + 1, chunks, buflen, heap =>
      match heap.malloc alloc with
      | (false, heap') => some { ret := none, value := enomem, heap := heap' }
      | (true, heap') =>
          match snprintf (some (fresh heap.calls)) buflen format args with
          | some (some buf, len) =>
              if 0 ≤ len ∧ len.toNat < buflen - 1 then
                some (strip alloc heap' (cString buf buflen) len)
              else
                vasprintfLoop format (after args) fuel (chunks + 1) (nextSize (chunks + 1) len)
                  heap'.free
          | _ => none

/-- The chunks `vasprintf` starts with. -/
def firstChunks (format : List Char) : Nat := (format.length + 1) / chunkSize + 1

/-- `vasprintf` -/
def vasprintf (format : List Char) (args : List (Arg target)) (fuel : Nat) : Option Formatted :=
  let chunks := firstChunks format
  vasprintfLoop alloc fresh after format args fuel chunks (chunks * chunkSize) {}

end Code

/-! ### The loop -/

/-- The chunks a text needs: the loop asks for one character more than the text takes. -/
def chunksFor (length : Nat) : Nat := (length + 2 + (chunkSize - 1)) / chunkSize

/-- The turns `vasprintf` makes when nothing is refused. -/
def turns (format : List Char) (length : Nat) : Nat :=
  chunksFor length - firstChunks format + 1

/-- What a text leaves after this many calls for a buffer. -/
def formatted (text : List Char) (calls : Nat) : Formatted :=
  { ret := if text = [] then none else some (text.takeWhile (· ≠ null))
    value := text.length
    heap := { calls := calls + if text = [] then 0 else 1, live := 1 } }

section Loop

variable {text : List Char} (hlength : text.length < 2 ^ 31)
include hlength

theorem toInt_length : toInt text.length = text.length := by
  unfold toInt
  rw [BitVec.toInt_eq_toNat_of_lt] <;> rw [BitVec.toNat_ofNat, Nat.mod_eq_of_lt (by omega)]
  omega

omit hlength in
/-- A buffer is large enough once it has the chunks. -/
theorem fits_iff {chunks buflen : Nat}
    (hbuflen : buflen = chunks * chunkSize ∨ buflen = max (chunks * chunkSize) (text.length + 1)) :
    text.length < buflen - 1 ↔ chunksFor text.length ≤ chunks := by
  unfold chunksFor chunkSize at *
  omega

omit hlength in
theorem nextSize_eq (chunks : Nat) :
    nextSize chunks text.length = max (chunks * chunkSize) (text.length + 1) := by
  unfold nextSize
  dsimp only
  split_ifs <;> omega

variable {target : Target} {alloc : Nat → Bool} (fresh : Nat → Memory)
  (after : List (Arg target) → List (Arg target)) {format : List Char} {args : List (Arg target)}
  (htext : vsnprintf format args = some text)
  {chunks buflen : Nat}
  (hbuflen : buflen = chunks * chunkSize ∨ buflen = max (chunks * chunkSize) (text.length + 1))
include htext hbuflen

/-- The turn in which the buffer is large enough. -/
theorem vasprintfLoop_fits {calls : Nat} (hcalls : alloc calls = true) (fuel : Nat)
    (hfits : chunksFor text.length ≤ chunks) :
    vasprintfLoop alloc fresh after format args (fuel + 1) chunks buflen { calls } =
      some (formatted text (calls + 1)) := by
  obtain ⟨memory, hsnprintf, _, _, hread, _⟩ := snprintf_read htext (fresh calls) buflen
  have hroom := (fits_iff hbuflen).mpr hfits
  have hstring : cString memory buflen = text.takeWhile (· ≠ null) := by
    rw [hread (by omega), List.take_of_length_le (by omega)]
  rw [toInt_length hlength] at hsnprintf
  have hmalloc : Heap.malloc alloc { calls } = (true, { calls := calls + 1, live := 1 }) := by
    simp [Heap.malloc, hcalls]
  have hbreak : (0 : Int) ≤ text.length ∧ (text.length : Int).toNat < buflen - 1 :=
    ⟨Int.natCast_nonneg _, by simpa using hroom⟩
  simp only [vasprintfLoop, hmalloc, hsnprintf, if_pos hbreak, hstring, strip]
  by_cases hempty : text = []
  · simp [hempty, formatted]
  · have hpos : (0 : Int) < text.length := by
      exact_mod_cast List.length_pos_iff.mpr hempty
    rw [if_pos hpos]
    cases hok : alloc (calls + 1) <;> simp [Heap.malloc, Heap.free, hok, hempty, formatted]

/-- A turn in which it is not. -/
theorem vasprintfLoop_grows {calls : Nat} (hcalls : alloc calls = true) (fuel : Nat)
    (hshort : chunks < chunksFor text.length) :
    vasprintfLoop alloc fresh after format args (fuel + 1) chunks buflen { calls } =
      vasprintfLoop alloc fresh after format (after args) fuel (chunks + 1)
        (max ((chunks + 1) * chunkSize) (text.length + 1)) { calls := calls + 1 } := by
  obtain ⟨memory, hsnprintf, _⟩ := snprintf_read htext (fresh calls) buflen
  have hroom := (fits_iff hbuflen).not.mpr (by omega)
  rw [toInt_length hlength] at hsnprintf
  have hmalloc : Heap.malloc alloc { calls } = (true, { calls := calls + 1, live := 1 }) := by
    simp [Heap.malloc, hcalls]
  have hbreak : ¬ ((0 : Int) ≤ text.length ∧ (text.length : Int).toNat < buflen - 1) := by
    simpa using hroom
  simp only [vasprintfLoop, hmalloc, hsnprintf, if_neg hbreak, nextSize_eq, Heap.free]

omit htext hbuflen hlength in
/-- A turn that gets no buffer. -/
theorem vasprintfLoop_refused {calls : Nat} (hcalls : alloc calls = false) (fuel : Nat) :
    vasprintfLoop alloc fresh after format args (fuel + 1) chunks buflen { calls } =
      some { ret := none, value := enomem, heap := { calls := calls + 1, live := 0 } } := by
  have hmalloc : Heap.malloc alloc { calls } = (false, { calls := calls + 1, live := 0 }) := by
    simp [Heap.malloc, hcalls]
  simp only [vasprintfLoop, hmalloc]

/-- As long as buffers are granted the loop goes on to the one that is large enough. -/
theorem vasprintfLoop_granted (hafter : after args = args ∨ chunksFor text.length ≤ chunks)
    (calls : Nat) {fuel : Nat}
    (hfuel : chunksFor text.length - chunks < fuel)
    (hcalls : ∀ i ≤ chunksFor text.length - chunks, alloc (calls + i) = true) :
    vasprintfLoop alloc fresh after format args fuel chunks buflen { calls } =
      some (formatted text (calls + (chunksFor text.length - chunks) + 1)) := by
  induction fuel generalizing chunks buflen calls with
  | zero => omega
  | succ fuel ih =>
    have hfirst : alloc calls = true := hcalls 0 (Nat.zero_le _)
    rcases Nat.lt_or_ge chunks (chunksFor text.length) with hshort | hfits
    · have hturns : chunksFor text.length - (chunks + 1) < fuel := by omega
      have hnext : ∀ i ≤ chunksFor text.length - (chunks + 1),
          alloc (calls + 1 + i) = true := by
        intro i hi
        rw [Nat.add_assoc, Nat.add_comm 1]
        exact hcalls (i + 1) (by omega)
      have hsame := hafter.resolve_right (by omega)
      have hrest := ih (.inr rfl) (.inl hsame) (calls + 1) hturns hnext
      rw [vasprintfLoop_grows hlength fresh after htext hbuflen hfirst fuel hshort, hsame, hrest]
      congr 2
      omega
    · rw [vasprintfLoop_fits hlength fresh after htext hbuflen hfirst fuel hfits,
        Nat.sub_eq_zero_of_le hfits, Nat.add_zero]

/-- The first buffer that is refused ends the loop. -/
theorem vasprintfLoop_fails (hafter : after args = args ∨ chunksFor text.length ≤ chunks)
    (calls : Nat) {fuel k : Nat} (hk : k ≤ chunksFor text.length - chunks) (hfuel : k < fuel)
    (hgranted : ∀ i < k, alloc (calls + i) = true)
    (hrefused : alloc (calls + k) = false) :
    vasprintfLoop alloc fresh after format args fuel chunks buflen { calls } =
      some { ret := none, value := enomem, heap := { calls := calls + k + 1, live := 0 } } := by
  induction fuel generalizing chunks buflen calls k with
  | zero => omega
  | succ fuel ih =>
    cases k with
    | zero => exact vasprintfLoop_refused fresh after hrefused fuel
    | succ k =>
      have hfirst : alloc calls = true := hgranted 0 (Nat.succ_pos _)
      have hcalls : ∀ i, calls + 1 + i = calls + (i + 1) := fun i => by omega
      have hlast : k ≤ chunksFor text.length - (chunks + 1) := by omega
      have hsame := hafter.resolve_right (by omega)
      have hrest := ih (.inr rfl) (.inl hsame) (calls + 1) hlast (by omega)
        (fun i hi => by rw [hcalls]; exact hgranted (i + 1) (by omega))
        (by rw [hcalls]; exact hrefused)
      rw [vasprintfLoop_grows hlength fresh after htext hbuflen hfirst fuel (by omega), hsame,
        hrest, hcalls]

end Loop

/-- **What `vasprintf` returns, whatever the allocator grants**, where a `va_list` is passed by
value or the first buffer is large enough. A text is returned up to its first null character
once all its buffers are granted, and one of them stays allocated, even where the text is empty
and no pointer to it is returned; the first refusal ends the call with nothing allocated. -/
theorem vasprintf_returns {target : Target} (fresh : Nat → Memory)
    (after : List (Arg target) → List (Arg target)) {format : List Char} {args : List (Arg target)}
    {text : List Char} (htext : vsnprintf format args = some text)
    (hlength : text.length < 2 ^ 31) (hafter : after args = args ∨ turns format text.length ≤ 1)
    {fuel : Nat} (hfuel : turns format text.length ≤ fuel) (alloc : Nat → Bool) :
    ((∀ i < turns format text.length, alloc i = true) →
      vasprintf alloc fresh after format args fuel =
        some (formatted text (turns format text.length))) ∧
    ∀ k < turns format text.length, (∀ i < k, alloc i = true) → alloc k = false →
      vasprintf alloc fresh after format args fuel =
        some { ret := none, value := enomem, heap := { calls := k + 1, live := 0 } } := by
  unfold turns vasprintf at *
  have hsame : after args = args ∨ chunksFor text.length ≤ firstChunks format :=
    hafter.imp_right fun h => by omega
  constructor
  · intro hall
    have hcalls : ∀ i ≤ chunksFor text.length - firstChunks format, alloc (0 + i) = true := by
      intro i hi
      rw [Nat.zero_add]
      exact hall i (by omega)
    simpa only [Nat.zero_add] using
      vasprintfLoop_granted hlength fresh after htext (.inl rfl) hsame 0 hfuel hcalls
  · intro k hk hgranted hrefused
    have hcalls : ∀ i < k, alloc (0 + i) = true := by
      intro i hi
      rw [Nat.zero_add]
      exact hgranted i hi
    have hlast : k ≤ chunksFor text.length - firstChunks format := by omega
    have hrefused : alloc (0 + k) = false := by rwa [Nat.zero_add]
    simpa only [Nat.zero_add] using
      vasprintfLoop_fails hlength fresh after htext (.inl rfl) hsame 0 hlast (by omega) hcalls
        hrefused

/-- The empty text leaves a buffer that nothing points to, also where the arguments are used up
by the first turn. -/
theorem vasprintf_empty :
    vasprintf (fun _ => true) (fun _ _ => null) (fun _ => []) ['%', 's']
        [(.str [] : Arg target32)] 1 =
      some { ret := none, value := 0, heap := { calls := 1, live := 1 } } := by
  have htext : vsnprintf ['%', 's'] [(.str [] : Arg target32)] = some [] := by decide
  exact (vasprintf_returns (fun _ _ => null) (fun _ => []) htext (by decide) (.inr (by decide))
    (by decide) _).1 (fun _ _ => rfl)

end Testbench.Printf
