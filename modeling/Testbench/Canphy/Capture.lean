import Testbench.Lib.RunLength
import Testbench.Canphy.Stuffing

/-!
`monitor_rx_bus` and `capture_frame` of `canphy_monitor`
(`canfd/uvc/canphy/canphy_monitor.sv`) on frames of the shape `drive_can_frame` emits.

`Monitor.step` is what the task does at one clock edge. With a bit time of whole clock
cycles it samples each bit once (`run_step_bits`), so a run is one over bits. It queues
bits up to the first seven recessive ones in a row or the limit of 201 (`Stops`), and the
frame is complete iff neither comes before its CRC delimiter (`captures_iff`).
-/

namespace Testbench.Canphy

open Testbench.Lib

/-- The variables of `capture_frame`. -/
structure Capture where
  bitQueue : List Bool := [false]
  consecutiveRecessive : Nat := 0
  i : Nat := 0

/-- `max_bits`. -/
def maxBits : Nat := 200

/-- One iteration of the sampling loop. -/
def Capture.sample (c : Capture) (x : Bool) : Capture where
  bitQueue := c.bitQueue ++ [x]
  consecutiveRecessive := if x then c.consecutiveRecessive + 1 else 0
  i := c.i + 1

/-- The loop ends after this iteration. -/
def Capture.done (c : Capture) : Bool := 7 ≤ c.consecutiveRecessive || maxBits ≤ c.i

/-- Where the task stands between two clock edges: looking for SOF, or in `capture_frame`
with the edges left until the next sample. -/
inductive MonitorPhase where
  | watch (prevRx : Bool)
  | capture (c : Capture) (wait : Nat)

/-- `monitor_rx_bus` and the queues it has passed to `parse_frame`. -/
structure Monitor where
  phase : MonitorPhase := .watch true
  parsed : List (List Bool) := []

/-- `parse_frame` is called, and `prev_rx` takes the level of this edge. -/
def Monitor.finish (m : Monitor) (c : Capture) (x : Bool) : Monitor where
  phase := .watch x
  parsed := m.parsed ++ [c.bitQueue]

/-- One clock edge at which the bus has the level `x`. -/
def Monitor.step (cyclesPerBit : Nat) (m : Monitor) (x : Bool) : Monitor :=
  match m.phase with
  | .watch prevRx =>
      if prevRx && !x then
        -- without cycles to wait for, all samples are taken at once
        if cyclesPerBit = 0 then m.finish ((List.replicate maxBits x).foldl Capture.sample {}) x
        else { m with phase := .capture {} cyclesPerBit }
      else { m with phase := .watch x }
  | .capture c wait =>
      if wait ≤ 1 then
        if (c.sample x).done then m.finish (c.sample x) x
        else { m with phase := .capture (c.sample x) cyclesPerBit }
      else { m with phase := .capture c (wait - 1) }

/-- `bit_time / 20`, as the count of a `repeat`. -/
def cyclesPerBit (bitTimeNs : Int) : Nat := (bitTimeNs.tdiv 20).toNat

/-- `cycles_per_bit` of `drive_bit`. -/
def driveCycles (bitTimeNs : Int) : Nat := max 1 (cyclesPerBit bitTimeNs)

/-! ### Frames on the bus -/

/-- A well-formed frame and the CRC bits sent with it. -/
structure DrivenFrame where
  tr : FrameTrans
  crc : List Bool
  width : crc.length = crcWidth tr.fdf

namespace DrivenFrame

variable (f : DrivenFrame)

/-- SOF to the last CRC bit: the stuffed fields and the CRC, which is not stuffed. -/
def body : List Bool := stuffAssigns (bitStreamValues f.tr.toCanphyTrans) ++ f.crc

/-- SOF to the CRC delimiter. -/
def upToDelimiter : List Bool := f.body ++ [true]

/-- The whole frame: ACK slot, ACK delimiter and EOF follow. -/
def bits : List Bool := f.upToDelimiter ++ [true, true] ++ List.replicate 7 true

/-- The levels at the clock edges: an idle bus, the frame, and at least three recessive
bits. -/
def levels (bitTimeNs : Int) (idle after : Nat) : List Bool :=
  List.replicate idle true ++
    (f.bits ++ List.replicate (3 + after) true).flatMap (List.replicate (driveCycles bitTimeNs))

/-- The frame is passed to `parse_frame` once, and complete. -/
def Captured (bitTimeNs : Int) (idle after : Nat) : Prop :=
  ∃ q, (run (Monitor.step (cyclesPerBit bitTimeNs)) {}
    (f.levels bitTimeNs idle after)).parsed = [q] ∧ f.upToDelimiter <+: q

end DrivenFrame

/-! ### Bit by bit -/

namespace Monitor

variable {k n : Nat} {m : Monitor} {x : Bool} {c : Capture}

/-- What the monitor does about one bit: `step` with a sample at every edge. -/
abbrev bit (m : Monitor) (x : Bool) : Monitor := m.step 1 x

/-- A sample, if one is under way, is due at the next edge. -/
def AtBit (m : Monitor) : Prop := ∀ c wait, m.phase = .capture c wait → wait = 1

theorem step_watch_same (h : m.phase = .watch x) : m.step k x = m := by
  cases m
  cases x <;> simp_all [step]

theorem step_watch_falling (h : m.phase = .watch true) :
    m.step (k + 1) false = { m with phase := .capture {} (k + 1) } := by
  simp [step, h]

theorem step_watch_other {prevRx : Bool} (h : m.phase = .watch prevRx)
    (hx : (prevRx && !x) = false) : m.step k x = { m with phase := .watch x } := by
  simp [step, h, hx]

theorem step_sample (h : m.phase = .capture c 1) :
    m.step k x = if (c.sample x).done then m.finish (c.sample x) x
      else { m with phase := .capture (c.sample x) k } := by
  simp [step, h]

/-- A steady bus shows no SOF. -/
theorem run_watch_same (h : m.phase = .watch x) : run (step k) m (List.replicate n x) = m := by
  induction n with
  | zero => rfl
  | succ n ih => rw [List.replicate_succ, run_cons, step_watch_same h, ih]

theorem run_idle (idle : Nat) (xs : List Bool) :
    run (step k) {} (List.replicate idle true ++ xs) = run (step k) {} xs := by
  rw [run_append, run_watch_same rfl]

/-- Waiting for the sample. -/
theorem run_wait (m : Monitor) :
    run (step k) { m with phase := .capture c (n + 1) } (List.replicate n x) =
      { m with phase := .capture c 1 } := by
  induction n with
  | zero => rfl
  | succ n ih =>
    rw [List.replicate_succ, run_cons, ← ih]
    congr 1

/-- The edges of one bit. -/
theorem run_step_bit (h : m.AtBit) :
    run (step (k + 1)) m (List.replicate (k + 1) x) = m.bit x := by
  rw [List.replicate_succ, run_cons]
  cases hphase : m.phase with
  | watch prevRx =>
    cases hsof : prevRx && !x with
    | false =>
      rw [bit, step_watch_other hphase hsof, step_watch_other hphase hsof]
      exact run_watch_same rfl
    | true =>
      obtain ⟨rfl, hx⟩ := Bool.and_eq_true_iff.mp hsof
      obtain rfl : x = false := by simpa using hx
      rw [bit, step_watch_falling hphase, step_watch_falling hphase]
      exact run_wait m
  | capture c wait =>
    obtain rfl := h c wait hphase
    rw [bit, step_sample hphase, step_sample hphase]
    cases hdone : (c.sample x).done with
    | false => exact run_wait m
    | true => exact run_watch_same rfl

theorem atBit_bit (h : m.AtBit) : (m.bit x).AtBit := by
  intro c' wait' hphase'
  unfold bit step at hphase'
  cases hphase : m.phase with
  | watch prevRx =>
    simp only [hphase, if_neg Nat.one_ne_zero] at hphase'
    split at hphase'
    · cases hphase'
      rfl
    · cases hphase'
  | capture c wait =>
    obtain rfl := h c wait hphase
    simp only [hphase, le_refl, if_true] at hphase'
    split at hphase'
    · cases hphase'
    · cases hphase'
      rfl

/-- **With whole clock cycles to a bit, the monitor sees each bit once.** -/
theorem run_step_bits (h : m.AtBit) (xs : List Bool) :
    run (step (k + 1)) m (xs.flatMap (List.replicate (k + 1))) = run bit m xs := by
  induction xs generalizing m with
  | nil => rfl
  | cons x xs ih => rw [List.flatMap_cons, run_append, run_step_bit h, ih (atBit_bit h), run_cons]

end Monitor

/-! ### The queue -/

/-- The loop has ended once the queue is this. -/
def Stops (q : List Bool) : Prop := 7 ≤ tailRun true q ∨ maxBits < q.length

/-- The variables of `capture_frame` are determined by the queue. -/
def Capture.ofQueue (q : List Bool) : Capture where
  bitQueue := q
  consecutiveRecessive := tailRun true q
  i := q.length - 1

theorem Capture.sample_ofQueue {q : List Bool} (hq : q ≠ []) (x : Bool) :
    (Capture.ofQueue q).sample x = Capture.ofQueue (q ++ [x]) := by
  have hlen : 0 < q.length := List.length_pos_iff.mpr hq
  simp only [Capture.sample, Capture.ofQueue, tailRun_concat, List.length_append,
    List.length_singleton, Capture.mk.injEq, true_and]
  omega

theorem Capture.done_ofQueue {q : List Bool} (hq : q ≠ []) :
    (Capture.ofQueue q).done = true ↔ Stops q := by
  have hlen : 0 < q.length := List.length_pos_iff.mpr hq
  unfold Capture.done Capture.ofQueue Stops
  rw [Bool.or_eq_true, decide_eq_true_iff, decide_eq_true_iff]
  dsimp only
  omega

namespace Monitor

variable {m : Monitor} {q : List Bool}

theorem bit_ofQueue (hq : q ≠ []) (h : m.phase = .capture (.ofQueue q) 1) (x : Bool) :
    (¬ Stops (q ++ [x]) → m.bit x = { m with phase := .capture (.ofQueue (q ++ [x])) 1 }) ∧
    (Stops (q ++ [x]) → m.bit x = ⟨.watch x, m.parsed ++ [q ++ [x]]⟩) := by
  rw [bit, step_sample h, Capture.sample_ofQueue hq, ← Capture.done_ofQueue (by simp)]
  constructor
  · intro hdone
    rw [if_neg hdone]
  · intro hdone
    rw [if_pos hdone]
    rfl

/-- The queue grows as long as no prefix stops the loop. -/
theorem run_bit_ofQueue (hq : q ≠ []) (h : m.phase = .capture (.ofQueue q) 1) {xs : List Bool}
    (hgo : ∀ p, p <+: q ++ xs → ¬ Stops p) :
    run bit m xs = { m with phase := .capture (.ofQueue (q ++ xs)) 1 } := by
  induction xs generalizing m q with
  | nil => rw [List.append_nil, ← h]; rfl
  | cons x xs ih =>
    have hsplit : q ++ x :: xs = q ++ [x] ++ xs := by simp
    rw [hsplit] at hgo ⊢
    have hx : ¬ Stops (q ++ [x]) := hgo _ (List.prefix_append _ _)
    rw [run_cons, (bit_ofQueue hq h x).1 hx, ih (by simp) rfl hgo]

/-- What was parsed stays. -/
theorem parsed_prefix_run (m : Monitor) (xs : List Bool) :
    m.parsed <+: (run bit m xs).parsed := by
  refine run_invariant (p := fun m' : Monitor => m.parsed <+: m'.parsed) ?_ (List.prefix_refl _) xs
  intro m' x hm
  refine hm.trans ?_
  unfold bit step finish
  simp only [if_neg Nat.one_ne_zero]
  split
  · split
    · exact List.prefix_refl _
    · exact List.prefix_refl _
  · split
    · split
      · exact List.prefix_append _ _
      · exact List.prefix_refl _
    · exact List.prefix_refl _

/-- A bus that is idle and then shows a frame: the first queue that stops the loop is
parsed first. -/
theorem run_bit_frame {idle : Nat} {p rest : List Bool} {x : Bool} (hsof : p.head? = some false)
    (hgo : ∀ q, q <+: p → ¬ Stops q) (hstop : Stops (p ++ [x])) :
    run bit {} (List.replicate idle true ++ (p ++ x :: rest)) =
      run bit ⟨.watch x, [p ++ [x]]⟩ rest := by
  obtain ⟨p, rfl⟩ : ∃ t, p = false :: t := by
    cases p with
    | nil => cases hsof
    | cons b t => exact ⟨t, by rw [Option.some.inj hsof]⟩
  have hstart : bit {} false = { phase := .capture (.ofQueue [false]) 1 } :=
    step_watch_falling rfl
  rw [run_append, run_watch_same rfl, List.cons_append, run_cons, hstart, run_append,
    run_bit_ofQueue (q := [false]) (by simp) rfl hgo, run_cons,
    (bit_ofQueue (by simp) rfl x).2 hstop]
  rfl

end Monitor

/-! ### The limit -/

/-- No queue, passed on or under way, is longer than the limit allows. -/
structure Monitor.Limited (m : Monitor) : Prop where
  parsed : ∀ q ∈ m.parsed, q.length ≤ maxBits + 1
  phase : ∀ c wait, m.phase = .capture c wait → c.bitQueue.length = c.i + 1 ∧ c.i < maxBits

theorem length_foldl_sample (c : Capture) (xs : List Bool) :
    (xs.foldl Capture.sample c).bitQueue.length = c.bitQueue.length + xs.length := by
  induction xs generalizing c with
  | nil => rfl
  | cons x xs ih =>
    rw [List.foldl_cons, ih, Capture.sample, List.length_append, List.length_singleton,
      List.length_cons, Nat.add_right_comm, Nat.add_assoc]

theorem Monitor.limited_finish {m : Monitor} {c : Capture} {x : Bool} (h : m.Limited)
    (hc : c.bitQueue.length ≤ maxBits + 1) : (m.finish c x).Limited where
  parsed q hq := by
    rcases List.mem_append.mp hq with hold | hnew
    · exact h.parsed q hold
    · rwa [List.mem_singleton.mp hnew]
  phase _ _ hphase := by cases hphase

theorem Monitor.limited_step (k : Nat) {m : Monitor} (x : Bool) (h : m.Limited) :
    (m.step k x).Limited := by
  unfold step
  cases hphase : m.phase with
  | watch prevRx =>
    simp only
    split
    · split
      · apply limited_finish h
        rw [length_foldl_sample, List.length_replicate, Nat.add_comm]
        exact le_rfl
      · refine ⟨h.parsed, fun c wait hc => ?_⟩
        cases hc
        exact ⟨rfl, by decide⟩
    · exact ⟨h.parsed, fun _ _ hc => by cases hc⟩
  | capture c wait =>
    obtain ⟨hlen, hi⟩ := h.phase c wait hphase
    have hsample : (c.sample x).bitQueue.length = (c.sample x).i + 1 := by
      simp [Capture.sample, hlen]
    simp only
    split
    · split
      · apply limited_finish h
        rw [hsample]
        exact Nat.succ_le_succ hi
      · next hdone =>
        refine ⟨h.parsed, fun c' wait' hc => ?_⟩
        cases hc
        simp only [Capture.done, Bool.or_eq_true, decide_eq_true_iff, not_or, not_le] at hdone
        exact ⟨hsample, hdone.2⟩
    · refine ⟨h.parsed, fun c' wait' hc => ?_⟩
      cases hc
      exact ⟨hlen, hi⟩

/-- **Whatever is on the bus, `parse_frame` gets at most 201 bits.** -/
theorem Monitor.limited_run (k : Nat) (xs : List Bool) : (run (step k) {} xs).Limited :=
  run_invariant (fun _ x h => limited_step k x h)
    ⟨fun _ hq => (List.not_mem_nil hq).elim, fun _ _ hc => by cases hc⟩ xs

/-! ### Which frames are captured -/

namespace DrivenFrame

variable (f : DrivenFrame)

theorem body_head : f.body.head? = some false := by
  unfold body
  rw [stuffAssigns_eq, bitStreamValues, List.append_assoc, List.append_assoc, List.append_assoc,
    List.singleton_append, stuffBits_head (by decide)]
  rfl

/-- From the CRC delimiter on the bus is recessive. -/
theorem bits_append (n : Nat) :
    f.bits ++ List.replicate (3 + n) true = f.body ++ List.replicate (13 + n) true := by
  have hones : List.replicate (13 + n) true =
      [true] ++ [true, true] ++ List.replicate 7 true ++ List.replicate (3 + n) true := by
    rw [show 13 + n = 10 + (3 + n) by omega, ← List.replicate_append_replicate]
    rfl
  rw [hones, bits, upToDelimiter]
  simp only [List.append_assoc]

theorem run_levels (c idle after : Nat) :
    run (Monitor.step (cyclesPerBit (20 * (c + 1)))) {} (f.levels (20 * (c + 1)) idle after) =
      run Monitor.bit {}
        (List.replicate idle true ++ (f.body ++ List.replicate (13 + after) true)) := by
  have hcycles : cyclesPerBit (20 * ((c : Int) + 1)) = c + 1 := by
    unfold cyclesPerBit
    rw [Int.mul_tdiv_cancel_left _ (by decide)]
    omega
  have hdrive : driveCycles (20 * ((c : Int) + 1)) = c + 1 := by
    rw [driveCycles, hcycles]
    omega
  have hatBit : Monitor.AtBit {} := fun _ _ h => by cases h
  rw [levels, hcycles, hdrive, bits_append, Monitor.run_idle, Monitor.run_step_bits hatBit,
    Monitor.run_idle]

variable {f}

theorem length_upToDelimiter : f.upToDelimiter.length = f.body.length + 1 := by
  simp [upToDelimiter]

/-- The first queue that stops the loop, where recessive bits follow the body. -/
structure FirstQueue (f : DrivenFrame) (after : Nat) (p : List Bool) (x : Bool)
    (rest : List Bool) : Prop where
  split : f.body ++ List.replicate (13 + after) true = p ++ x :: rest
  stops : Stops (p ++ [x])
  goes : ∀ q, q <+: p → ¬ Stops q

theorem exists_firstQueue (f : DrivenFrame) (after : Nat) :
    ∃ p x rest, FirstQueue f after p x rest := by
  have hfinal : Stops (f.body ++ List.replicate (13 + after) true) := by
    left
    rw [← replicate_suffix_iff]
    refine List.IsSuffix.trans ⟨List.replicate (6 + after) true, ?_⟩ (List.suffix_append _ _)
    rw [List.replicate_append_replicate, Nat.add_right_comm]
  obtain ⟨p, x, rest, hsplit, hstop, hgo⟩ :=
    exists_first_prefix (p := Stops) (by simp [Stops, maxBits]) hfinal
  exact ⟨p, x, rest, hsplit, hstop, hgo⟩

namespace FirstQueue

variable {after : Nat} {p rest : List Bool} {x : Bool} (h : FirstQueue f after p x rest)

include h

theorem head : p.head? = some false := by
  have hhead : (p ++ x :: rest).head? = some false := by
    rw [← h.split, List.head?_append, body_head]
    rfl
  cases p with
  | nil =>
    obtain rfl : x = false := Option.some.inj hhead
    exact absurd h.stops (by simp [Stops, tailRun, maxBits])
  | cons b p => exact hhead

theorem body_prefix (hlong : f.body.length ≤ p.length) : f.body <+: p :=
  List.prefix_of_prefix_length_le ⟨_, rfl⟩ ⟨x :: rest, h.split.symm⟩ hlong

theorem queue_prefix : p ++ [x] <+: f.body ++ List.replicate (13 + after) true :=
  ⟨rest, by rw [h.split]; simp⟩

/-- A body before the end of that queue stops the loop nowhere. -/
theorem fits (hbody : f.body <+: p) :
    f.upToDelimiter.length ≤ maxBits + 1 ∧ ¬ List.replicate 7 true <:+: f.body := by
  constructor
  · by_contra hgt
    rw [length_upToDelimiter] at hgt
    exact h.goes f.body hbody (Or.inr (by omega))
  · intro hseven
    obtain ⟨q, hq, hrun⟩ := replicate_infix_iff.mp hseven
    exact h.goes q (hq.trans hbody) (Or.inl hrun)

/-- A queue that ends in the body stops there for one of the two reasons. -/
theorem reaches_delimiter (hfits : f.upToDelimiter.length ≤ maxBits + 1)
    (hseven : ¬ List.replicate 7 true <:+: f.body) : f.upToDelimiter <+: p ++ [x] := by
  have hdelimiter : f.upToDelimiter <+: f.body ++ List.replicate (13 + after) true := by
    refine ⟨List.replicate (12 + after) true, ?_⟩
    rw [upToDelimiter, List.append_assoc, Nat.add_right_comm 12 1 after]
    rfl
  refine List.prefix_of_prefix_length_le hdelimiter h.queue_prefix ?_
  by_contra hshort
  rw [length_upToDelimiter] at hfits hshort
  have hbody : p ++ [x] <+: f.body :=
    List.prefix_of_prefix_length_le h.queue_prefix ⟨_, rfl⟩ (by omega)
  rcases h.stops with hrecessive | hfull
  · exact hseven (replicate_infix_iff.mpr ⟨_, hbody, hrecessive⟩)
  · have hle := hbody.length_le
    omega

/-- What is left behind the body is recessive. -/
theorem recessive (hbody : f.body <+: p) : x = true ∧ rest = List.replicate rest.length true := by
  obtain ⟨t, rfl⟩ := hbody
  have hones : List.replicate (13 + after) true = t ++ x :: rest := by
    have hsplit := h.split
    rw [List.append_assoc] at hsplit
    exact List.append_cancel_left hsplit
  have hlevel : ∀ y, y ∈ x :: rest → y = true := by
    intro y hy
    have hmem : y ∈ List.replicate (13 + after) true := by
      rw [hones]
      exact List.mem_append_right t hy
    exact List.eq_of_mem_replicate hmem
  exact ⟨hlevel x List.mem_cons_self,
    List.eq_replicate_iff.mpr ⟨rfl, fun y hy => hlevel y (List.mem_cons_of_mem _ hy)⟩⟩

/-- The rest of the stream meets a monitor that has handed that queue to `parse_frame`. -/
theorem run_levels (c idle : Nat) :
    run (Monitor.step (cyclesPerBit (20 * (c + 1)))) {} (f.levels (20 * (c + 1)) idle after) =
      run Monitor.bit ⟨.watch x, [p ++ [x]]⟩ rest := by
  rw [DrivenFrame.run_levels, h.split, Monitor.run_bit_frame h.head h.goes h.stops]

end FirstQueue

variable (f)

/-- **A frame is captured exactly when its bits fit into the queue and seven recessive ones
in a row do not occur before its CRC delimiter.** -/
theorem captured_iff (c idle after : Nat) :
    f.Captured (20 * (c + 1)) idle after ↔
      f.upToDelimiter.length ≤ maxBits + 1 ∧ ¬ List.replicate 7 true <:+: f.body := by
  obtain ⟨p, x, rest, hfirst⟩ := exists_firstQueue f after
  unfold Captured
  rw [hfirst.run_levels]
  constructor
  · rintro ⟨q, hparsed, hcomplete⟩
    have hprefix : [p ++ [x]] <+: [q] := by
      rw [← hparsed]
      exact Monitor.parsed_prefix_run ⟨.watch x, [p ++ [x]]⟩ rest
    obtain rfl : p ++ [x] = q := by simpa using hprefix
    have hle := hcomplete.length_le
    rw [length_upToDelimiter, List.length_append, List.length_singleton] at hle
    exact hfirst.fits (hfirst.body_prefix (by omega))
  · rintro ⟨hfits, hseven⟩
    have hcomplete := hfirst.reaches_delimiter hfits hseven
    have hle := hcomplete.length_le
    rw [length_upToDelimiter, List.length_append, List.length_singleton] at hle
    obtain ⟨rfl, hrest⟩ := hfirst.recessive (hfirst.body_prefix (by omega))
    refine ⟨p ++ [true], ?_, hcomplete⟩
    rw [hrest, Monitor.run_watch_same rfl]

end DrivenFrame

/-- A standard FD frame with 24 payload bytes. -/
def fd24Trans : FrameTrans where
  frameType := .canfdStd
  canId := 0x123
  dlc := 12
  fdf := true
  data := List.replicate 24 (some 0x5A)
  dataOrRemote := rfl
  consistent := by decide +kernel
  sized := by decide
  known := by simp

/-- The frame with the CRC the driver computes for it. -/
def fd24Frame : DrivenFrame where
  tr := fd24Trans
  crc := crcValues (bitStreamValues fd24Trans.toCanphyTrans) fd24Trans.fdf
  width := length_bitsDown _ _ _

/-- It has 232 bits before the end of its CRC delimiter. -/
theorem fd24Frame_not_captured : ¬ fd24Frame.Captured 1200 10 0 := by
  rintro ⟨q, hparsed, hcomplete⟩
  have hlimit := (Monitor.limited_run _ _).parsed q (by rw [hparsed]; simp)
  have hlong : maxBits + 1 < fd24Frame.upToDelimiter.length := by decide +kernel
  exact absurd hcomplete.length_le (by omega)

end Testbench.Canphy
