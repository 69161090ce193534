import Testbench.Canphy.Burst
import Testbench.Lib.Lists

/-!
A session on `can_phy_rx`: `main_phase` and `drive_frame` of `canphy_driver`
(`canfd/uvc/canphy/canphy_driver.sv`) at one end of the line, the RX thread of
`canphy_monitor` (`canfd/uvc/canphy/canphy_monitor.sv`) at the other.

A driven frame reaches the line as one burst. When the next frame leaves the monitor the
time to end its capture, it publishes one blank frame for each data or remote frame and
nothing for an error or overload frame (`published_session`).
-/

namespace Testbench.Canphy

open Testbench.Lib

/-! ### The driver -/

/-- `drive_error_frame`: six dominant bits and the delimiter. -/
def driveErrorFrame (cfg : CanphyConfig) : List (Bool × Int) :=
  List.replicate 6 (false, cfg.bitTimeNs) ++ List.replicate 8 (true, cfg.bitTimeNs)

/-- `drive_overload_frame`. -/
def driveOverloadFrame (cfg : CanphyConfig) : List (Bool × Int) :=
  List.replicate 6 (false, cfg.bitTimeNs) ++ List.replicate 8 (true, cfg.bitTimeNs)

/-- The calls of `drive_bit` made by `drive_frame`; the last three are the interframe
space. -/
def driveFrame (cfg : CanphyConfig) (tr : CanphyTrans) : List (Bool × Int) :=
  (match tr.frameType with
    | .errorFrame => driveErrorFrame cfg
    | .overloadFrame => driveOverloadFrame cfg
    | _ => (driveCanFrame cfg tr).1) ++ List.replicate 3 (true, cfg.bitTimeNs)

/-- `drive_bit`: the levels of `can_phy_rx` at the clock edges it waits for. -/
def driveBit (call : Bool × Int) : List Bool := List.replicate (driveCycles call.2) call.1

/-- One iteration of the loop of `main_phase`, on the levels so far. Without an item it
waits for an edge and the line stays as it is; `reset_phase` has left it recessive. -/
def mainPhase (cfg : CanphyConfig) (levels : List Bool) : Option CanphyTrans → List Bool
  | none => levels ++ [levels.getLastD true]
  | some tr => levels ++ (driveFrame cfg tr).flatMap driveBit

/-- What `try_next_item` returns when each item is followed by a gap, in clock edges. -/
def requests (session : List (CanphyTrans × Nat)) : List (Option CanphyTrans) :=
  session.flatMap fun x => some x.1 :: List.replicate x.2 none

/-! ### One burst to an item -/

/-- The clock edges of the calls with one value. -/
def cyclesOf (v : Bool) (calls : List (Bool × Int)) : Nat :=
  ((calls.filter fun call => call.1 = v).map fun call => driveCycles call.2).sum

/-- The bit times a frame keeps the line dominant, begun ones included. -/
def dominantBits (cfg : CanphyConfig) (tr : CanphyTrans) : Nat :=
  (cyclesOf false (driveFrame cfg tr) + cyclesPerBit cfg.bitTimeNs - 1) /
    cyclesPerBit cfg.bitTimeNs

theorem driveCycles_pos (t : Int) : 0 < driveCycles t := by
  unfold driveCycles
  omega

@[simp] theorem cyclesOf_append (v : Bool) (calls calls' : List (Bool × Int)) :
    cyclesOf v (calls ++ calls') = cyclesOf v calls + cyclesOf v calls' := by
  simp [cyclesOf]

@[simp] theorem cyclesOf_replicate (v b : Bool) (t : Int) (n : Nat) :
    cyclesOf v (List.replicate n (b, t)) = if b = v then n * driveCycles t else 0 := by
  by_cases h : b = v
  · simp [cyclesOf, h]
  · simp [cyclesOf, h]

theorem flatMap_driveBit_const {v : Bool} {calls : List (Bool × Int)} (h : ∀ c ∈ calls, c.1 = v) :
    calls.flatMap driveBit = List.replicate (cyclesOf v calls) v := by
  induction calls with
  | nil => rfl
  | cons c calls ih =>
    obtain ⟨b, t⟩ := c
    obtain rfl : b = v := h (b, t) List.mem_cons_self
    rw [List.flatMap_cons, ih fun c hc => h c (List.mem_cons_of_mem _ hc), driveBit,
      List.replicate_append_replicate]
    simp [cyclesOf]

theorem cyclesOf_other {v : Bool} {calls : List (Bool × Int)} (h : ∀ c ∈ calls, c.1 = !v) :
    cyclesOf v calls = 0 := by
  rw [cyclesOf, List.filter_eq_nil_iff.mpr (fun c hc => by simp [h c hc])]
  rfl

theorem cyclesOf_cons (v b : Bool) (t : Int) (calls : List (Bool × Int)) :
    cyclesOf v ((b, t) :: calls) = (if b = v then driveCycles t else 0) + cyclesOf v calls := by
  by_cases h : b = v
  · simp [cyclesOf, h]
  · simp [cyclesOf, h]

/-- Calls that are dominant first and then recessive make a burst. -/
theorem flatMap_driveBit_burst {dominant recessive : List (Bool × Int)}
    (hd : ∀ c ∈ dominant, c.1 = false) (hr : ∀ c ∈ recessive, c.1 = true) :
    (dominant ++ recessive).flatMap driveBit =
      List.replicate (cyclesOf false (dominant ++ recessive)) false ++
        List.replicate (cyclesOf true (dominant ++ recessive)) true := by
  rw [List.flatMap_append, flatMap_driveBit_const hd, flatMap_driveBit_const hr, cyclesOf_append,
    cyclesOf_append, cyclesOf_other (v := false) hr, cyclesOf_other (v := true) hd, Nat.add_zero,
    Nat.zero_add]

/-! ### Data and remote frames -/

/-- `stuffed` is dominant but for its last bit. -/
theorem elems_buildStuffed_eq (tr : CanphyTrans) :
    ∃ z, 16 < z ∧ (buildStuffed tr).elems = List.replicate z false ++ [true] := by
  refine ⟨_, ?_, elems_buildStuffed tr⟩
  have hwidth : 15 ≤ crcWidth tr.fdf := by
    unfold crcWidth
    split <;> decide
  omega

/-- The calls for a frame, with the bit time `time i` of bit `i`: the nominal one up to the
BRS position. -/
theorem driveCanFrame_calls (cfg : CanphyConfig) {tr : CanphyTrans}
    (hnone : tr.errInject = .errNone) :
    ∃ z, ∃ time : Nat → Int, 16 < z ∧ (∀ i < 16, time i = cfg.bitTimeNs) ∧
      (driveCanFrame cfg tr).1 =
        (List.range z).map (fun i => (false, time i)) ++ [(true, time z)] := by
  obtain ⟨z, hz, helems⟩ := elems_buildStuffed_eq tr
  refine ⟨z, fun i => if tr.fdf && tr.brs && decide (getBrsPos tr ≤ i) then cfg.dpBitTimeNs
    else cfg.bitTimeNs, hz, fun i hi => ?_, ?_⟩
  · have hpos : 16 ≤ getBrsPos tr := by
      unfold getBrsPos
      split <;> decide
    simp
    omega
  · simp only [driveCanFrame, helems, hnone, ne_eq, not_true_eq_false, false_and, if_false,
      List.mapIdx_append, List.mapIdx_cons, List.mapIdx_nil, List.length_replicate, Nat.zero_add]
    congr 1
    apply List.ext_getElem
    · simp
    · simp

/-- A data or remote frame is a burst of more than sixteen bit times. -/
theorem driveFrame_burst (cfg : CanphyConfig) {tr : CanphyTrans} (hnone : tr.errInject = .errNone)
    (hframe : tr.isDataOrRemote = true) :
    (driveFrame cfg tr).flatMap driveBit =
        List.replicate (cyclesOf false (driveFrame cfg tr)) false ++
          List.replicate (cyclesOf true (driveFrame cfg tr)) true ∧
      16 * driveCycles cfg.bitTimeNs < cyclesOf false (driveFrame cfg tr) ∧
      3 * driveCycles cfg.bitTimeNs ≤ cyclesOf true (driveFrame cfg tr) := by
  obtain ⟨z, time, hz, htime, hcalls⟩ := driveCanFrame_calls cfg hnone
  have hdrive : driveFrame cfg tr = (List.range z).map (fun i => (false, time i)) ++
      ((true, time z) :: List.replicate 3 (true, cfg.bitTimeNs)) := by
    have hdata : driveFrame cfg tr =
        (driveCanFrame cfg tr).1 ++ List.replicate 3 (true, cfg.bitTimeNs) := by
      unfold driveFrame
      cases htype : tr.frameType with
      | errorFrame => simp [CanphyTrans.isDataOrRemote, htype] at hframe
      | overloadFrame => simp [CanphyTrans.isDataOrRemote, htype] at hframe
      | _ => rfl
    rw [hdata, hcalls, List.append_assoc]
    rfl
  have hdominant : ∀ c ∈ (List.range z).map (fun i => (false, time i)), c.1 = false := by
    simp
  have hrecessive : ∀ c ∈ (true, time z) :: List.replicate 3 (true, cfg.bitTimeNs),
      c.1 = true := by
    simp
  -- sixteen bits at the nominal rate and at least one more
  have hnominal : (List.range z).map (fun i => (false, time i)) =
      List.replicate 16 (false, cfg.bitTimeNs) ++ (false, time 16) ::
        (List.range (z - 17)).map (fun i => (false, time (17 + i))) := by
    obtain ⟨j, rfl⟩ : ∃ j, z = 16 + (1 + j) := ⟨z - 17, by omega⟩
    have hhead : (List.range 16).map (fun i => (false, time i)) =
        List.replicate 16 (false, cfg.bitTimeNs) := by
      refine List.eq_replicate_iff.mpr ⟨by simp, fun c hc => ?_⟩
      obtain ⟨i, hi, rfl⟩ := List.mem_map.mp hc
      rw [htime i (List.mem_range.mp hi)]
    rw [List.range_add, List.range_add, List.map_append, hhead]
    simp [Function.comp_def, ← Nat.add_assoc]
  have hpos := driveCycles_pos (time 16)
  rw [hdrive]
  refine ⟨flatMap_driveBit_burst hdominant hrecessive, ?_, ?_⟩
  · rw [cyclesOf_append, hnominal, cyclesOf_append, cyclesOf_cons, cyclesOf_replicate, if_pos rfl,
      if_pos rfl]
    omega
  · rw [cyclesOf_append, cyclesOf_cons, cyclesOf_replicate, if_pos rfl, if_pos rfl]
    omega

/-- An error or overload frame is one of six bit times. -/
theorem driveFrame_flag (cfg : CanphyConfig) {tr : CanphyTrans}
    (hflag : tr.isDataOrRemote = false) :
    (driveFrame cfg tr).flatMap driveBit =
        List.replicate (6 * driveCycles cfg.bitTimeNs) false ++
          List.replicate (11 * driveCycles cfg.bitTimeNs) true ∧
      cyclesOf false (driveFrame cfg tr) = 6 * driveCycles cfg.bitTimeNs := by
  have hcalls : driveFrame cfg tr =
      List.replicate 6 (false, cfg.bitTimeNs) ++ List.replicate 11 (true, cfg.bitTimeNs) := by
    unfold driveFrame
    cases htype : tr.frameType with
    | errorFrame => rfl
    | overloadFrame => rfl
    | _ => simp [CanphyTrans.isDataOrRemote, htype] at hflag
  have hdominant : cyclesOf false (List.replicate 6 (false, cfg.bitTimeNs) ++
      List.replicate 11 (true, cfg.bitTimeNs)) = 6 * driveCycles cfg.bitTimeNs := by
    rw [cyclesOf_append, cyclesOf_replicate, cyclesOf_replicate]
    rfl
  have hrecessive : cyclesOf true (List.replicate 6 (false, cfg.bitTimeNs) ++
      List.replicate 11 (true, cfg.bitTimeNs)) = 11 * driveCycles cfg.bitTimeNs := by
    rw [cyclesOf_append, cyclesOf_replicate, cyclesOf_replicate]
    exact Nat.zero_add _
  rw [hcalls]
  refine ⟨?_, hdominant⟩
  rw [flatMap_driveBit_burst (fun c hc => by rw [List.eq_of_mem_replicate hc])
    (fun c hc => by rw [List.eq_of_mem_replicate hc]), hdominant, hrecessive]

/-! ### What the monitor makes of a burst -/

theorem destuffLoop_same {i n : Nat} {v : Bool} (hi : i < 150) (hn : n + 1 ≠ 5)
    (bits : List Bool) :
    destuffLoop i v n (v :: bits) = v :: destuffLoop (i + 1) v (n + 1) bits := by
  rw [destuffLoop.eq_def]
  exact (if_pos hi).trans ((if_pos rfl).trans (if_neg hn))

theorem destuffLoop_fifth {i : Nat} {v : Bool} (hi : i < 150) (x y : Bool) (bits : List Bool) :
    destuffLoop i v 4 (v :: x :: y :: bits) = y :: destuffLoop (i + 2) y 1 (y :: bits) := by
  rw [destuffLoop.eq_def]
  exact (if_pos hi).trans ((if_pos rfl).trans (if_pos rfl))

/-- Of five dominant bits the loop passes on three, and the one behind them twice. -/
theorem length_destuffLoop_dominant {i m : Nat} (hi : i + 3 < 150) (bits : List Bool) :
    (destuffLoop i false 1 (List.replicate (5 + (m + 1)) false ++ bits)).length =
      4 + (destuffLoop (i + 5) false 1 (List.replicate (m + 1) false ++ bits)).length := by
  have hsplit : List.replicate (5 + (m + 1)) false ++ bits =
      false :: false :: false :: false :: false :: false :: (List.replicate m false ++ bits) := by
    rw [← List.replicate_append_replicate, List.replicate_succ]
    rfl
  rw [hsplit, destuffLoop_same (by omega) (by decide), destuffLoop_same (by omega) (by decide),
    destuffLoop_same (by omega) (by decide), destuffLoop_fifth (by omega), List.replicate_succ]
  simp only [List.length_cons, List.cons_append, Nat.add_assoc, Nat.reduceAdd]
  omega

/-- What is captured of more than sixteen dominant bits is long enough for a frame. -/
theorem le_length_destuffAssigns_burstQueue {c : Nat} (hc : 16 < c) :
    20 ≤ (destuffAssigns (burstQueue c)).length := by
  rcases Nat.lt_or_ge c 27 with hshort | hlong
  · have hall : ∀ c < 27, 16 < c → 20 ≤ (destuffAssigns (burstQueue c)).length := by
      decide +kernel
    exact hall c hshort hc
  · obtain ⟨d, rfl⟩ := Nat.exists_eq_add_of_le hlong
    obtain ⟨bits, hbits⟩ : ∃ bits, burstQueue (27 + d) =
        false :: (List.replicate (5 + (20 + 1)) false ++ bits) := by
      refine ⟨(List.replicate d false ++ List.replicate 7 true).take 174, ?_⟩
      have htake : maxBits + 1 = (List.replicate 27 false).length + 174 := rfl
      rw [burstQueue, ← List.replicate_append_replicate, List.append_assoc, htake,
        List.take_length_add_append]
      rfl
    rw [hbits, destuffAssigns, List.length_cons, length_destuffLoop_dominant (by decide),
      length_destuffLoop_dominant (m := 15) (by decide),
      length_destuffLoop_dominant (m := 10) (by decide),
      length_destuffLoop_dominant (m := 5) (by decide),
      length_destuffLoop_dominant (m := 0) (by decide)]
    omega

/-! ### A session -/

/-- Items without error injection, and five bit times to end a capture after each data or
remote frame. -/
def Spaced (cfg : CanphyConfig) (session : List (CanphyTrans × Nat)) : Prop :=
  ∀ x ∈ session, x.1.errInject = .errNone ∧
    (x.1.isDataOrRemote = true → 5 * cyclesPerBit cfg.bitTimeNs ≤ x.2)

instance (cfg : CanphyConfig) (session : List (CanphyTrans × Nat)) :
    Decidable (Spaced cfg session) :=
  inferInstanceAs (Decidable (∀ x ∈ session, _))

/-- The line stays as it was last driven. -/
theorem run_mainPhase_gap (cfg : CanphyConfig) (levels : List Bool) (gap : Nat) :
    run (mainPhase cfg) levels (List.replicate gap none) =
      levels ++ List.replicate gap (levels.getLastD true) := by
  induction gap generalizing levels with
  | zero => simp
  | succ gap ih =>
    rw [List.replicate_succ, run_cons, ih, mainPhase, List.replicate_succ, List.append_assoc]
    simp

/-- The levels of an item and of the gap behind it. -/
def itemLevels (cfg : CanphyConfig) (x : CanphyTrans × Nat) : List Bool :=
  (driveFrame cfg x.1).flatMap driveBit ++ List.replicate x.2 true

theorem run_mainPhase_item (cfg : CanphyConfig) (levels : List Bool) (x : CanphyTrans × Nat) :
    run (mainPhase cfg) levels (some x.1 :: List.replicate x.2 none) =
      levels ++ itemLevels cfg x := by
  have hones : (List.replicate 3 (true, cfg.bitTimeNs)).flatMap driveBit =
      List.replicate (3 * driveCycles cfg.bitTimeNs) true := by
    rw [flatMap_driveBit_const fun c hc => by rw [List.eq_of_mem_replicate hc], cyclesOf_replicate]
    rfl
  have hrecessive : (levels ++ (driveFrame cfg x.1).flatMap driveBit).getLastD true = true := by
    obtain ⟨calls, hcalls⟩ : ∃ calls,
        driveFrame cfg x.1 = calls ++ List.replicate 3 (true, cfg.bitTimeNs) := ⟨_, rfl⟩
    have hpos : 3 * driveCycles cfg.bitTimeNs ≠ 0 := by
      have h := driveCycles_pos cfg.bitTimeNs
      omega
    rw [hcalls, List.flatMap_append, hones, ← List.append_assoc, List.getLastD_eq_getLast?,
      List.getLast?_append, List.getLast?_replicate, if_neg hpos]
    rfl
  rw [run_cons, mainPhase, run_mainPhase_gap, hrecessive, itemLevels, List.append_assoc]

theorem run_mainPhase_requests (cfg : CanphyConfig) (levels : List Bool)
    (session : List (CanphyTrans × Nat)) :
    run (mainPhase cfg) levels (requests session) = levels ++ session.flatMap (itemLevels cfg) := by
  induction session generalizing levels with
  | nil => simp [requests]
  | cons x session ih =>
    have hrequests : requests (x :: session) =
        (some x.1 :: List.replicate x.2 none) ++ requests session := rfl
    rw [hrequests, run_append, run_mainPhase_item, ih, List.flatMap_cons, List.append_assoc]

section Session

variable {cfg : CanphyConfig} (hrate : 0 < cyclesPerBit cfg.bitTimeNs)
include hrate

/-- An item and its gap are a burst that ends in time. -/
theorem itemLevels_burst {x : CanphyTrans × Nat} (h : Spaced cfg [x]) :
    ∃ o, 8 * cyclesPerBit cfg.bitTimeNs ≤ o ∧ itemLevels cfg x =
      List.replicate (cyclesOf false (driveFrame cfg x.1)) false ++ List.replicate o true := by
  obtain ⟨hnone, hgap⟩ := h x List.mem_cons_self
  have hcycles : driveCycles cfg.bitTimeNs = cyclesPerBit cfg.bitTimeNs := Nat.max_eq_right hrate
  unfold itemLevels
  cases hframe : x.1.isDataOrRemote with
  | false =>
    obtain ⟨hlevels, hdominant⟩ := driveFrame_flag cfg hframe
    refine ⟨11 * cyclesPerBit cfg.bitTimeNs + x.2, by omega, ?_⟩
    rw [hlevels, hdominant, hcycles, List.append_assoc, List.replicate_append_replicate]
  | true =>
    obtain ⟨hlevels, -, hrecessive⟩ := driveFrame_burst cfg hnone hframe
    refine ⟨cyclesOf true (driveFrame cfg x.1) + x.2, ?_, ?_⟩
    · have h := hgap hframe
      omega
    · rw [hlevels, List.append_assoc, List.replicate_append_replicate]

/-- A data or remote frame is long, a flag frame six bit times. -/
theorem dominantBits_spec {tr : CanphyTrans} (hnone : tr.errInject = .errNone) :
    0 < cyclesOf false (driveFrame cfg tr) ∧
      if tr.isDataOrRemote then 16 < dominantBits cfg tr else dominantBits cfg tr = 6 := by
  have hcycles : driveCycles cfg.bitTimeNs = cyclesPerBit cfg.bitTimeNs := Nat.max_eq_right hrate
  unfold dominantBits
  generalize cyclesPerBit cfg.bitTimeNs = k at *
  cases hframe : tr.isDataOrRemote with
  | false =>
    obtain ⟨-, hdominant⟩ := driveFrame_flag cfg hframe
    rw [hdominant, hcycles]
    refine ⟨by omega, ?_⟩
    have hsum : 6 * k + k - 1 = (k - 1) + k * 6 := by omega
    rw [if_neg Bool.false_ne_true, hsum, Nat.add_mul_div_left _ _ hrate,
      Nat.div_eq_of_lt (by omega)]
  | true =>
    obtain ⟨-, hdominant, -⟩ := driveFrame_burst cfg hnone hframe
    rw [hcycles] at hdominant
    refine ⟨by omega, ?_⟩
    rw [if_pos rfl, ← Nat.succ_le_iff, Nat.le_div_iff_mul_le hrate]
    omega

/-- The monitor queues an item's burst. -/
theorem run_step_item {x : CanphyTrans × Nat} (h : Spaced cfg [x]) (qs : List (List Bool)) :
    run (Monitor.step (cyclesPerBit cfg.bitTimeNs)) ⟨.watch true, qs⟩ (itemLevels cfg x) =
      ⟨.watch true, qs ++ [burstQueue (dominantBits cfg x.1)]⟩ := by
  obtain ⟨o, ho, hlevels⟩ := itemLevels_burst hrate h
  have hpos := (dominantBits_spec hrate (h x List.mem_cons_self).1).1
  rw [hlevels, dominantBits]
  obtain ⟨k, hk⟩ := Nat.exists_eq_succ_of_ne_zero hrate.ne'
  rw [hk] at ho ⊢
  rw [Monitor.run_step_watch, Monitor.run_step_burst hpos ho]
  rfl

theorem run_step_session {session : List (CanphyTrans × Nat)} (h : Spaced cfg session)
    (qs : List (List Bool)) :
    run (Monitor.step (cyclesPerBit cfg.bitTimeNs)) ⟨.watch true, qs⟩
        (session.flatMap (itemLevels cfg)) =
      ⟨.watch true, qs ++ session.map fun x => burstQueue (dominantBits cfg x.1)⟩ := by
  induction session generalizing qs with
  | nil => simp
  | cons x session ih =>
    have hx : Spaced cfg [x] := fun y hy => h y (by
      rw [List.mem_singleton.mp hy]
      exact List.mem_cons_self)
    rw [List.flatMap_cons, run_append, run_step_item hrate hx,
      ih fun y hy => h y (List.mem_cons_of_mem _ hy), List.append_assoc]
    rfl

/-- **Of a session the monitor publishes one blank frame for each data or remote frame, in
order, and nothing for an error or overload frame.** What it publishes tells only how long
the frame kept the line dominant. -/
theorem published_session {session : List (CanphyTrans × Nat)} (h : Spaced cfg session)
    (lead : Nat) :
    List.Forall₂
      (fun x tr => BlankFrame .canDirRx tr ∧
        tr.bitCount = (destuffAssigns (burstQueue (dominantBits cfg x.1))).length)
      (session.filter fun x => x.1.isDataOrRemote)
      ((run (Monitor.step (cyclesPerBit cfg.bitTimeNs)) {}
        (run (mainPhase cfg) [] (List.replicate lead none ++ requests session))).published
          .canDirRx) := by
  have hlead : run (mainPhase cfg) [] (List.replicate lead none) = List.replicate lead true :=
    run_mainPhase_gap cfg [] lead
  rw [run_append, hlead, run_mainPhase_requests, Monitor.run_idle,
    run_step_session hrate h [], Monitor.published, List.nil_append, List.filterMap_map]
  apply forall₂_filterMap
  · intro x hx hframe
    obtain ⟨-, hbits⟩ := dominantBits_spec hrate (h x hx).1
    rw [if_pos hframe] at hbits
    obtain ⟨hsome, hblank⟩ := parseFrame_spec .canDirRx (burstQueue (dominantBits cfg x.1))
    obtain ⟨tr, htr⟩ := Option.isSome_iff_exists.mp
      (hsome.mpr (le_length_destuffAssigns_burstQueue hbits))
    exact ⟨tr, htr, hblank tr htr⟩
  · intro x hx hflag
    obtain ⟨-, hbits⟩ := dominantBits_spec hrate (h x hx).1
    rw [hflag, if_neg Bool.false_ne_true] at hbits
    rw [Function.comp_apply, hbits]
    decide

end Session

/-- A data frame, an error frame at once after its gap, and a long FD frame. -/
def mixedSession : List (CanphyTrans × Nat) :=
  [(stdDataFrame.toCanphyTrans, 300), ({ frameType := .errorFrame }, 0),
   (longFdFrame.toCanphyTrans, 300)]

/-- Two frames are published, with the default bit times. -/
theorem published_mixedSession :
    List.Forall₂
      (fun x tr => BlankFrame .canDirRx tr ∧
        tr.bitCount = (destuffAssigns (burstQueue (dominantBits {} x.1))).length)
      (mixedSession.filter fun x => x.1.isDataOrRemote)
      ((run (Monitor.step (cyclesPerBit ({} : CanphyConfig).bitTimeNs)) {}
        (run (mainPhase {}) [] (List.replicate 10 none ++ requests mixedSession))).published
          .canDirRx) :=
  published_session (by decide) (by decide) 10

end Testbench.Canphy
