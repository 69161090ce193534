import Testbench.Canphy.ParseFrame

/-!
The monitor on a burst: dominant for a while, then recessive.

A burst need not be made of whole bits. The monitor takes its samples at the first edge of
a bit, so a bit that is begun dominant counts as dominant (`run_step_partial`), and a burst
of any length is queued up to the limit and to seven recessive bits (`run_step_burst`).
-/

namespace Testbench.Canphy

open Testbench.Lib

/-- What `capture_frame` queues of a burst with `c` dominant bits. -/
def burstQueue (c : Nat) : List Bool :=
  (List.replicate c false ++ List.replicate 7 true).take (maxBits + 1)

namespace Monitor

variable {k n c : Nat}

/-! ### Earlier queues -/

/-- What was parsed before plays no part in what is parsed next. -/
theorem run_step_parsed (qs : List (List Bool)) (m : Monitor) (xs : List Bool) :
    run (step k) { m with parsed := qs ++ m.parsed } xs =
      { run (step k) m xs with parsed := qs ++ (run (step k) m xs).parsed } := by
  induction xs generalizing m with
  | nil => rfl
  | cons x xs ih =>
    have hstep : step k { m with parsed := qs ++ m.parsed } x =
        { step k m x with parsed := qs ++ (step k m x).parsed } := by
      unfold step
      cases m.phase with
      | watch prevRx =>
        dsimp only
        split_ifs <;> simp [finish]
      | capture c wait =>
        dsimp only
        split_ifs <;> simp [finish]
    rw [run_cons, run_cons, hstep, ih]

theorem run_step_watch (qs : List (List Bool)) (xs : List Bool) :
    run (step k) ⟨.watch true, qs⟩ xs =
      { run (step k) {} xs with parsed := qs ++ (run (step k) {} xs).parsed } := by
  have h := run_step_parsed (k := k) qs {} xs
  rwa [List.append_nil] at h

/-! ### A burst of whole bits -/

/-- Recessive bits bring the monitor back to an idle bus. -/
theorem run_bit_watch_recessive {x : Bool} {qs : List (List Bool)} (n : Nat) :
    run bit ⟨.watch x, qs⟩ (List.replicate (n + 1) true) = ⟨.watch true, qs⟩ := by
  have hfirst : bit ⟨.watch x, qs⟩ true = ⟨.watch true, qs⟩ := by
    rw [bit, step_watch_other rfl (by simp)]
  rw [List.replicate_succ, run_cons, hfirst]
  exact run_watch_same rfl

/-- Up to the limit, no queue with fewer than seven recessive bits stops the loop. -/
theorem not_stops_burst {j : Nat} (hj : j ≤ 6) (hlen : c + j ≤ maxBits) {q : List Bool}
    (hq : q <+: List.replicate c false ++ List.replicate j true) : ¬ Stops q := by
  rintro (hrun | hfull)
  · have hseven : List.Sublist (List.replicate 7 true)
        (List.replicate c false ++ List.replicate j true) :=
      (replicate_suffix_iff.mpr hrun).sublist.trans hq.sublist
    have hcount := hseven.count_le true
    simp only [List.count_append, List.count_replicate, beq_self_eq_true, if_true] at hcount
    rw [if_neg (by decide)] at hcount
    omega
  · have hle := hq.length_le
    rw [List.length_append, List.length_replicate, List.length_replicate] at hle
    omega

/-- The limit may cut the dominant bits off. -/
theorem run_bit_burst_long (a : Nat) :
    run bit {} (List.replicate (maxBits + 1 + a) false ++ List.replicate (n + 1) true) =
      ⟨.watch true, [burstQueue (maxBits + 1 + a)]⟩ := by
  have hsplit : List.replicate (maxBits + 1 + a) false ++ List.replicate (n + 1) true =
      List.replicate 0 true ++ (List.replicate maxBits false ++
        false :: (List.replicate a false ++ List.replicate (n + 1) true)) := by
    rw [← List.replicate_append_replicate, List.replicate_succ' (n := maxBits), List.append_assoc,
      List.append_assoc]
    rfl
  have hstop : Stops (List.replicate maxBits false ++ [false]) := .inr (by simp)
  have hgo : ∀ q, q <+: List.replicate maxBits false → ¬ Stops q := by
    intro q hq
    rw [← List.append_nil (List.replicate maxBits false)] at hq
    exact not_stops_burst (j := 0) (Nat.zero_le 6) le_rfl hq
  have hqueue : burstQueue (maxBits + 1 + a) = List.replicate maxBits false ++ [false] := by
    rw [burstQueue, List.take_append_of_le_length (by simp), List.take_replicate,
      Nat.min_eq_left (Nat.le_add_right _ a), List.replicate_succ']
  have hsame : run bit ⟨.watch false, [List.replicate maxBits false ++ [false]]⟩
      (List.replicate a false) = ⟨.watch false, [List.replicate maxBits false ++ [false]]⟩ :=
    run_watch_same rfl
  rw [hsplit, run_bit_frame rfl hgo hstop, run_append, hsame, hqueue]
  exact run_bit_watch_recessive n

/-- Else recessive bits end the queue, at the limit or as the seventh. -/
theorem run_bit_burst_short {j : Nat} (hc : 0 < c) (hj : j ≤ 6) (hlen : c + j ≤ maxBits)
    (hfull : j = 6 ∨ c + j = maxBits) :
    run bit {} (List.replicate c false ++ List.replicate (j + 1 + n) true) =
      ⟨.watch true, [burstQueue c]⟩ := by
  have hones : List.replicate c false ++ List.replicate j true ++ [true] =
      List.replicate c false ++ List.replicate (j + 1) true := by
    rw [List.append_assoc, ← List.replicate_succ']
  have hsplit : List.replicate c false ++ List.replicate (j + 1 + n) true =
      List.replicate 0 true ++ (List.replicate c false ++ List.replicate j true ++
        true :: List.replicate n true) := by
    rw [List.append_cons _ true, hones, List.append_assoc, List.replicate_append_replicate]
    rfl
  have hqueue : burstQueue c = List.replicate c false ++ List.replicate j true ++ [true] := by
    rw [hones, burstQueue, List.take_append, List.take_replicate, List.take_replicate,
      List.length_replicate, Nat.min_eq_right (by omega)]
    congr 2
    omega
  have hstop : Stops (List.replicate c false ++ List.replicate j true ++ [true]) := by
    rw [hones]
    rcases hfull with rfl | hlimit
    · exact .inl (replicate_suffix_iff.mp (List.suffix_append _ _))
    · refine .inr ?_
      rw [List.length_append, List.length_replicate, List.length_replicate]
      omega
  have hhead : (List.replicate c false ++ List.replicate j true).head? = some false := by
    obtain ⟨d, rfl⟩ := Nat.exists_eq_succ_of_ne_zero hc.ne'
    rfl
  rw [hsplit, run_bit_frame hhead (fun q hq => not_stops_burst hj hlen hq) hstop, hqueue]
  exact run_watch_same rfl

/-- **A burst of whole bits is queued once.** -/
theorem run_bit_burst (hc : 0 < c) (hn : 7 ≤ n) :
    run bit {} (List.replicate c false ++ List.replicate n true) =
      ⟨.watch true, [burstQueue c]⟩ := by
  rcases Nat.lt_or_ge maxBits c with hlong | hshort
  · obtain ⟨a, rfl⟩ : ∃ a, c = maxBits + 1 + a := Nat.exists_eq_add_of_le hlong
    obtain ⟨b, rfl⟩ := Nat.exists_eq_succ_of_ne_zero (show n ≠ 0 by omega)
    exact run_bit_burst_long a
  · obtain ⟨j, hj, hlen, hfull⟩ : ∃ j ≤ 6, c + j ≤ maxBits ∧ (j = 6 ∨ c + j = maxBits) := by
      rcases Nat.lt_or_ge (c + 6) maxBits with h | h
      · exact ⟨6, le_rfl, by omega, .inl rfl⟩
      · exact ⟨maxBits - c, by omega, by omega, .inr (by omega)⟩
    obtain ⟨b, rfl⟩ : ∃ b, n = j + 1 + b := Nat.exists_eq_add_of_le (by omega)
    exact run_bit_burst_short hc hj hlen hfull

/-! ### Bursts of any length -/

/-- The levels before the next sample play no part in it. -/
theorem run_step_unsampled (m : Monitor) (c : Capture) (xs : List Bool) :
    run (step k) { m with phase := .capture c (xs.length + 1) } xs =
      { m with phase := .capture c 1 } := by
  induction xs with
  | nil => rfl
  | cons x xs ih =>
    rw [run_cons, ← ih]
    congr 1

/-- After the bus was seen dominant it has to be seen recessive. -/
theorem run_step_watch_dominant {m : Monitor} (h : m.phase = .watch false) (r s : Nat) :
    run (step k) m (List.replicate r false ++ List.replicate (s + 1) true) =
      { m with phase := .watch true } := by
  have hfirst : step k m true = { m with phase := .watch true } := step_watch_other h rfl
  rw [run_append, run_watch_same h, List.replicate_succ, run_cons, hfirst]
  exact run_watch_same rfl

/-- **A bit that starts dominant counts as dominant.** -/
theorem run_step_partial {m : Monitor} (h : m.AtBit) {r s : Nat} (hrs : r + s = k) :
    run (step (k + 1)) m (List.replicate (r + 1) false ++ List.replicate (s + (k + 1)) true) =
      run bit m [false, true] := by
  have hones : List.replicate (r + 1) false ++ List.replicate (s + (k + 1)) true =
      false :: (List.replicate r false ++ List.replicate s true ++
        List.replicate (k + 1) true) := by
    rw [List.append_assoc, List.replicate_append_replicate]
    rfl
  -- sampling goes on
  have hcapture : ∀ (m : Monitor) c,
      run (step (k + 1)) { m with phase := .capture c (k + 1) }
        (List.replicate r false ++ List.replicate s true ++ List.replicate (k + 1) true) =
      bit { m with phase := .capture c 1 } true := by
    intro m c
    have hlen : (List.replicate r false ++ List.replicate s true).length = k := by simpa using hrs
    have hwait := run_step_unsampled (k := k + 1) m c
      (List.replicate r false ++ List.replicate s true)
    rw [hlen] at hwait
    rw [run_append, hwait]
    exact run_step_bit fun _ _ hphase => by cases hphase; rfl
  -- the bus is watched, and was dominant
  have hwatch : ∀ m : Monitor, m.phase = .watch false →
      run (step (k + 1)) m
        (List.replicate r false ++ List.replicate s true ++ List.replicate (k + 1) true) =
      bit m true := by
    intro m hm
    rw [List.append_assoc, List.replicate_append_replicate, ← Nat.add_assoc,
      run_step_watch_dominant hm]
    exact (step_watch_other hm rfl).symm
  rw [hones]
  change run (step (k + 1)) (step (k + 1) m false) _ = bit (step 1 m false) true
  cases hphase : m.phase with
  | watch prevRx =>
    cases prevRx with
    | false =>
      rw [step_watch_same hphase, step_watch_same hphase]
      exact hwatch m hphase
    | true =>
      rw [step_watch_falling hphase, step_watch_falling hphase]
      exact hcapture m {}
  | capture c wait =>
    obtain rfl := h c wait hphase
    rw [step_sample hphase, step_sample hphase]
    cases hdone : (c.sample false).done with
    | false => exact hcapture m _
    | true => exact hwatch _ rfl

/-- **A burst of any length is queued once**, with a dominant bit for each bit time begun. -/
theorem run_step_burst {z o : Nat} (hz : 0 < z) (ho : 8 * (k + 1) ≤ o) :
    run (step (k + 1)) {} (List.replicate z false ++ List.replicate o true) =
      ⟨.watch true, [burstQueue ((z + k) / (k + 1))]⟩ := by
  -- `d` whole bits and one of which `r + 1` edges are dominant
  obtain ⟨d, r, s, hrs, rfl⟩ : ∃ d r s, r + s = k ∧ z = d * (k + 1) + (r + 1) := by
    refine ⟨(z - 1) / (k + 1), (z - 1) % (k + 1), k - (z - 1) % (k + 1), ?_, ?_⟩
    · have hlt : (z - 1) % (k + 1) < k + 1 := Nat.mod_lt _ (Nat.succ_pos k)
      omega
    · have hdiv := Nat.div_add_mod' (z - 1) (k + 1)
      omega
  have hbits : (d * (k + 1) + (r + 1) + k) / (k + 1) = d + 1 := by
    have hsum : d * (k + 1) + (r + 1) + k = r + (k + 1) * (d + 1) := by ring
    rw [hsum, Nat.add_mul_div_left _ _ (Nat.succ_pos k), Nat.div_eq_of_lt (by omega)]
    omega
  obtain ⟨n, t, hn, ht, rfl⟩ : ∃ n t, 6 ≤ n ∧ t < k + 1 ∧ o = s + (k + 1) + n * (k + 1) + t := by
    refine ⟨(o - s - (k + 1)) / (k + 1), (o - s - (k + 1)) % (k + 1), ?_,
      Nat.mod_lt _ (Nat.succ_pos k), ?_⟩
    · rw [Nat.le_div_iff_mul_le (Nat.succ_pos k)]
      omega
    · have hdiv := Nat.div_add_mod' (o - s - (k + 1)) (k + 1)
      omega
  have hwhole : ∀ (v : Bool) (n : Nat), List.replicate (n * (k + 1)) v =
      (List.replicate n v).flatMap (List.replicate (k + 1)) := by
    intro v n
    rw [List.flatMap_replicate, List.flatten_replicate_replicate]
  have hsplit : List.replicate (d * (k + 1) + (r + 1)) false ++
      List.replicate (s + (k + 1) + n * (k + 1) + t) true =
      (List.replicate d false).flatMap (List.replicate (k + 1)) ++
        ((List.replicate (r + 1) false ++ List.replicate (s + (k + 1)) true) ++
          ((List.replicate n true).flatMap (List.replicate (k + 1)) ++
            List.replicate t true)) := by
    simp only [← hwhole, ← List.replicate_append_replicate, List.append_assoc]
  have hstart : AtBit {} := fun _ _ h => by cases h
  have hdominant : AtBit (run bit {} (List.replicate d false)) :=
    run_invariant (fun _ _ h => atBit_bit h) hstart _
  have hrecessive : AtBit (run bit (run bit {} (List.replicate d false)) [false, true]) :=
    run_invariant (fun _ _ h => atBit_bit h) hdominant _
  have hjoin : List.replicate d false ++ ([false, true] ++ List.replicate n true) =
      List.replicate (d + 1) false ++ List.replicate (n + 1) true := by
    rw [List.replicate_succ', List.append_assoc]
    rfl
  rw [hsplit, run_append, run_step_bits hstart, run_append, run_step_partial hdominant hrs,
    run_append, run_step_bits hrecessive, ← run_append, ← run_append, hjoin,
    run_bit_burst (Nat.succ_pos d) (by omega), hbits]
  exact run_watch_same rfl

end Monitor

end Testbench.Canphy
