import Testbench.Lib.Run

/-!
Changes of many lines between consecutive samples.

`changes` lists them by the number of the sample, those of one sample in the order of the
lines. It has each change once (`mem_changes`, `pairwise_changes`). A machine that keeps the
sample before, and logs the lines that have changed since, logs these (`run_changes`).
-/

namespace Testbench.Lib

variable {σ κ ε μ : Type*} (lines : List κ) (changed : σ → σ → κ → Bool)

/-- The changes from `prev` on, where the samples are numbered from `t` on. -/
def changes (t : Nat) (prev : σ) : List σ → List (Nat × κ)
  | [] => []
  | cur :: samples =>
      (lines.filter (changed prev cur)).map (t, ·) ++ changes (t + 1) cur samples

/-- A line has changed at sample `n`. -/
def ChangedAt (prev : σ) (samples : List σ) (n : Nat) (l : κ) : Prop :=
  ∃ p c, (prev :: samples)[n]? = some p ∧ samples[n]? = some c ∧ changed p c l

section Changes

variable {lines changed} {t : Nat} {prev : σ} {samples : List σ}

theorem changedAt_zero {cur : σ} {l : κ} :
    ChangedAt changed prev (cur :: samples) 0 l ↔ changed prev cur l := by
  constructor
  · rintro ⟨p, c, hp, hc, h⟩
    cases hp
    cases hc
    exact h
  · exact fun h => ⟨prev, cur, rfl, rfl, h⟩

theorem changedAt_succ {cur : σ} {n : Nat} {l : κ} :
    ChangedAt changed prev (cur :: samples) (n + 1) l ↔ ChangedAt changed cur samples n l :=
  Iff.rfl

/-- **Every change is listed, and nothing else.** -/
theorem mem_changes {k : Nat} {l : κ} : (k, l) ∈ changes lines changed t prev samples ↔
    l ∈ lines ∧ ∃ n, k = t + n ∧ ChangedAt changed prev samples n l := by
  induction samples generalizing t prev with
  | nil =>
    refine iff_of_false List.not_mem_nil ?_
    rintro ⟨-, n, -, p, c, -, hc, -⟩
    cases hc
  | cons cur samples ih =>
    have hfirst : (k, l) ∈ (lines.filter (changed prev cur)).map (t, ·) ↔
        k = t ∧ l ∈ lines ∧ changed prev cur l := by
      rw [List.mem_map]
      constructor
      · rintro ⟨l', hl', heq⟩
        obtain ⟨rfl, rfl⟩ := Prod.mk.inj heq
        exact ⟨rfl, List.mem_filter.mp hl'⟩
      · rintro ⟨rfl, hl⟩
        exact ⟨l, List.mem_filter.mpr hl, rfl⟩
    rw [changes, List.mem_append, ih, hfirst]
    constructor
    · rintro (⟨rfl, hl, h⟩ | ⟨hl, n, rfl, h⟩)
      · exact ⟨hl, 0, rfl, changedAt_zero.mpr h⟩
      · exact ⟨hl, n + 1, by omega, changedAt_succ.mpr h⟩
    · rintro ⟨hl, n, rfl, h⟩
      cases n with
      | zero => exact .inl ⟨rfl, hl, changedAt_zero.mp h⟩
      | succ n => exact .inr ⟨hl, n, by omega, changedAt_succ.mp h⟩

/-- **The changes are in order**, by sample and then by line. -/
theorem pairwise_changes {r : κ → κ → Prop} (hlines : lines.Pairwise r) :
    (changes lines changed t prev samples).Pairwise (Prod.Lex (· < ·) r) := by
  induction samples generalizing t prev with
  | nil => exact List.Pairwise.nil
  | cons cur samples ih =>
    rw [changes, List.pairwise_append]
    refine ⟨?_, ih, ?_⟩
    · rw [List.pairwise_map]
      exact (hlines.filter _).imp fun h => .right t h
    · intro e he e' he'
      obtain ⟨l, -, rfl⟩ := List.mem_map.mp he
      obtain ⟨-, n, hn, -⟩ := mem_changes.mp he'
      exact .left _ _ (by omega)

/-- An entry is what its sample reports of a change. -/
def LoggedAt (report : σ → κ → ε) (t : Nat) (samples : List σ) (e : Nat × κ) (x : ε) : Prop :=
  ∃ n c, e.1 = t + n ∧ samples[n]? = some c ∧ x = report c e.2

variable {step : μ → σ → μ} {last : μ → σ} {log : μ → List ε} {report : σ → κ → ε}

/-- **The log of a machine that remembers the last sample has one entry for each change.** -/
theorem run_changes (hlast : ∀ m c, last (step m c) = c)
    (hlog : ∀ m c, log (step m c) = log m ++ (lines.filter (changed (last m) c)).map (report c))
    (m : μ) (samples : List σ) (t : Nat) :
    ∃ entries, log (run step m samples) = log m ++ entries ∧
      List.Forall₂ (LoggedAt report t samples)
        (changes lines changed t (last m) samples) entries := by
  induction samples generalizing m t with
  | nil => exact ⟨[], (List.append_nil _).symm, .nil⟩
  | cons cur samples ih =>
    obtain ⟨entries, hentries, hlogged⟩ := ih (step m cur) (t + 1)
    rw [hlast] at hlogged
    refine ⟨(lines.filter (changed (last m) cur)).map (report cur) ++ entries, ?_, ?_⟩
    · rw [run_cons, hentries, hlog, List.append_assoc]
    · refine List.rel_append ?_ (hlogged.imp ?_)
      · rw [List.forall₂_map_left_iff, List.forall₂_map_right_iff, List.forall₂_same]
        exact fun l _ => ⟨0, cur, rfl, rfl, rfl⟩
      · rintro e x ⟨n, c, he, hc, hx⟩
        exact ⟨n + 1, c, by omega, hc, hx⟩

end Changes

end Testbench.Lib
