import Mathlib

/-!
Runs of a deterministic machine.

A machine is a step function `σ → ο → σ`; a run folds it over a list of
operations. The rules here reduce a statement about runs to one about steps:
`run_invariant` for invariants, `run_const` for what no step of the run changes,
`run_map` for a simulation that maps each operation to a list of operations, and
`tracks_iff` for an observation that is meant to follow a law of its own.
`history_iff` is the general form for properties of histories: they hold at every
point of a run iff each step meets the condition under which it keeps them. `Since`
is the history of a flag that steps raise and clear.
-/

namespace Testbench.Lib

variable {σ τ ο β ε : Type*} {step : σ → ο → σ}

/-- The state after the operations of a list. -/
def run (step : σ → ο → σ) (s : σ) (ops : List ο) : σ := ops.foldl step s

@[simp] theorem run_nil (s : σ) : run step s [] = s := rfl

@[simp] theorem run_cons (s : σ) (op : ο) (ops : List ο) :
    run step s (op :: ops) = run step (step s op) ops := rfl

theorem run_append (s : σ) (ops ops' : List ο) :
    run step s (ops ++ ops') = run step (run step s ops) ops' := List.foldl_append

theorem run_append_singleton (s : σ) (ops : List ο) (op : ο) :
    run step s (ops ++ [op]) = step (run step s ops) op := run_append s ops [op]

theorem run_map_range_succ (x : Nat → ο) (s : σ) (n : Nat) :
    run step s ((List.range (n + 1)).map x) = step (run step s ((List.range n).map x)) (x n) := by
  rw [List.range_succ, List.map_append]
  exact run_append_singleton s _ _

/-- A property every step preserves holds after every run. -/
theorem run_invariant {p : σ → Prop} (hstep : ∀ s op, p s → p (step s op)) {s : σ}
    (hs : p s) (ops : List ο) : p (run step s ops) := by
  induction ops generalizing s with
  | nil => exact hs
  | cons op ops ih => exact ih (hstep s op hs)

/-- What no operation of the run changes is the same after it. -/
theorem run_const {f : σ → β} {ops : List ο} (hstep : ∀ s, ∀ op ∈ ops, f (step s op) = f s)
    (s : σ) : f (run step s ops) = f s := by
  induction ops generalizing s with
  | nil => rfl
  | cons op ops ih =>
    rw [run_cons, ih (fun s op' h => hstep s op' (List.mem_cons_of_mem _ h))]
    exact hstep s op List.mem_cons_self

/-- Simulation: when `f` turns each operation into operations of a second machine,
it turns each run into a run of that machine. -/
theorem run_map {ο' : Type*} {step' : τ → ο' → τ} {f : σ → τ} {ops' : ο → List ο'}
    (hstep : ∀ s op, f (step s op) = run step' (f s) (ops' op)) (s : σ) (ops : List ο) :
    f (run step s ops) = run step' (f s) (ops.flatMap ops') := by
  induction ops generalizing s with
  | nil => rfl
  | cons op ops ih => rw [run_cons, ih, hstep, List.flatMap_cons, run_append]

/-! ### Conditions along a run -/

/-- Every step of the run is taken from a state that satisfies `ok` for it. -/
def Along (step : σ → ο → σ) (ok : σ → ο → Prop) : σ → List ο → Prop
  | _, [] => True
  | s, op :: ops => ok s op ∧ Along step ok (step s op) ops

instance Along.decidable {ok : σ → ο → Prop} [∀ s op, Decidable (ok s op)] :
    (s : σ) → (ops : List ο) → Decidable (Along step ok s ops)
  | _, [] => .isTrue trivial
  | s, op :: ops =>
      @instDecidableAnd _ _ _ (Along.decidable (step s op) ops)

/-- A property each step preserves under `ok` holds after every run along which
`ok` holds. -/
theorem along_invariant {ok : σ → ο → Prop} {inv : σ → Prop}
    (hstep : ∀ s op, inv s → ok s op → inv (step s op)) {s : σ} {ops : List ο} (hs : inv s)
    (hok : Along step ok s ops) : inv (run step s ops) := by
  induction ops generalizing s with
  | nil => exact hs
  | cons op ops ih => exact ih (hstep s op hs hok.1) hok.2

/-- Two conditions on steps that agree where the invariant holds agree along a run,
when the second one keeps the invariant. -/
theorem along_congr {good ok : σ → ο → Prop} {p : σ → Prop} {ops : List ο}
    (hstep : ∀ s, ∀ op ∈ ops, p s → (good s op ↔ ok s op))
    (hinv : ∀ s, ∀ op ∈ ops, p s → ok s op → p (step s op)) {s : σ} (hs : p s) :
    Along step good s ops ↔ Along step ok s ops := by
  induction ops generalizing s with
  | nil => exact Iff.rfl
  | cons op ops ih =>
    have ih := @ih (fun s op' h => hstep s op' (List.mem_cons_of_mem _ h))
      (fun s op' h => hinv s op' (List.mem_cons_of_mem _ h))
    have hop := hstep s op List.mem_cons_self hs
    constructor
    · rintro ⟨hgood, hrest⟩
      exact ⟨hop.mp hgood, (ih (hinv s op List.mem_cons_self hs (hop.mp hgood))).mp hrest⟩
    · rintro ⟨hok, hrest⟩
      exact ⟨hop.mpr hok, (ih (hinv s op List.mem_cons_self hs hok)).mpr hrest⟩

/-- Two machines fed the same operations stay related as long as each step meets the
condition under which it keeps the relation, and that condition may be read off either. -/
theorem along_simulate {step' : τ → ο → τ} {rel : σ → τ → Prop} {ok : σ → ο → Prop}
    {ok' : τ → ο → Prop} (hok : ∀ s t op, rel s t → (ok s op ↔ ok' t op))
    (hstep : ∀ s t op, rel s t → ok s op → rel (step s op) (step' t op)) {s : σ} {t : τ}
    (h : rel s t) (ops : List ο) :
    (Along step ok s ops ↔ Along step' ok' t ops) ∧
      (Along step ok s ops → rel (run step s ops) (run step' t ops)) := by
  induction ops generalizing s t with
  | nil => exact ⟨Iff.rfl, fun _ => h⟩
  | cons op ops ih =>
    refine ⟨⟨?_, ?_⟩, ?_⟩
    · rintro ⟨hop, hrest⟩
      exact ⟨(hok s t op h).mp hop, (ih (hstep s t op h hop)).1.mp hrest⟩
    · rintro ⟨hop, hrest⟩
      have hop' := (hok s t op h).mpr hop
      exact ⟨hop', (ih (hstep s t op h hop')).1.mpr hrest⟩
    · rintro ⟨hop, hrest⟩
      exact (ih (hstep s t op h hop)).2 hrest

/-- A condition that holds of every step in every state holds along every run. -/
theorem along_of_forall {ok : σ → ο → Prop} {ops : List ο} (h : ∀ s, ∀ op ∈ ops, ok s op) (s : σ) :
    Along step ok s ops := by
  induction ops generalizing s with
  | nil => trivial
  | cons op ops ih =>
    exact ⟨h s op List.mem_cons_self, ih (fun s op' h' => h s op' (List.mem_cons_of_mem _ h')) _⟩

theorem along_and {ok ok' : σ → ο → Prop} (s : σ) (ops : List ο) :
    Along step (fun s op => ok s op ∧ ok' s op) s ops ↔
      Along step ok s ops ∧ Along step ok' s ops := by
  induction ops generalizing s with
  | nil => simp [Along]
  | cons op ops ih =>
    simp only [Along, ih]
    tauto

/-- A property holds in every state of a run iff it holds in the first one and after
every step. -/
theorem forall_take_iff {p : σ → Prop} (s : σ) (ops : List ο) :
    (∀ n, p (run step s (ops.take n))) ↔ p s ∧ Along step (fun s op => p (step s op)) s ops := by
  induction ops generalizing s with
  | nil => simp [Along]
  | cons op ops ih =>
    constructor
    · intro h
      have hrest := (ih (step s op)).mp fun n => h (n + 1)
      exact ⟨h 0, hrest⟩
    · rintro ⟨hs, hop, hrest⟩ n
      cases n with
      | zero => exact hs
      | succ n => exact (ih (step s op)).mpr ⟨hop, hrest⟩ n

theorem along_append_singleton {ok : σ → ο → Prop} (s : σ) (ops : List ο) (op : ο) :
    Along step ok s (ops ++ [op]) ↔ Along step ok s ops ∧ ok (run step s ops) op := by
  induction ops generalizing s with
  | nil => simp [Along]
  | cons op' ops ih => simp only [List.cons_append, Along, ih, run_cons, and_assoc]

/-- **A property of histories holds at every point of a run iff every step of the run
meets the condition under which a step keeps it.** -/
theorem history_iff (p : List ο → Prop) {ok : σ → ο → Prop} {s : σ} (hnil : p [])
    (hstep : ∀ ops op, p ops → (p (ops ++ [op]) ↔ ok (run step s ops) op)) (ops : List ο) :
    (∀ n, p (ops.take n)) ↔ Along step ok s ops := by
  induction ops using List.reverseRecOn with
  | nil => simpa [Along] using hnil
  | append_singleton ops op ih =>
    rw [along_append_singleton, ← ih]
    constructor
    · intro h
      have hpre : ∀ n, p (ops.take n) := by
        intro n
        rcases le_total n ops.length with hle | hge
        · have hn := h n
          rwa [List.take_append_of_le_length hle] at hn
        · have hn := h ops.length
          rw [List.take_append_of_le_length le_rfl, List.take_length] at hn
          rwa [List.take_of_length_le hge]
      refine ⟨hpre, (hstep ops op ?_).mp ?_⟩
      · simpa using hpre ops.length
      · have hn := h (ops.length + 1)
        rwa [List.take_of_length_le (by simp)] at hn
    · rintro ⟨hpre, hok⟩ n
      have hall : p ops := by simpa using hpre ops.length
      rcases Nat.lt_or_ge n (ops.length + 1) with hlt | hge
      · rw [List.take_append_of_le_length (Nat.lt_succ_iff.mp hlt)]
        exact hpre n
      · rw [List.take_of_length_le (by simpa using hge)]
        exact (hstep ops op hall).mpr hok

/-! ### Flags -/

/-- Some step of the history raised the flag and no later one cleared it. -/
def Since (step : σ → ο → σ) (raised cleared : σ → ο → Prop) (s : σ) (ops : List ο) : Prop :=
  ∃ pre op post, ops = pre ++ op :: post ∧ raised (run step s pre) op ∧
    Along step (fun s op => ¬ cleared s op) (run step s (pre ++ [op])) post

variable {raised cleared : σ → ο → Prop}

theorem not_since_nil (s : σ) : ¬ Since step raised cleared s [] := by
  rintro ⟨pre, op, post, heq, -⟩
  cases pre <;> cases heq

theorem not_since (h : ∀ s op, ¬ raised s op) (s : σ) (ops : List ο) :
    ¬ Since step raised cleared s ops := by
  rintro ⟨pre, op, post, -, hraised, -⟩
  exact h _ _ hraised

/-- A flag is up after a step iff the step raised it, or it was up and the step did not
clear it. -/
theorem since_append_singleton (s : σ) (ops : List ο) (op : ο) :
    Since step raised cleared s (ops ++ [op]) ↔
      raised (run step s ops) op ∨
        Since step raised cleared s ops ∧ ¬ cleared (run step s ops) op := by
  constructor
  · rintro ⟨pre, op', post, heq, hraised, hkept⟩
    rcases List.eq_nil_or_concat' post with rfl | ⟨post, last, rfl⟩
    · obtain ⟨rfl, hop⟩ := List.append_inj' heq rfl
      obtain rfl : op = op' := List.singleton_inj.mp hop
      exact Or.inl hraised
    · rw [← List.cons_append, ← List.append_assoc] at heq
      obtain ⟨rfl, hop⟩ := List.append_inj' heq rfl
      obtain rfl : op = last := List.singleton_inj.mp hop
      rw [along_append_singleton, ← run_append, List.append_assoc, List.singleton_append] at hkept
      exact Or.inr ⟨⟨pre, op', post, rfl, hraised, hkept.1⟩, hkept.2⟩
  · rintro (hraised | ⟨⟨pre, op', post, rfl, hraised, hkept⟩, hnot⟩)
    · exact ⟨ops, op, [], rfl, hraised, trivial⟩
    · refine ⟨pre, op', post ++ [op], by simp, hraised, ?_⟩
      rw [along_append_singleton, ← run_append, List.append_assoc, List.singleton_append]
      exact ⟨hkept, hnot⟩

/-- **A flag that each step raises or clears is up after a run iff some step raised it
and no later one cleared it.** -/
theorem flag_iff_since (flag inv : σ → Prop) (hinv : ∀ s op, inv s → inv (step s op))
    (hstep : ∀ s op, inv s → (flag (step s op) ↔ raised s op ∨ flag s ∧ ¬ cleared s op))
    {s : σ} (hs : inv s) (hdown : ¬ flag s) (ops : List ο) :
    flag (run step s ops) ↔ Since step raised cleared s ops := by
  induction ops using List.reverseRecOn with
  | nil => exact iff_of_false hdown (not_since_nil s)
  | append_singleton ops op ih =>
    rw [since_append_singleton, run_append_singleton,
      hstep _ op (run_invariant hinv hs ops), ih]

/-! ### Traces -/

/-- What each step of a run shows, oldest first. -/
def trace (step : σ → ο → σ) (view : σ → ο → ε) : σ → List ο → List ε
  | _, [] => []
  | s, op :: ops => view s op :: trace step view (step s op) ops

theorem trace_append (view : σ → ο → ε) (s : σ) (ops ops' : List ο) :
    trace step view s (ops ++ ops') =
      trace step view s ops ++ trace step view (run step s ops) ops' := by
  induction ops generalizing s with
  | nil => rfl
  | cons op ops ih => exact congrArg (view s op :: ·) (ih (step s op))

theorem trace_append_singleton {view : σ → ο → ε} (s : σ) (ops : List ο) (op : ο) :
    trace step view s (ops ++ [op]) = trace step view s ops ++ [view (run step s ops) op] :=
  trace_append view s ops [op]

@[simp] theorem length_trace (view : σ → ο → ε) (s : σ) (ops : List ο) :
    (trace step view s ops).length = ops.length := by
  induction ops generalizing s with
  | nil => rfl
  | cons op ops ih => exact congrArg (· + 1) (ih (step s op))

/-- What a step of a run shows, by the state it is taken in. -/
theorem getElem?_trace (view : σ → ο → ε) (s : σ) (ops : List ο) (n : Nat) :
    (trace step view s ops)[n]? = ops[n]?.map (view (run step s (ops.take n))) := by
  induction ops generalizing s n with
  | nil => rfl
  | cons op ops ih =>
    cases n with
    | zero => rfl
    | succ n => exact ih (step s op) n

/-- **A log to which each step appends what it shows.** -/
theorem run_log {f : σ → List ε} {view : σ → ο → ε}
    (hstep : ∀ s op, f (step s op) = f s ++ [view s op]) (s : σ) (ops : List ο) :
    f (run step s ops) = f s ++ trace step view s ops := by
  induction ops generalizing s with
  | nil => exact (List.append_nil _).symm
  | cons op ops ih => rw [run_cons, ih, hstep, List.append_assoc, List.singleton_append, trace]

/-- A list to which each step appends something that only depends on the operation. -/
theorem run_flatMap {f : σ → List ε} {g : ο → List ε}
    (hstep : ∀ s op, f (step s op) = f s ++ g op) (s : σ) (ops : List ο) :
    f (run step s ops) = f s ++ ops.flatMap g := by
  induction ops generalizing s with
  | nil => exact (List.append_nil _).symm
  | cons op ops ih => rw [run_cons, ih, hstep, List.append_assoc, List.flatMap_cons]

/-! ### Counters -/

/-- **A counter is what it was before the run plus the increments of its steps.** -/
theorem run_counter {f : σ → Nat} {g : σ → ο → Nat} (hstep : ∀ s op, f (step s op) = f s + g s op)
    (s : σ) (ops : List ο) : f (run step s ops) = f s + (trace step g s ops).sum := by
  induction ops generalizing s with
  | nil => rfl
  | cons op ops ih => rw [run_cons, ih, hstep, trace, List.sum_cons, Nat.add_assoc]

theorem sum_trace_add (g g' : σ → ο → Nat) (s : σ) (ops : List ο) :
    (trace step (fun s op => g s op + g' s op) s ops).sum =
      (trace step g s ops).sum + (trace step g' s ops).sum := by
  induction ops generalizing s with
  | nil => rfl
  | cons op ops ih =>
    simp only [trace, List.sum_cons, ih]
    omega

/-- Increments that count what the steps show. -/
theorem sum_trace_view (view : σ → ο → ε) (p : ε → Bool) (s : σ) (ops : List ο) :
    (trace step (fun s op => (p (view s op)).toNat) s ops).sum =
      (trace step view s ops).countP p := by
  induction ops generalizing s with
  | nil => rfl
  | cons op ops ih =>
    simp only [trace, List.sum_cons, List.countP_cons, ih]
    cases p (view s op) <;> simp [Nat.add_comm]

/-- Increments that count operations. -/
theorem sum_trace_op (p : ο → Bool) (s : σ) (ops : List ο) :
    (trace step (fun _ op => (p op).toNat) s ops).sum = ops.countP p := by
  induction ops generalizing s with
  | nil => rfl
  | cons op ops ih =>
    simp only [trace, List.sum_cons, List.countP_cons, ih]
    cases p op <;> simp [Nat.add_comm]

/-- Increments bounded by others that add up to as much are equal to them at each step. -/
theorem along_of_sum_le {g g' : σ → ο → Nat} (hle : ∀ s op, g s op ≤ g' s op) (s : σ)
    (ops : List ο) (hsum : (trace step g' s ops).sum ≤ (trace step g s ops).sum) :
    Along step (fun s op => g s op = g' s op) s ops := by
  have hbound : ∀ s ops, (trace step g s ops).sum ≤ (trace step g' s ops).sum := by
    intro s ops
    induction ops generalizing s with
    | nil => exact le_rfl
    | cons op ops ih => exact Nat.add_le_add (hle s op) (ih (step s op))
  induction ops generalizing s with
  | nil => trivial
  | cons op ops ih =>
    have hhead := hle s op
    have htail := hbound (step s op) ops
    simp only [trace, List.sum_cons] at hsum
    exact ⟨by omega, ih (step s op) (by omega)⟩

/-! ### Following a law -/

/-- **An observation follows a law through a whole run iff it does so in every step
of the run.** `inv` is whatever the step analysis needs to know about states. -/
theorem tracks_iff {obs : σ → β} {view : σ → ο → ε} {law : β → ε → β} {ok : σ → ο → Prop}
    {inv : σ → Prop} (hinv : ∀ s op, inv s → inv (step s op))
    (hstep : ∀ s op, inv s → (obs (step s op) = law (obs s) (view s op) ↔ ok s op))
    {s : σ} (hs : inv s) (ops : List ο) :
    (∀ n, obs (run step s (ops.take n)) = (trace step view s (ops.take n)).foldl law (obs s)) ↔
      Along step ok s ops := by
  induction ops generalizing s with
  | nil => simp [Along, trace]
  | cons op ops ih =>
    constructor
    · intro h
      have hone : obs (step s op) = law (obs s) (view s op) := by simpa [trace] using h 1
      refine ⟨(hstep s op hs).mp hone, (ih (hinv s op hs)).mp fun n => ?_⟩
      simpa [trace, hone] using h (n + 1)
    · rintro ⟨hop, hrest⟩ n
      have hone := (hstep s op hs).mpr hop
      cases n with
      | zero => simp [trace]
      | succ n => simpa [trace, hone] using (ih (hinv s op hs)).mpr hrest n

/-! ### Runs over time -/

section Timed

variable {f : Nat → σ} {x : Nat → ο} (hf : ∀ t, f (t + 1) = step (f t) (x (t + 1)))
include hf

/-- What each step preserves holds from the time on at which it holds. -/
theorem timed_invariant {p : σ → Prop} (hstep : ∀ s op, p s → p (step s op)) {a : Nat}
    (ha : p (f a)) : ∀ t, a ≤ t → p (f t) := by
  intro t hat
  induction t, hat using Nat.le_induction with
  | base => exact ha
  | succ t _ ih =>
    rw [hf]
    exact hstep _ _ ih

/-- A machine that waits stays where it is up to the first time the wait is over. -/
theorem timed_wait {ready : ο → Prop} {s : σ} (hstay : ∀ op, ¬ ready op → step s op = s)
    {a : Nat} (ha : f a = s) (hready : ∃ t, a < t ∧ ready (x t)) :
    ∃ k, a < k ∧ ready (x k) ∧ (∀ t, a < t → t < k → ¬ ready (x t)) ∧
      ∀ t, a ≤ t → t < k → f t = s := by
  classical
  have hspec := Nat.find_spec hready
  have hfirst : ∀ t, a < t → t < Nat.find hready → ¬ ready (x t) :=
    fun t hat htk hr => Nat.find_min hready htk ⟨hat, hr⟩
  refine ⟨Nat.find hready, hspec.1, hspec.2, hfirst, fun t hat => ?_⟩
  induction t, hat using Nat.le_induction with
  | base => exact fun _ => ha
  | succ t hat ih =>
    intro htk
    rw [hf, ih (Nat.lt_of_succ_lt htk)]
    exact hstay _ (hfirst _ (Nat.lt_succ_of_le hat) htk)

end Timed

end Testbench.Lib
