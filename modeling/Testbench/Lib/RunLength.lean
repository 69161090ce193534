import Mathlib

/-!
Runs of equal elements.

`exists_run_append` and `forall_mem_splitBy_run_append` take a list apart run by run.
`tailRun` is what a counter of consecutive elements holds that starts over at every other
element; a list contains `k` equal elements in a row iff the counter reaches `k` on the
way (`replicate_infix_iff`).
-/

namespace Testbench.Lib

variable {α : Type*} [DecidableEq α]

/-! ### The first run -/

omit [DecidableEq α] in
/-- A nonempty list starts with a run that ends where the list does or at another
element. -/
theorem exists_run_append (a : α) (l : List α) :
    ∃ m rest, a :: l = List.replicate (m + 1) a ++ rest ∧ rest.head? ≠ some a := by
  induction l with
  | nil => exact ⟨0, [], rfl, by simp⟩
  | cons b l ih =>
    by_cases hb : b = a
    · subst hb
      obtain ⟨m, rest, heq, hhead⟩ := ih
      refine ⟨m + 1, rest, ?_, hhead⟩
      rw [heq, List.replicate_succ (n := m + 1), List.cons_append]
    · exact ⟨0, b :: l, rfl, by simpa using hb⟩

/-- What holds of all runs holds of the first one and of those of the rest. -/
theorem forall_mem_splitBy_run_append {p : List α → Prop} {a : α} {m : Nat} {rest : List α}
    (h : rest.head? ≠ some a) :
    (∀ r ∈ (List.replicate (m + 1) a ++ rest).splitBy (· == ·), p r) ↔
      p (List.replicate (m + 1) a) ∧ ∀ r ∈ rest.splitBy (· == ·), p r := by
  have hsplit : (List.replicate (m + 1) a ++ rest).splitBy (· == ·) =
      [List.replicate (m + 1) a] ++ rest.splitBy (· == ·) := by
    rw [List.splitBy_append, List.splitBy_of_isChain (by simp)]
    · exact List.isChain_replicate_of_rel _ (beq_self_eq_true a)
    · intro x hx y hy
      rw [List.getLast?_replicate, if_neg (Nat.succ_ne_zero m), Option.mem_some_iff] at hx
      subst hx
      rw [beq_eq_false_iff_ne]
      rintro rfl
      exact h hy
  rw [hsplit]
  simp

/-! ### Counting at the end -/

/-- How many elements equal to `a` a list ends with. -/
def tailRun (a : α) (l : List α) : Nat := l.foldl (fun n b => if b = a then n + 1 else 0) 0

@[simp] theorem tailRun_nil (a : α) : tailRun a [] = 0 := rfl

theorem tailRun_concat (a b : α) (l : List α) :
    tailRun a (l ++ [b]) = if b = a then tailRun a l + 1 else 0 := by
  rw [tailRun, List.foldl_append]
  rfl

theorem replicate_suffix_iff {a : α} {k : Nat} {l : List α} :
    List.replicate k a <:+ l ↔ k ≤ tailRun a l := by
  induction l using List.reverseRecOn generalizing k with
  | nil => simp
  | append_singleton l b ih =>
    cases k with
    | zero => simp
    | succ k =>
      rw [tailRun_concat, List.replicate_succ', List.suffix_concat_iff]
      by_cases hb : b = a
      · subst hb
        rw [if_pos rfl, Nat.succ_le_succ_iff, ← ih]
        simp
      · rw [if_neg hb]
        simp [Ne.symm hb]

/-- **A run of `k` occurs iff the counter reaches `k` on the way.** -/
theorem replicate_infix_iff {a : α} {k : Nat} {l : List α} :
    List.replicate k a <:+: l ↔ ∃ p, p <+: l ∧ k ≤ tailRun a p := by
  rw [List.infix_iff_suffix_prefix]
  simp only [replicate_suffix_iff]
  exact exists_congr fun p => and_comm

/-! ### The first prefix -/

omit [DecidableEq α] in
/-- The shortest prefix with a property. -/
theorem exists_first_prefix {p : List α → Prop} {l : List α} (hnil : ¬ p []) (hl : p l) :
    ∃ pre a rest, l = pre ++ a :: rest ∧ p (pre ++ [a]) ∧ ∀ q, q <+: pre → ¬ p q := by
  classical
  have htake : ∃ n, p (l.take n) := ⟨l.length, by rwa [List.take_length]⟩
  set n := Nat.find htake with hn
  have hfirst : p (l.take n) := Nat.find_spec htake
  have hbefore : ∀ k, k < n → ¬ p (l.take k) := fun k hk => Nat.find_min htake hk
  have hpos : n ≠ 0 := by
    intro h0
    rw [h0] at hfirst
    exact hnil hfirst
  obtain ⟨k, hk⟩ := Nat.exists_eq_succ_of_ne_zero hpos
  have hlt : k < l.length := by
    by_contra hge
    have hsame : l.take n = l.take k := by
      rw [List.take_of_length_le (by omega), List.take_of_length_le (by omega)]
    exact hbefore k (by omega) (hsame ▸ hfirst)
  refine ⟨l.take k, l[k], l.drop (k + 1), ?_, ?_, ?_⟩
  · rw [← List.drop_eq_getElem_cons hlt, List.take_append_drop]
  · rw [hk, List.take_succ_eq_append_getElem hlt] at hfirst
    exact hfirst
  · intro q hq
    have hqk : q.length ≤ k := le_trans hq.length_le (List.length_take_le k l)
    have hql : q = l.take q.length :=
      List.prefix_iff_eq_take.mp (hq.trans (List.take_prefix k l))
    rw [hql]
    exact hbefore _ (by omega)

end Testbench.Lib
