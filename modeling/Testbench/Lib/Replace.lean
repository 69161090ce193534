import Mathlib

/-!
Replacing the occurrences of a pattern in a list, as `str.replace` does: from the left, and
without overlaps.

`replaceAll_induction` walks over a list as the replacement does, occurrence by occurrence.
`replaceAll_append` takes a replacement apart where the pattern does not reach across: it is
enough that no two adjacent elements of it meet at the border (`Apart`).
-/

namespace Testbench.Lib

variable {α : Type*} [DecidableEq α]

/-- The rest of a replacement, of which `skip` elements are behind an occurrence. -/
def replaceFrom (pat rep : List α) : Nat → List α → List α
  | _, [] => []
  | skip + 1, _ :: l => replaceFrom pat rep skip l
  | 0, a :: l =>
      if pat.isPrefixOf (a :: l) then rep ++ replaceFrom pat rep (pat.length - 1) l
      else a :: replaceFrom pat rep 0 l

/-- `l.replace(pat, rep)`, for a pattern that is not empty. -/
def replaceAll (pat rep l : List α) : List α := replaceFrom pat rep 0 l

section Replace

variable {pat rep a b l : List α}

@[simp] theorem replaceAll_nil : replaceAll pat rep [] = [] := rfl

theorem replaceFrom_append (a b : List α) :
    replaceFrom pat rep a.length (a ++ b) = replaceFrom pat rep 0 b := by
  induction a with
  | nil => rfl
  | cons x a ih => exact ih

/-- An occurrence at the front. -/
theorem replaceAll_hit (hpat : pat ≠ []) (l : List α) :
    replaceAll pat rep (pat ++ l) = rep ++ replaceAll pat rep l := by
  obtain ⟨x, p, rfl⟩ := List.exists_cons_of_ne_nil hpat
  have hfirst : (x :: p).isPrefixOf (x :: (p ++ l)) = true :=
    List.isPrefixOf_iff_prefix.mpr (List.prefix_append (x :: p) l)
  rw [replaceAll, List.cons_append, replaceFrom, if_pos hfirst, List.length_cons,
    Nat.add_sub_cancel, replaceFrom_append]
  rfl

/-- No occurrence at the front. -/
theorem replaceAll_miss {x : α} (h : ¬ pat <+: x :: l) :
    replaceAll pat rep (x :: l) = x :: replaceAll pat rep l := by
  rw [replaceAll, replaceFrom, if_neg (mt List.isPrefixOf_iff_prefix.mp h)]
  rfl

/-- The walk of a replacement. -/
theorem replaceAll_induction {motive : List α → Prop} (hpat : pat ≠ []) (nil : motive [])
    (hit : ∀ l, motive l → motive (pat ++ l))
    (miss : ∀ x l, ¬ pat <+: x :: l → motive l → motive (x :: l)) (l : List α) : motive l := by
  induction hn : l.length using Nat.strong_induction_on generalizing l with
  | _ n ih =>
    cases l with
    | nil => exact nil
    | cons x l =>
      by_cases hfirst : pat <+: x :: l
      · obtain ⟨t, ht⟩ := hfirst
        have hlength := congrArg List.length ht
        rw [List.length_append, hn] at hlength
        have hpos := List.length_pos_of_ne_nil hpat
        rw [← ht]
        exact hit t (ih t.length (by omega) t rfl)
      · exact miss x l hfirst (ih l.length (by rw [← hn, List.length_cons]; omega) l rfl)

theorem replaceAll_of_not_infix (h : ¬ pat <:+: l) : replaceAll pat rep l = l := by
  induction l with
  | nil => rfl
  | cons x l ih =>
    rw [List.infix_cons_iff, not_or] at h
    rw [replaceAll_miss h.1, ih h.2]

/-- Where the first element of the pattern is missing nothing happens. -/
theorem replaceAll_append_of_notMem {x : α} {p : List α} (h : x ∉ a) :
    replaceAll (x :: p) rep (a ++ b) = a ++ replaceAll (x :: p) rep b := by
  induction a with
  | nil => rfl
  | cons y a ih =>
    rw [List.mem_cons, not_or] at h
    rw [List.cons_append, replaceAll_miss, ih h.2, List.cons_append]
    rw [List.cons_prefix_cons]
    exact fun hp => h.1 hp.1

/-- The only occurrence is at the end. -/
theorem replaceAll_concat (hpat : pat ≠ [])
    (h : ∀ u v : List α, a ++ pat = u ++ pat ++ v → v = []) :
    replaceAll pat rep (a ++ pat) = a ++ rep := by
  induction a with
  | nil =>
    have hhit : replaceAll pat rep (pat ++ []) = _ := replaceAll_hit hpat []
    rwa [List.append_nil, replaceAll_nil, List.append_nil] at hhit
  | cons x a ih =>
    rw [List.cons_append, replaceAll_miss, ih, List.cons_append]
    · intro u v huv
      exact h (x :: u) v (by rw [List.cons_append, huv, List.cons_append, List.cons_append])
    · rintro ⟨t, ht⟩
      have hnil := h [] t (by rw [List.nil_append, ht, List.cons_append])
      rw [hnil, List.append_nil] at ht
      have hlength := congrArg List.length ht
      rw [List.length_cons, List.length_append] at hlength
      omega

/-- The occurrences of one element. -/
theorem replaceAll_singleton (x : α) (rep l : List α) :
    replaceAll [x] rep l = l.flatMap fun y => if y = x then rep else [y] := by
  induction l with
  | nil => rfl
  | cons y l ih =>
    rw [List.flatMap_cons]
    by_cases hy : y = x
    · rw [hy, if_pos rfl, ← ih]
      exact replaceAll_hit (List.cons_ne_nil x []) l
    · rw [if_neg hy, ← ih, List.singleton_append, replaceAll_miss]
      rw [List.cons_prefix_cons]
      exact fun h => hy h.1.symm

/-- Nothing new comes from a replacement. -/
theorem mem_replaceAll {x : α} (hpat : pat ≠ []) (h : x ∈ replaceAll pat rep l) :
    x ∈ l ∨ x ∈ rep := by
  induction l using replaceAll_induction hpat with
  | nil => exact .inl h
  | hit l ih =>
    rw [replaceAll_hit hpat, List.mem_append] at h
    rcases h with h | h
    · exact .inr h
    · exact (ih h).imp_left (List.mem_append_right pat)
  | miss y l hmiss ih =>
    rw [replaceAll_miss hmiss, List.mem_cons] at h
    rcases h with rfl | h
    · exact .inl List.mem_cons_self
    · exact (ih h).imp_left (List.mem_cons_of_mem y)

omit [DecidableEq α] in
theorem mem_getLast?_cons {x y : α} (h : x ∈ l.getLast?) : x ∈ (y :: l).getLast? := by
  rw [← List.singleton_append]
  exact List.mem_getLast?_append_of_mem_getLast? h

/-! ### Borders -/

/-- No two adjacent elements of the pattern meet at the border of two lists. -/
def Apart (pat a b : List α) : Prop := ∀ x ∈ a.getLast?, ∀ y ∈ b.head?, ¬ [x, y] <:+: pat

theorem replaceAll_append (hpat : pat ≠ []) (h : Apart pat a b) :
    replaceAll pat rep (a ++ b) = replaceAll pat rep a ++ replaceAll pat rep b := by
  induction a using replaceAll_induction hpat with
  | nil => rfl
  | hit l ih =>
    rw [List.append_assoc, replaceAll_hit hpat, replaceAll_hit hpat, List.append_assoc]
    by_cases hl : l = []
    · rw [hl, List.nil_append, replaceAll_nil, List.nil_append]
    · rw [ih fun x hx => h x (List.mem_getLast?_append_of_mem_getLast? hx)]
  | miss x l hmiss ih =>
    have hcross : ¬ pat <+: x :: (l ++ b) := by
      rintro ⟨t, ht⟩
      rw [← List.cons_append] at ht
      rcases List.append_eq_append_iff.mp ht with ⟨c, hc, -⟩ | ⟨c, hc, hb⟩
      · exact hmiss ⟨c, hc.symm⟩
      · cases c with
        | nil => exact hmiss ⟨[], by rw [hc, List.append_nil, List.append_nil]⟩
        | cons y c =>
          obtain ⟨front, z, hz⟩ : ∃ front z, x :: l = front ++ [z] :=
            ⟨_, _, (List.dropLast_concat_getLast (List.cons_ne_nil x l)).symm⟩
          refine h z (by rw [hz, List.getLast?_concat]; rfl) y (by rw [hb]; rfl) ⟨front, c, ?_⟩
          rw [hc, hz, List.append_assoc, List.append_assoc]
          rfl
    rw [List.cons_append, replaceAll_miss hcross, replaceAll_miss hmiss, List.cons_append]
    by_cases hl : l = []
    · rw [hl, List.nil_append, replaceAll_nil, List.nil_append]
    · rw [ih fun z hz => h z (mem_getLast?_cons hz)]

/-! ### Both ends -/

/-- What is put behind an occurrence does not change the first element. -/
theorem head?_replaceAll_behind (hpat : pat ≠ []) (new l : List α) :
    (replaceAll pat (pat ++ new) l).head? = l.head? := by
  induction l using replaceAll_induction hpat with
  | nil => rfl
  | hit l _ =>
    rw [replaceAll_hit hpat, List.append_assoc, List.head?_append_of_ne_nil _ hpat,
      List.head?_append_of_ne_nil _ hpat]
  | miss x l hmiss _ => rw [replaceAll_miss hmiss, List.head?_cons, List.head?_cons]

theorem mem_head?_replaceAll {x : α} (hpat : pat ≠ []) (hrep : rep ≠ [])
    (h : x ∈ (replaceAll pat rep l).head?) : x ∈ l.head? ∨ x ∈ rep.head? := by
  induction l using replaceAll_induction hpat with
  | nil => exact .inl h
  | hit l _ =>
    rw [replaceAll_hit hpat, List.head?_append_of_ne_nil _ hrep] at h
    exact .inr h
  | miss y l hmiss _ =>
    rw [replaceAll_miss hmiss] at h
    exact .inl h

theorem replaceAll_eq_nil_iff (hpat : pat ≠ []) (hrep : rep ≠ []) :
    replaceAll pat rep l = [] ↔ l = [] := by
  induction l using replaceAll_induction hpat with
  | nil => rfl
  | hit l _ => simp [replaceAll_hit hpat, hpat, hrep]
  | miss x l hmiss _ => simp [replaceAll_miss hmiss]

theorem mem_getLast?_replaceAll {x : α} (hpat : pat ≠ []) (hrep : rep ≠ [])
    (h : x ∈ (replaceAll pat rep l).getLast?) : x ∈ l.getLast? ∨ x ∈ rep.getLast? := by
  induction l using replaceAll_induction hpat with
  | nil => exact .inl h
  | hit l ih =>
    rw [replaceAll_hit hpat] at h
    by_cases hnil : replaceAll pat rep l = []
    · rw [hnil, List.append_nil] at h
      exact .inr h
    · rw [List.getLast?_append_of_ne_nil _ hnil] at h
      exact (ih h).imp_left List.mem_getLast?_append_of_mem_getLast?
  | miss y l hmiss ih =>
    rw [replaceAll_miss hmiss] at h
    by_cases hnil : replaceAll pat rep l = []
    · rw [hnil] at h
      rw [(replaceAll_eq_nil_iff hpat hrep).mp hnil]
      exact .inl h
    · rw [← List.singleton_append, List.getLast?_append_of_ne_nil _ hnil] at h
      exact (ih h).imp_left mem_getLast?_cons

end Replace

end Testbench.Lib
