import Mathlib

/-!
Lists, element by element: two lists in a relation, a list of options that are all defined, and
what stays of a list when its end is dropped.
-/

namespace Testbench.Lib

/-! ### Related lists -/

theorem exists_of_forall₂ {α β : Type*} {r : α → β → Prop} {l : List α} {l' : List β}
    (h : List.Forall₂ r l l') {b : β} (hb : b ∈ l') : ∃ a ∈ l, r a b := by
  induction h with
  | nil => cases hb
  | cons hr _ ih =>
    rcases List.mem_cons.mp hb with rfl | hb
    · exact ⟨_, List.mem_cons_self, hr⟩
    · obtain ⟨a, ha, hr⟩ := ih hb
      exact ⟨a, List.mem_cons_of_mem _ ha, hr⟩

/-- Selecting what a partial function is defined on. -/
theorem forall₂_filterMap {α β : Type*} {p : α → Bool} {f : α → Option β} {R : α → β → Prop}
    {l : List α} (hsome : ∀ x ∈ l, p x = true → ∃ y, f x = some y ∧ R x y)
    (hnone : ∀ x ∈ l, p x = false → f x = none) :
    List.Forall₂ R (l.filter p) (l.filterMap f) := by
  induction l with
  | nil => exact .nil
  | cons x l ih =>
    have hrest := ih (fun y hy => hsome y (List.mem_cons_of_mem _ hy))
      (fun y hy => hnone y (List.mem_cons_of_mem _ hy))
    cases hp : p x with
    | false =>
      rw [List.filter_cons_of_neg (by simp [hp]),
        List.filterMap_cons_none (hnone x List.mem_cons_self hp)]
      exact hrest
    | true =>
      obtain ⟨y, hy, hR⟩ := hsome x List.mem_cons_self hp
      rw [List.filter_cons_of_pos hp, List.filterMap_cons_some hy]
      exact .cons hR hrest

/-! ### Options -/

/-- A list of options that are all defined. -/
theorem mapM_id_eq_some_iff {α : Type} {l : List (Option α)} {l' : List α} :
    l.mapM id = some l' ↔ l = l'.map some := by
  constructor
  · intro h
    induction l generalizing l' with
    | nil =>
      obtain rfl := Option.some.inj h
      rfl
    | cons x l ih =>
      rw [List.mapM_cons] at h
      obtain ⟨a, hx, h⟩ := Option.bind_eq_some_iff.mp h
      obtain ⟨rest, hrest, h⟩ := Option.bind_eq_some_iff.mp h
      obtain rfl := Option.some.inj h
      obtain rfl : x = some a := hx
      rw [ih hrest]
      rfl
  · rintro rfl
    induction l' with
    | nil => rfl
    | cons a l' ih =>
      rw [List.map_cons, List.mapM_cons, ih]
      rfl

/-! ### Ends -/

theorem rdropWhile_cons_of_neg {α : Type*} {p : α → Bool} {a : α} (ha : ¬ p a) (l : List α) :
    (a :: l).rdropWhile p = a :: l.rdropWhile p := by
  induction l using List.reverseRecOn with
  | nil => exact List.rdropWhile_concat_neg p [] a ha
  | append_singleton l b ih =>
    rw [← List.cons_append]
    by_cases hb : p b
    · rw [List.rdropWhile_concat_pos _ _ _ hb, List.rdropWhile_concat_pos _ _ _ hb, ih]
    · rw [List.rdropWhile_concat_neg _ _ _ hb, List.rdropWhile_concat_neg _ _ _ hb]
      rfl

end Testbench.Lib
