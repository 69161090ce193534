import Mathlib

/-!
Statistics by group.

A dictionary is a list of keys and values, new keys at the end. `groupFold` takes records
one by one, enters the group of each if it is new, and updates the value of that group.
`groupFold_eq` says what comes out: the groups in the order they first occur, each with the
fold over its own records. So counts by group add up to the count over all records
(`sum_groupFold`), and the order of the records decides only the order of the groups
(`groupFold_perm`).
-/

namespace Testbench.Lib

variable {κ ν ρ : Type*} [DecidableEq κ]

/-! ### Dictionaries -/

/-- `if k not in d: d[k] = v` -/
def setDefault (d : List (κ × ν)) (k : κ) (v : ν) : List (κ × ν) :=
  if k ∈ d.map Prod.fst then d else d ++ [(k, v)]

/-- Replaces the value of a key. -/
def modify (d : List (κ × ν)) (k : κ) (f : ν → ν) : List (κ × ν) :=
  d.map fun entry => if entry.1 = k then (entry.1, f entry.2) else entry

/-- Takes records one by one, each into the value of its group. -/
def groupFold (key : ρ → κ) (init : ν) (step : ν → ρ → ν) (records : List ρ) : List (κ × ν) :=
  records.foldl (fun d r => modify (setDefault d (key r) init) (key r) (step · r)) []

/-! ### Groups -/

/-- The keys that occur, in the order they first do. -/
def firstKeys (keys : List κ) : List κ :=
  keys.foldl (fun seen k => if k ∈ seen then seen else seen ++ [k]) []

theorem firstKeys_concat (keys : List κ) (k : κ) :
    firstKeys (keys ++ [k]) =
      if k ∈ firstKeys keys then firstKeys keys else firstKeys keys ++ [k] := by
  rw [firstKeys, List.foldl_append]
  rfl

@[simp] theorem mem_firstKeys {keys : List κ} {k : κ} : k ∈ firstKeys keys ↔ k ∈ keys := by
  induction keys using List.reverseRecOn with
  | nil => exact Iff.rfl
  | append_singleton keys k' ih =>
    rw [firstKeys_concat, List.mem_append, List.mem_singleton, ← ih]
    by_cases hold : k' ∈ firstKeys keys
    · rw [if_pos hold]
      refine ⟨Or.inl, ?_⟩
      rintro (h | rfl)
      · exact h
      · exact hold
    · rw [if_neg hold, List.mem_append, List.mem_singleton]

theorem nodup_firstKeys (keys : List κ) : (firstKeys keys).Nodup := by
  induction keys using List.reverseRecOn with
  | nil => exact List.nodup_nil
  | append_singleton keys k ih =>
    rw [firstKeys_concat]
    by_cases hold : k ∈ firstKeys keys
    · rwa [if_pos hold]
    · rw [if_neg hold, ← List.concat_eq_append]
      exact List.Nodup.concat hold ih

theorem firstKeys_perm {keys keys' : List κ} (h : keys.Perm keys') :
    (firstKeys keys).Perm (firstKeys keys') := by
  rw [List.perm_ext_iff_of_nodup (nodup_firstKeys keys) (nodup_firstKeys keys')]
  intro k
  rw [mem_firstKeys, mem_firstKeys, h.mem_iff]

/-! ### The value of each group -/

variable {key : ρ → κ} {init : ν} {step : ν → ρ → ν}

/-- The records of a group. -/
def groupOf (key : ρ → κ) (records : List ρ) (k : κ) : List ρ := records.filter (key · = k)

theorem groupOf_concat (records : List ρ) (r : ρ) (k : κ) :
    groupOf key (records ++ [r]) k =
      if key r = k then groupOf key records k ++ [r] else groupOf key records k := by
  unfold groupOf
  rw [List.filter_append]
  by_cases h : key r = k
  · simp [h]
  · simp [h]

theorem groupOf_eq_nil {records : List ρ} {k : κ} (h : k ∉ records.map key) :
    groupOf key records k = [] := by
  unfold groupOf
  rw [List.filter_eq_nil_iff]
  intro r hr
  rw [decide_eq_true_iff]
  rintro rfl
  exact h (List.mem_map_of_mem hr)

/-- **Each group that occurs is there once, with the fold over its records.** -/
theorem groupFold_eq (records : List ρ) :
    groupFold key init step records =
      (firstKeys (records.map key)).map fun k => (k, (groupOf key records k).foldl step init) := by
  induction records using List.reverseRecOn with
  | nil => rfl
  | append_singleton records r ih =>
    have hfold : groupFold key init step (records ++ [r]) =
        modify (setDefault (groupFold key init step records) (key r) init) (key r) (step · r) := by
      rw [groupFold, List.foldl_append]
      rfl
    -- a group that is new has no records yet
    have hset : setDefault (groupFold key init step records) (key r) init =
        (firstKeys ((records ++ [r]).map key)).map fun k =>
          (k, (groupOf key records k).foldl step init) := by
      rw [ih, setDefault, List.map_append, List.map_singleton, firstKeys_concat, List.map_map]
      have hkeys : ((firstKeys (records.map key)).map
          (Prod.fst ∘ fun k => (k, (groupOf key records k).foldl step init))) =
            firstKeys (records.map key) := List.map_id _
      rw [hkeys]
      split
      · rfl
      · next hnew =>
        rw [mem_firstKeys] at hnew
        rw [List.map_append, List.map_singleton, groupOf_eq_nil hnew]
        rfl
    rw [hfold, hset, modify, List.map_map]
    apply List.map_congr_left
    intro k _
    simp only [Function.comp_apply, groupOf_concat]
    by_cases hk : k = key r
    · rw [if_pos hk, if_pos hk.symm, List.foldl_append]
      rfl
    · rw [if_neg hk, if_neg (Ne.symm hk)]

theorem keys_groupFold (records : List ρ) :
    (groupFold key init step records).map Prod.fst = firstKeys (records.map key) := by
  rw [groupFold_eq, List.map_map]
  exact List.map_id _

/-- Every record is in the group of its key and in no other. -/
theorem sum_countP_groupOf (p : ρ → Bool) {keys : List κ} (hnodup : keys.Nodup)
    {records : List ρ} (hmem : ∀ r ∈ records, key r ∈ keys) :
    (keys.map fun k => (groupOf key records k).countP p).sum = records.countP p := by
  induction keys generalizing records with
  | nil =>
    obtain rfl : records = [] :=
      List.eq_nil_iff_forall_not_mem.mpr fun r hr => List.not_mem_nil (hmem r hr)
    rfl
  | cons k keys ih =>
    obtain ⟨hk, hnodup⟩ := List.nodup_cons.mp hnodup
    set others := records.filter (fun r => !decide (key r = k)) with hothers
    have hrest : ∀ r ∈ others, key r ∈ keys := by
      intro r hr
      obtain ⟨hr, hne⟩ := List.mem_filter.mp hr
      exact (List.mem_cons.mp (hmem r hr)).resolve_left (by simpa using hne)
    have hgroup : ∀ k' ∈ keys, groupOf key others k' = groupOf key records k' := by
      intro k' hk'
      unfold groupOf
      rw [hothers, List.filter_filter]
      apply List.filter_congr
      intro r _
      by_cases h : key r = k'
      · have hne : key r ≠ k := by
          rintro rfl
          exact hk (h ▸ hk')
        simp [h, h ▸ hne]
      · simp [h]
    have hsplit := List.countP_eq_countP_filter_add records p (fun r => decide (key r = k))
    rw [List.map_cons, List.sum_cons, hsplit, ← ih hnodup hrest]
    congr 2
    exact List.map_congr_left fun k' hk' => by rw [hgroup k' hk']

/-- A quantity that counts records in each group counts them all. -/
theorem sum_groupFold {f : ν → Nat} {p : ρ → Bool}
    (hf : ∀ records : List ρ, f (records.foldl step init) = records.countP p) (records : List ρ) :
    ((groupFold key init step records).map fun entry => f entry.2).sum = records.countP p := by
  rw [groupFold_eq, List.map_map]
  simp only [Function.comp_def, hf]
  apply sum_countP_groupOf p (nodup_firstKeys _)
  intro r hr
  rw [mem_firstKeys]
  exact List.mem_map_of_mem hr

/-- **The order of the records decides only the order of the groups**, if it does not
matter to the fold. -/
theorem groupFold_perm {records records' : List ρ}
    (hcomm : ∀ v r r', step (step v r) r' = step (step v r') r) (h : records.Perm records') :
    (groupFold key init step records).Perm (groupFold key init step records') := by
  have hvalues : ∀ k, (groupOf key records k).foldl step init =
      (groupOf key records' k).foldl step init := by
    intro k
    exact (h.filter _).foldl_eq' (fun r _ r' _ v => hcomm v r r') init
  rw [groupFold_eq, groupFold_eq]
  simp only [hvalues]
  exact (firstKeys_perm (h.map key)).map _

end Testbench.Lib
