import Mathlib.Data.List.Basic
import Mathlib.Data.List.Perm.Subperm

/-! Hashes as lists of keys and values, and what their operations leave under each key. -/
namespace AggregatedLogging.Ruby

variable {κ α : Type} [BEq κ] [LawfulBEq κ] [DecidableEq κ]

theorem lookup_cons_ite (k j : κ) (v : α) (h : List (κ × α)) :
    ((j, v) :: h).lookup k = if k = j then some v else h.lookup k := by
  rw [List.lookup_cons]
  by_cases hk : k = j
  · rw [if_pos hk, hk, beq_self_eq_true]
  · rw [if_neg hk, beq_false_of_ne hk]

theorem lookup_map_values (f : κ → α → α) (h : List (κ × α)) (k : κ) :
    (h.map fun e => (e.1, f e.1 e.2)).lookup k = (h.lookup k).map (f k) := by
  induction h with
  | nil => rfl
  | cons e h ih =>
    obtain ⟨j, v⟩ := e
    rw [List.map_cons, lookup_cons_ite, lookup_cons_ite]
    by_cases hk : k = j
    · rw [if_pos hk, if_pos hk, hk, Option.map_some]
    · rw [if_neg hk, if_neg hk, ih]

theorem lookup_filter_keys (p : κ → Bool) (h : List (κ × α)) (k : κ) :
    (h.filter fun e => p e.1).lookup k = if p k then h.lookup k else none := by
  induction h with
  | nil => exact (ite_self none).symm
  | cons e h ih =>
    obtain ⟨j, v⟩ := e
    rw [List.filter_cons, lookup_cons_ite]
    by_cases hk : k = j
    · rw [if_pos hk, ← hk]
      cases hp : p k with
      | true => rw [if_pos rfl, if_pos rfl, lookup_cons_ite, if_pos rfl]
      | false =>
        rw [if_neg Bool.false_ne_true, if_neg Bool.false_ne_true, ih, hp,
          if_neg Bool.false_ne_true]
    · rw [if_neg hk]
      cases p j with
      | true => rw [if_pos rfl, lookup_cons_ite, if_neg hk, ih]
      | false => rw [if_neg Bool.false_ne_true, ih]

/-- `hash[key] = value`. -/
def store (key : κ) (value : α) : List (κ × α) → List (κ × α)
  | [] => [(key, value)]
  | e :: hash => if e.1 = key then (key, value) :: hash else e :: store key value hash

theorem lookup_store (key : κ) (value : α) (hash : List (κ × α)) (k : κ) :
    (store key value hash).lookup k = if k = key then some value else hash.lookup k := by
  induction hash with
  | nil => exact lookup_cons_ite k key value []
  | cons e hash ih =>
    obtain ⟨j, v⟩ := e
    rw [store]
    by_cases hj : j = key
    · rw [if_pos hj, lookup_cons_ite, lookup_cons_ite, hj]
      by_cases hk : k = key
      · rw [if_pos hk, if_pos hk]
      · rw [if_neg hk, if_neg hk, if_neg hk]
    · rw [if_neg hj, lookup_cons_ite, lookup_cons_ite, ih]
      by_cases hk : k = j
      · rw [if_pos hk, if_pos hk, if_neg (hk ▸ hj)]
      · rw [if_neg hk, if_neg hk]

/-- `hash.merge(other)`. -/
def merge (hash other : List (κ × α)) : List (κ × α) :=
  (hash.map fun e => (e.1, (other.lookup e.1).getD e.2)) ++
    other.filter fun e => (hash.lookup e.1).isNone

theorem lookup_merge (hash other : List (κ × α)) (k : κ) :
    (merge hash other).lookup k = (other.lookup k).or (hash.lookup k) := by
  rw [merge, List.lookup_append,
    lookup_map_values (fun j v => (other.lookup j).getD v),
    lookup_filter_keys fun j => (hash.lookup j).isNone]
  cases hash.lookup k with
  | none => rw [Option.map_none, Option.none_or, Option.or_none, Option.isNone_none, if_pos rfl]
  | some v =>
    rw [Option.map_some, Option.some_or]
    cases other.lookup k <;> rfl

omit [DecidableEq κ] in
theorem merge_nodup {hash other : List (κ × α)} (h : (hash.map Prod.fst).Nodup)
    (hother : (other.map Prod.fst).Nodup) : ((merge hash other).map Prod.fst).Nodup := by
  have hfirst : (hash.map fun e => (e.1, (other.lookup e.1).getD e.2)).map Prod.fst =
      hash.map Prod.fst := by
    rw [List.map_map]
    rfl
  rw [merge, List.map_append, hfirst]
  refine List.nodup_append.mpr ⟨h, hother.sublist (List.filter_sublist.map Prod.fst), ?_⟩
  rintro k hk j hj hkey
  obtain ⟨e, he, rfl⟩ := List.mem_map.mp hj
  obtain ⟨d, hd, rfl⟩ := List.mem_map.mp hk
  have hnone := Option.isNone_iff_eq_none.mp (List.mem_filter.mp he).2
  have hne := List.lookup_eq_none_iff.mp hnone d hd
  rw [hkey, bne_self_eq_false] at hne
  contradiction

/-- `hash.delete(key)`. -/
def delete (key : κ) (hash : List (κ × α)) : List (κ × α) := hash.filter fun e => e.1 ≠ key

theorem lookup_delete (key : κ) (hash : List (κ × α)) (k : κ) :
    (delete key hash).lookup k = if k = key then none else hash.lookup k := by
  rw [delete, lookup_filter_keys fun j => decide (j ≠ key)]
  by_cases hk : k = key
  · rw [if_pos hk, hk, if_neg (by simp)]
  · rw [if_neg hk, if_pos (by simp [hk])]

omit [BEq κ] [LawfulBEq κ] in
theorem delete_nodup (key : κ) {hash : List (κ × α)} (h : (hash.map Prod.fst).Nodup) :
    ((delete key hash).map Prod.fst).Nodup :=
  h.sublist (List.filter_sublist.map Prod.fst)

section Uniq

variable {κ : Type} [DecidableEq κ]

/-- `array.uniq`: the first one of equal elements stays. -/
def uniq : List κ → List κ
  | [] => []
  | k :: ks => k :: (uniq ks).filter fun j => j ≠ k

theorem mem_uniq {k : κ} {ks : List κ} : k ∈ uniq ks ↔ k ∈ ks := by
  induction ks with
  | nil => rfl
  | cons j ks ih =>
    rw [uniq, List.mem_cons, List.mem_cons, List.mem_filter, ih, decide_eq_true_iff]
    by_cases hk : k = j
    · exact iff_of_true (.inl hk) (.inl hk)
    · rw [and_iff_left hk]

theorem uniq_nodup (ks : List κ) : (uniq ks).Nodup := by
  induction ks with
  | nil => exact List.nodup_nil
  | cons k ks ih =>
    rw [uniq, List.nodup_cons]
    refine ⟨fun hk => ?_, ih.filter _⟩
    exact of_decide_eq_true (List.mem_filter.mp hk).2 rfl

theorem uniq_length_lt {ks js : List κ} {k : κ} (hk : k ∈ ks) (hj : k ∉ js) (hsub : js ⊆ ks) :
    (uniq js).length < (uniq ks).length := by
  have hnodup : (k :: uniq js).Nodup :=
    List.nodup_cons.mpr ⟨fun h => hj (mem_uniq.mp h), uniq_nodup js⟩
  have hsubset : k :: uniq js ⊆ uniq ks := by
    intro i hi
    rcases List.mem_cons.mp hi with rfl | hi
    · exact mem_uniq.mpr hk
    · exact mem_uniq.mpr (hsub (mem_uniq.mp hi))
  exact (hnodup.subperm hsubset).length_le

end Uniq

end AggregatedLogging.Ruby
