import TraceExplorer.Dict

/-
  Look-ups in a map. They find the entries (`get?_eq_some_iff`), they find all but an entry that was
  taken off (`get?_erase`), they decide which keys are listed
  (`keys_eq_of_isSome`), and after pairs of distinct keys were stored they find each pair
  (`get?_insertAll_of_mem`) and what was there before (`get?_insertAll_of_not_mem`). They are all
  there is to a map (`ext_get?`), so its entries can be stored in any order (`ofList_entries`).
-/

namespace TraceExplorer.Dict

universe u v

variable {κ : Type u} {α : Type v} [Ord κ] [Std.LawfulEqOrd κ]

omit [Std.LawfulEqOrd κ] in
theorem eq_empty {d : Dict κ α} (h : d.isEmpty = true) : d = empty := by
  obtain ⟨entries, ascending⟩ := d
  obtain rfl : entries = [] := List.isEmpty_iff.1 h
  rfl

theorem mem_of_find {k : κ} {v : α} {l : List (κ × α)} (h : find k l = some v) : (k, v) ∈ l := by
  induction l with
  | nil => cases h
  | cons e l ih =>
    unfold find at h
    split at h
    · rename_i hk
      obtain rfl := Std.LawfulEqOrd.eq_of_compare (beq_iff_eq.1 hk)
      rw [← Option.some.inj h]
      exact List.mem_cons_self
    · exact List.mem_cons_of_mem _ (ih h)

theorem find_of_mem {k : κ} {v : α} {l : List (κ × α)}
    (hl : l.Pairwise fun a b => compare a.1 b.1 = .lt) (h : (k, v) ∈ l) : find k l = some v := by
  induction l with
  | nil => cases h
  | cons e l ih =>
    obtain ⟨he, hl⟩ := List.pairwise_cons.1 hl
    unfold find
    rcases List.mem_cons.1 h with rfl | h
    · rw [if_pos (by simp)]
    · have hne : k ≠ e.1 := fun heq => by
        have hlt := he _ h
        rw [← heq] at hlt
        simp at hlt
      rw [if_neg (by simpa using hne)]
      exact ih hl h

theorem get?_eq_some_iff {d : Dict κ α} {k : κ} {v : α} :
    d.get? k = some v ↔ (k, v) ∈ d.entries :=
  ⟨mem_of_find, find_of_mem d.ascending⟩

theorem mem_values {d : Dict κ α} {v : α} : v ∈ d.values ↔ ∃ k, d.get? k = some v := by
  unfold values
  rw [List.mem_map]
  constructor
  · rintro ⟨e, he, rfl⟩
    exact ⟨e.1, get?_eq_some_iff.2 he⟩
  · rintro ⟨k, hk⟩
    exact ⟨(k, v), get?_eq_some_iff.1 hk, rfl⟩

theorem mem_keys {d : Dict κ α} {k : κ} : k ∈ d.keys ↔ (d.get? k).isSome = true := by
  unfold keys
  rw [List.mem_map, Option.isSome_iff_exists]
  constructor
  · rintro ⟨e, he, rfl⟩
    exact ⟨e.2, get?_eq_some_iff.2 he⟩
  · rintro ⟨v, hv⟩
    exact ⟨(k, v), get?_eq_some_iff.1 hv, rfl⟩

omit [Std.LawfulEqOrd κ] in
theorem keys_ascend (d : Dict κ α) : d.keys.Pairwise fun a b => compare a b = .lt :=
  List.pairwise_map.2 d.ascending

theorem nodup_keys (d : Dict κ α) : d.keys.Nodup :=
  d.keys_ascend.imp fun hlt heq => by
    rw [heq] at hlt
    simp at hlt

theorem nodup_entries (d : Dict κ α) : d.entries.Nodup :=
  d.ascending.imp fun hlt heq => by
    rw [heq] at hlt
    simp at hlt

theorem mem_insertAll [Std.TransOrd κ] {d : Dict κ α} {l : List (κ × α)} {e : κ × α}
    (h : e ∈ (d.insertAll l).entries) : e ∈ l ∨ e ∈ d.entries := by
  induction l generalizing d with
  | nil => exact Or.inr h
  | cons a l ih =>
    rcases ih h with h | h
    · exact Or.inl (List.mem_cons_of_mem _ h)
    · rcases mem_put h with rfl | h
      · exact Or.inl List.mem_cons_self
      · exact Or.inr h

theorem find_drop [DecidableEq κ] (k k' : κ) (l : List (κ × α)) :
    find k' (drop k l) = if k' = k then none else find k' l := by
  induction l with
  | nil => simp [drop, find]
  | cons e l ih =>
    unfold drop at ih ⊢
    rw [List.filter_cons]
    by_cases hk : k = e.1
    · -- The entry is taken off, and no other key finds it.
      rw [if_neg (by simpa using hk), ih]
      by_cases hk' : k' = k
      · rw [if_pos hk', if_pos hk']
      · rw [if_neg hk', if_neg hk', find, if_neg (by simpa [← hk] using hk')]
    · rw [if_pos (by simpa using hk), find, find, ih]
      by_cases hk' : k' = k
      · simp [hk', hk]
      · simp [hk']

@[simp] theorem get?_erase [DecidableEq κ] (d : Dict κ α) (k k' : κ) :
    (d.erase k).get? k' = if k' = k then none else d.get? k' :=
  find_drop k k' d.entries

variable [Std.TransOrd κ]

/-- Maps that have the same keys list them alike. -/
theorem keys_eq_of_isSome {d d' : Dict κ α}
    (h : ∀ k, (d.get? k).isSome = (d'.get? k).isSome) : d.keys = d'.keys := by
  have hperm : d.keys.Perm d'.keys :=
    (List.perm_ext_iff_of_nodup d.nodup_keys d'.nodup_keys).2 fun k => by
      rw [mem_keys, mem_keys, h]
  refine hperm.eq_of_pairwise (fun a b _ _ hab hba => ?_) d.keys_ascend d'.keys_ascend
  exact absurd hba (Std.OrientedCmp.not_lt_of_lt hab)

/-- Maps in which every look-up finds the same are one map. -/
theorem ext_get? {d d' : Dict κ α} (h : ∀ k, d.get? k = d'.get? k) : d = d' := by
  have hperm : d.entries.Perm d'.entries :=
    (List.perm_ext_iff_of_nodup d.nodup_entries d'.nodup_entries).2 fun e => by
      rw [← get?_eq_some_iff, ← get?_eq_some_iff, h]
  have hentries : d.entries = d'.entries := by
    refine hperm.eq_of_pairwise (fun a b _ _ hab hba => ?_) d.ascending d'.ascending
    exact absurd hba (Std.OrientedCmp.not_lt_of_lt hab)
  cases d
  cases d'
  congr

variable [DecidableEq κ]

theorem get?_insertAll_of_not_mem (d : Dict κ α) {l : List (κ × α)} {k : κ}
    (h : k ∉ l.map Prod.fst) : (d.insertAll l).get? k = d.get? k := by
  induction l generalizing d with
  | nil => rfl
  | cons e l ih =>
    rw [List.map_cons, List.mem_cons, not_or] at h
    have := ih (d.insert e.1 e.2) h.2
    rwa [get?_insert, if_neg h.1] at this

theorem get?_insertAll_of_mem (d : Dict κ α) {l : List (κ × α)} (hl : (l.map Prod.fst).Nodup)
    {k : κ} {v : α} (h : (k, v) ∈ l) : (d.insertAll l).get? k = some v := by
  induction l generalizing d with
  | nil => cases h
  | cons e l ih =>
    obtain ⟨he, hl⟩ := List.nodup_cons.1 hl
    rcases List.mem_cons.1 h with rfl | h
    · have := get?_insertAll_of_not_mem (d.insert k v) he
      rwa [get?_insert, if_pos rfl] at this
    · exact ih (d.insert e.1 e.2) hl h

theorem get?_insertAll_entries (d d' : Dict κ α) (k : κ) :
    (d.insertAll d'.entries).get? k = (d'.get? k).or (d.get? k) := by
  cases hk : d'.get? k with
  | some v => exact get?_insertAll_of_mem d d'.nodup_keys (get?_eq_some_iff.1 hk)
  | none =>
    refine get?_insertAll_of_not_mem d fun hmem => ?_
    rw [← keys, mem_keys, hk] at hmem
    cases hmem

/-- The entries of a map, stored once more, are the map. -/
theorem ofList_entries (d : Dict κ α) : ofList d.entries = d :=
  ext_get? fun k => (get?_insertAll_entries empty d k).trans Option.or_none

end TraceExplorer.Dict
