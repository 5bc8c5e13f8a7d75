/-
  Finite maps kept as their entries in ascending key order, so that listing the entries is the
  sorted listing. `get?_insert` says what an insertion does to the lookups.
-/

namespace TraceExplorer

universe u v w

/-- A finite map: its entries, each key once, in ascending order. -/
structure Dict (κ : Type u) (α : Type v) [Ord κ] where
  entries : List (κ × α)
  ascending : entries.Pairwise fun a b => compare a.1 b.1 = .lt

namespace Dict

variable {κ : Type u} {α : Type v} {β : Type w} [Ord κ]

/-- `put k v l` replaces the entry of `k` in an ascending list, or adds one at its place. -/
def put (k : κ) (v : α) : List (κ × α) → List (κ × α)
  | [] => [(k, v)]
  | e :: l =>
    match compare k e.1 with
    | .lt => (k, v) :: e :: l
    | .eq => (k, v) :: l
    | .gt => e :: put k v l

/-- `drop k l` removes the entry of `k`. -/
def drop (k : κ) (l : List (κ × α)) : List (κ × α) :=
  l.filter fun e => compare k e.1 != .eq

/-- `find k l` is the value stored under `k`. -/
def find (k : κ) : List (κ × α) → Option α
  | [] => none
  | e :: l => if compare k e.1 == .eq then some e.2 else find k l

theorem mem_put {k : κ} {v : α} {x : κ × α} {l : List (κ × α)} (h : x ∈ put k v l) :
    x = (k, v) ∨ x ∈ l := by
  induction l with
  | nil => simpa [put] using h
  | cons e l ih =>
    unfold put at h
    split at h
    · simpa using h
    · rcases List.mem_cons.1 h with h | h
      · exact .inl h
      · exact .inr (List.mem_cons_of_mem _ h)
    · rcases List.mem_cons.1 h with h | h
      · exact .inr (h ▸ List.mem_cons_self)
      · exact (ih h).imp_right (List.mem_cons_of_mem _)

theorem find_put [Std.LawfulEqOrd κ] [DecidableEq κ] (k k' : κ) (v : α) (l : List (κ × α)) :
    find k' (put k v l) = if k' = k then some v else find k' l := by
  induction l with
  | nil => by_cases h : k' = k <;> simp [put, find, h]
  | cons e l ih =>
    unfold put
    split
    · by_cases h : k' = k <;> simp [find, h]
    · rename_i hk
      have hk := Std.LawfulEqOrd.eq_of_compare hk
      by_cases h : k' = k <;> simp [find, h, hk ▸ h]
    · rename_i hk
      have hne : k ≠ e.1 := fun h => by simp [h] at hk
      by_cases h : k' = k
      · subst h
        simpa [find, hne] using ih
      · simp [find, ih, h]

variable [Std.TransOrd κ]

theorem pairwise_put [Std.LawfulEqOrd κ] {k : κ} {v : α} {l : List (κ × α)}
    (h : l.Pairwise fun a b => compare a.1 b.1 = .lt) :
    (put k v l).Pairwise fun a b => compare a.1 b.1 = .lt := by
  induction l with
  | nil => simp [put]
  | cons e l ih =>
    have ⟨he, hl⟩ := List.pairwise_cons.1 h
    unfold put
    split
    · rename_i hk
      refine List.pairwise_cons.2 ⟨fun x hx => ?_, h⟩
      rcases List.mem_cons.1 hx with rfl | hx
      · exact hk
      · exact Std.TransCmp.lt_trans hk (he x hx)
    · rename_i hk
      have hk := Std.LawfulEqOrd.eq_of_compare hk
      exact List.pairwise_cons.2 ⟨fun x hx => hk ▸ he x hx, hl⟩
    · rename_i hk
      refine List.pairwise_cons.2 ⟨fun x hx => ?_, ih hl⟩
      rcases mem_put hx with rfl | hx
      · exact Std.OrientedCmp.lt_of_gt hk
      · exact he x hx

/-- The map without entries. -/
def empty : Dict κ α := ⟨[], .nil⟩

instance : Inhabited (Dict κ α) := ⟨empty⟩

def insert [Std.LawfulEqOrd κ] (d : Dict κ α) (k : κ) (v : α) : Dict κ α :=
  ⟨put k v d.entries, pairwise_put d.ascending⟩

def erase (d : Dict κ α) (k : κ) : Dict κ α :=
  ⟨drop k d.entries, d.ascending.filter _⟩

def get? (d : Dict κ α) (k : κ) : Option α := find k d.entries

def contains (d : Dict κ α) (k : κ) : Bool := (d.get? k).isSome

def keys (d : Dict κ α) : List κ := d.entries.map (·.1)

def values (d : Dict κ α) : List α := d.entries.map (·.2)

def size (d : Dict κ α) : Nat := d.entries.length

def isEmpty (d : Dict κ α) : Bool := d.entries.isEmpty

/-- `insertAll d l` stores the pairs of `l` in order, so the last pair of a key stays. -/
def insertAll [Std.LawfulEqOrd κ] (d : Dict κ α) (l : List (κ × α)) : Dict κ α :=
  l.foldl (fun d e => d.insert e.1 e.2) d

def ofList [Std.LawfulEqOrd κ] (l : List (κ × α)) : Dict κ α := empty.insertAll l

@[simp] theorem get?_insert [Std.LawfulEqOrd κ] [DecidableEq κ] (d : Dict κ α) (k k' : κ)
    (v : α) : (d.insert k v).get? k' = if k' = k then some v else d.get? k' :=
  find_put k k' v d.entries

/-- The values changed one by one, the keys kept. -/
def map (f : α → β) (d : Dict κ α) : Dict κ β :=
  ⟨d.entries.map fun e => (e.1, f e.2), List.pairwise_map.2 d.ascending⟩

end Dict

end TraceExplorer
