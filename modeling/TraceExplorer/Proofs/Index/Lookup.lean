import TraceExplorer.Index.Ancestry
import Mathlib.Data.List.Nodup

/-
  What an index finds. Machines are distinct in it (`Index.distinct`) and an identifier decodes
  to one machine, so a text, a machine and a session name each other (`eq_of_mach_eq`,
  `eq_of_id_eq`), and `get?`, `kids`, `roots` and `root?` are read off the entries
  (`get?_eq_some_iff`, `mem_kids`, `mem_roots`, `root?_eq_some_iff`).
-/

namespace TraceExplorer

theorem Entry.mach_eq_of_id_eq {a b : Entry} (h : a.id = b.id) : a.mach = b.mach := by
  have ha := a.decoded
  rw [show a.session.id = b.session.id from h, b.decoded] at ha
  have hm : b.mid = a.mid := Except.ok.inj ha
  unfold Entry.mach
  rw [hm]

/-- Where a key names one element, the element of a key is the one that is found. -/
theorem find?_key_eq_some_iff {α κ : Type} [BEq κ] [LawfulBEq κ] {key : α → κ} {l : List α}
    (hinj : ∀ a ∈ l, ∀ b ∈ l, key a = key b → a = b) {k : κ} {a : α} :
    l.find? (key · == k) = some a ↔ a ∈ l ∧ key a = k := by
  constructor
  · intro h
    exact ⟨List.mem_of_find?_eq_some h, by simpa using List.find?_some h⟩
  · rintro ⟨ha, rfl⟩
    cases hf : l.find? (key · == key a) with
    | none => exact absurd (List.find?_eq_none.1 hf a ha) (by simp)
    | some b =>
      have hk : key b = key a := by simpa using List.find?_some hf
      rw [hinj b (List.mem_of_find?_eq_some hf) a ha hk]

namespace Index

variable {x : Index}

theorem nodup_machs (x : Index) : (x.entries.map Entry.mach).Nodup :=
  List.pairwise_map.2 x.distinct

theorem nodup_entries (x : Index) : x.entries.Nodup := List.Nodup.of_map _ x.nodup_machs

theorem eq_of_mach_eq {a b : Entry} (ha : a ∈ x.entries) (hb : b ∈ x.entries)
    (h : a.mach = b.mach) : a = b :=
  List.inj_on_of_nodup_map x.nodup_machs ha hb h

theorem eq_of_id_eq {a b : Entry} (ha : a ∈ x.entries) (hb : b ∈ x.entries)
    (h : a.id = b.id) : a = b :=
  eq_of_mach_eq ha hb (Entry.mach_eq_of_id_eq h)

theorem get?_eq_some_iff {id : String} {e : Entry} :
    x.get? id = some e ↔ e ∈ x.entries ∧ e.id = id :=
  find?_key_eq_some_iff fun _ ha _ hb => eq_of_id_eq ha hb

theorem get?_id {e : Entry} (h : e ∈ x.entries) : x.get? e.id = some e :=
  get?_eq_some_iff.2 ⟨h, rfl⟩

theorem mem_kids {id : String} {k : Entry} :
    k ∈ x.kids id ↔ k ∈ x.entries ∧ k.parentId = some id := by
  unfold kids
  rw [List.mem_filter, beq_iff_eq]

theorem mem_roots {r : Entry} : r ∈ x.roots ↔ r ∈ x.entries ∧ r.parentId = none := by
  unfold roots
  rw [List.mem_mergeSort, List.mem_filter, Option.isNone_iff_eq_none]

theorem root?_eq_some_iff {mach : UInt64} {r : Entry} :
    x.root? mach = some r ↔ r ∈ x.entries ∧ r.parentId = none ∧ r.mach = mach := by
  unfold root?
  rw [find?_key_eq_some_iff fun a ha b hb => eq_of_mach_eq (mem_roots.1 ha).1 (mem_roots.1 hb).1,
    mem_roots, and_assoc]

/-- Sessions of distinct machines ascend once they are sorted. -/
theorem ascend_mergeSort {l : List Entry} (h : l.Pairwise fun a b => a.mach ≠ b.mach) :
    (l.mergeSort fun a b => a.mach ≤ b.mach).Pairwise fun a b => a.mach < b.mach := by
  have hle : (l.mergeSort fun a b => a.mach ≤ b.mach).Pairwise
      fun a b => decide (a.mach ≤ b.mach) = true := by
    refine List.pairwise_mergeSort (fun a b c hab hbc => ?_) (fun a b => ?_) _
    · rw [decide_eq_true_iff] at *
      exact UInt64.le_trans hab hbc
    · rw [Bool.or_eq_true, decide_eq_true_iff, decide_eq_true_iff]
      exact UInt64.le_total _ _
  have hne := (List.mergeSort_perm l fun a b => a.mach ≤ b.mach).symm.pairwise h
    (fun h => Ne.symm h)
  refine (hle.and hne).imp fun h => ?_
  exact UInt64.lt_of_le_of_ne (of_decide_eq_true h.1) h.2

theorem roots_ascend (x : Index) : x.roots.Pairwise fun a b => a.mach < b.mach :=
  ascend_mergeSort (x.distinct.filter _)

end Index

end TraceExplorer
