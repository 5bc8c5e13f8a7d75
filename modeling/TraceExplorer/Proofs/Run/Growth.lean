import TraceExplorer.Run.Basic
import TraceExplorer.Proofs.Index.Walk
import TraceExplorer.Proofs.Run.Numbering
import Mathlib.Data.List.Perm.Subperm

/-
  The tree of a run is complete. It is grown with the number of members as its height, though
  parents may form cycles in the index; below a session without a parent they do not, since
  the number of steps up to it tells the sessions apart (`descends_le`). So no level is cut off
  (`unfolds_tree`).
-/

namespace TraceExplorer

/-! ## Members -/

namespace Index

variable {x : Index} {mach : UInt64}

theorem mem_members {e : Entry} :
    e ∈ x.members mach ↔ e ∈ x.entries ∧ (e.mid.root = mach ∨ e.mach = mach) := by
  unfold members
  rw [List.mem_filter, Bool.or_eq_true, beq_iff_eq, beq_iff_eq]

theorem mem_memberKids {e k : Entry} :
    k ∈ x.memberKids mach e ↔ k ∈ x.members mach ∧ k.parentId = some e.id := by
  unfold memberKids
  rw [List.mem_mergeSort, List.mem_filter, mem_kids, mem_members, Bool.or_eq_true, beq_iff_eq,
    beq_iff_eq, and_right_comm]

/-- The children of a session ascend by machine. -/
theorem memberKids_ascend (x : Index) (mach : UInt64) (e : Entry) :
    (x.memberKids mach e).Pairwise fun a b => a.mach < b.mach :=
  ascend_mergeSort ((x.distinct.filter _).filter _)

end Index

/-! ## Growing to the end -/

/-- There are `n` steps from `e` down to `f`. -/
inductive Descends (kids : Entry → List Entry) : Nat → Entry → Entry → Prop where
  | refl {e : Entry} : Descends kids 0 e e
  | down {n : Nat} {e k f : Entry} (hk : k ∈ kids e) (h : Descends kids n k f) :
      Descends kids (n + 1) e f

theorem Tree.entry_grow (kids : Entry → List Entry) (height : Nat) (e : Entry) :
    (Tree.grow kids height e).entry = e := by
  cases height <;> rfl

/-- A tree is complete if its height allows every way down. -/
theorem Tree.unfolds_grow {kids : Entry → List Entry} {height : Nat} {e : Entry}
    (h : ∀ n f, Descends kids n e f → n ≤ height) : (Tree.grow kids height e).Unfolds kids := by
  induction height generalizing e with
  | zero =>
    refine .node ?_ (by simp)
    cases hk : kids e with
    | nil => rfl
    | cons k ks =>
      have hmem : k ∈ kids e := hk ▸ List.mem_cons_self
      exact absurd (h 1 k (.down hmem .refl)) (by omega)
  | succ height ih =>
    refine .node ?_ ?_
    · rw [List.map_map]
      exact (List.map_congr_left fun k _ => Tree.entry_grow kids height k).trans (List.map_id _)
    · intro t ht
      obtain ⟨k, hk, rfl⟩ := List.mem_map.1 ht
      exact ih fun n f hd => Nat.le_of_succ_le_succ (h (n + 1) f (.down hk hd))

namespace Index

variable {x : Index} {mach : UInt64} {root : Entry}

/-- The sessions on a way down from a session that is `d` steps below a root are members,
    each of them another one. -/
theorem exists_list_of_descends (hroot : root.parentId = none) {n d : Nat} {e f : Entry}
    (h : Descends (x.memberKids mach) n e f) (he : e ∈ x.entries)
    (hd : x.ancestor? d e = some root) :
    ∃ l : List Entry, l.length = n ∧ l ⊆ x.members mach ∧ l.Nodup ∧
      ∀ a ∈ l, ∃ j, d < j ∧ x.ancestor? j a = some root := by
  induction h generalizing d with
  | refl => exact ⟨[], rfl, List.nil_subset _, List.nodup_nil, by simp⟩
  | @down n e k f hk _ ih =>
    obtain ⟨hmem, hparent⟩ := mem_memberKids.1 hk
    have hkd : x.ancestor? (d + 1) k = some root := by
      rw [ancestor?, parent?_eq_some_iff.2 ⟨he, hparent⟩]
      exact hd
    obtain ⟨l, hlen, hsub, hnodup, hdeep⟩ := ih (mem_members.1 hmem).1 hkd
    refine ⟨k :: l, by rw [List.length_cons, hlen], List.cons_subset.2 ⟨hmem, hsub⟩,
      List.nodup_cons.2 ⟨fun hkl => ?_, hnodup⟩, fun a ha => ?_⟩
    · obtain ⟨j, hj, hja⟩ := hdeep k hkl
      exact absurd (ancestor?_unique hroot hkd hja) (by omega)
    · rcases List.mem_cons.1 ha with rfl | ha
      · exact ⟨d + 1, by omega, hkd⟩
      · obtain ⟨j, hj, hja⟩ := hdeep a ha
        exact ⟨j, by omega, hja⟩

/-- A way down from a root has at most as many steps as its run has members. -/
theorem descends_le (hmem : root ∈ x.entries) (hroot : root.parentId = none) {n : Nat} {f : Entry}
    (h : Descends (x.memberKids mach) n root f) : n ≤ (x.members mach).length := by
  obtain ⟨l, rfl, hsub, hnodup, _⟩ := exists_list_of_descends (d := 0) hroot h hmem rfl
  exact (List.subperm_of_subset hnodup hsub).length_le

theorem unfolds_tree (hmem : root ∈ x.entries) (hroot : root.parentId = none) :
    (x.tree root).Unfolds (x.memberKids root.mach) :=
  Tree.unfolds_grow fun _ _ h => descends_le hmem hroot h

end Index

end TraceExplorer
