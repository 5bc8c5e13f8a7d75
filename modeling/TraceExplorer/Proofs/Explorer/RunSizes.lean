import TraceExplorer.Proofs.Explorer.Selection

/-
  The sizes of runs. The list of roots says how many sessions name a root, and the run of the
  root has it as a member although it may name another one itself. The two numbers differ by one
  for such a root, and they agree for all roots just if each names itself
  (`roots_countMembers`).
-/

namespace TraceExplorer

namespace Index

variable {x : Index}

theorem countP_or {α : Type} (p q : α → Bool) (l : List α) :
    l.countP (fun a => p a || q a) = l.countP p + l.countP (fun a => q a && !p a) := by
  induction l with
  | nil => rfl
  | cons a l ih =>
    simp only [List.countP_cons, ih]
    cases p a <;> cases q a <;> simp <;> omega

/-- The root is the one member that may name another root. -/
theorem countP_members_other {root : Entry} (hroot : root ∈ x.entries) :
    x.entries.countP (fun e => e.mach == root.mach && !(e.mid.root == root.mach)) =
      if root.mid.root = root.mach then 0 else 1 := by
  have hself : ∀ e ∈ x.entries, e.mach = root.mach → e = root := fun e he hmach =>
    eq_of_mach_eq he hroot hmach
  split
  · rename_i hown
    refine List.countP_eq_zero.2 fun e he hother => ?_
    rw [Bool.and_eq_true, beq_iff_eq] at hother
    obtain rfl := hself e he hother.1
    simp [hown] at hother
  · rename_i hown
    have hcount : (x.entries.map Entry.mach).count root.mach = 1 :=
      List.count_eq_one_of_mem x.nodup_machs (List.mem_map_of_mem hroot)
    rw [List.count, List.countP_map] at hcount
    rw [← hcount]
    refine List.countP_congr fun e he => ?_
    rw [Bool.and_eq_true, Function.comp, beq_iff_eq]
    refine and_iff_left_of_imp fun hmach => ?_
    obtain rfl := hself e he hmach
    simp [hown]

theorem length_members {root : Entry} (hroot : root ∈ x.entries) :
    (x.members root.mach).length =
      x.runSize root.mach + if root.mid.root = root.mach then 0 else 1 := by
  unfold members runSize
  rw [← List.countP_eq_length_filter, countP_or, countP_members_other hroot]

end Index

namespace Explorer

variable {x : Explorer}

/-- The list says of the root how many sessions name it, and its run has that many members or,
    with the root itself, one more. -/
structure Counts (x : Explorer) (root : Entry) (r : RootSummary) : Prop where
  id : r.id = root.id
  mach : r.mach = root.mach
  run : ∃ run, (x.selectRoot root.mach).1.active = some run ∧ run.root = root ∧
    run.members.length = r.sessions + if root.mid.root = root.mach then 0 else 1

theorem counts_root {root : Entry} (hroot : x.index.IsRoot root) :
    Counts x root
      ⟨root.id, root.mach, x.index.runSize root.mach, x.activeMach == some root.mach⟩ where
  id := rfl
  mach := rfl
  run := by
    refine ⟨Run.ofRoot x.index root, ?_, rfl, Index.length_members hroot.mem⟩
    unfold selectRoot
    rw [Run.select?_eq hroot]

/-- The number in the list is that of the members of the run. -/
def Agrees (x : Explorer) (r : RootSummary) : Prop :=
  ∃ run, (x.selectRoot r.mach).1.active = some run ∧ run.members.length = r.sessions

theorem Counts.agrees_iff {root : Entry} {r : RootSummary} (h : Counts x root r) :
    x.Agrees r ↔ root.mid.root = root.mach := by
  obtain ⟨run, hrun, _, hlen⟩ := h.run
  unfold Agrees
  rw [h.mach, hrun]
  constructor
  · rintro ⟨_, heq, hmembers⟩
    obtain rfl := Option.some.inj heq
    by_contra hown
    rw [if_neg hown] at hlen
    omega
  · intro hown
    rw [if_pos hown] at hlen
    exact ⟨run, rfl, hlen⟩

/-- The list of roots counts the members of the runs, but for a root that names another root. -/
theorem roots_countMembers (x : Explorer) :
    List.Forall₂ (Counts x) x.index.roots x.roots ∧
      (∀ root, root ∈ x.index.roots ↔ x.index.IsRoot root) ∧
      ((∀ r ∈ x.roots, x.Agrees r) ↔
        ∀ root, x.index.IsRoot root → root.mid.root = root.mach) := by
  have hcounts : ∀ root ∈ x.index.roots, Counts x root
      ⟨root.id, root.mach, x.index.runSize root.mach, x.activeMach == some root.mach⟩ :=
    fun root hroot => counts_root (Index.isRoot_iff_mem_roots.2 hroot)
  refine ⟨?_, fun _ => Index.isRoot_iff_mem_roots.symm, ?_⟩
  · unfold roots
    rw [List.forall₂_map_right_iff, List.forall₂_same]
    exact hcounts
  · unfold roots
    rw [List.forall_mem_map]
    refine forall_congr' fun root => ?_
    rw [Index.isRoot_iff_mem_roots]
    exact forall_congr' fun hroot => (hcounts root hroot).agrees_iff

/-- A root that names a root that is not there. -/
def strayRoot : List Session := [Session.ofId "5(0:7)"]

/-- No session names the machine of the root, but its run has a member. -/
theorem roots_strayRoot :
    (load ⟨strayRoot, []⟩).1.roots = [⟨"5(0:7)", 7, 0, false⟩] ∧
      ((load ⟨strayRoot, []⟩).1.selectRoot 7).1.active.map (·.members.length) = some 1 := by
  decide +kernel

end Explorer

end TraceExplorer
