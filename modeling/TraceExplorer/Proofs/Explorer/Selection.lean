import TraceExplorer.Explorer.Basic
import TraceExplorer.Proofs.Address.Forms
import TraceExplorer.Proofs.Fallible
import TraceExplorer.Proofs.Index.Lookup
import TraceExplorer.Proofs.MachineId
import Mathlib.Data.List.Count

/-
  What selecting a run and following an address do to an explorer, and what they announce.
  `Selects`, `SelectsDefault` and `Follows` have one constructor for each outcome, and each
  action has one of them. The list of roots shows the active run (`filter_active_roots`).
-/

namespace TraceExplorer

/-! ## Roots -/

namespace Index

variable {x : Index}

/-- The session starts a run. -/
structure IsRoot (x : Index) (root : Entry) : Prop where
  mem : root ∈ x.entries
  parentId : root.parentId = none

theorem isRoot_iff_mem_roots {root : Entry} : x.IsRoot root ↔ root ∈ x.roots := by
  rw [mem_roots]
  exact ⟨fun h => ⟨h.mem, h.parentId⟩, fun h => ⟨h.1, h.2⟩⟩

theorem root?_eq_none_iff {mach : UInt64} :
    x.root? mach = none ↔ ∀ root, x.IsRoot root → root.mach ≠ mach := by
  unfold root?
  rw [List.find?_eq_none]
  simp only [isRoot_iff_mem_roots, beq_iff_eq]

theorem IsRoot.root?_eq {root : Entry} (h : x.IsRoot root) : x.root? root.mach = some root :=
  root?_eq_some_iff.2 ⟨h.mem, h.parentId, rfl⟩

/-- The first root has the least machine. -/
theorem le_of_head?_roots {first root : Entry} (h : x.roots.head? = some first)
    (hroot : x.IsRoot root) : first.mach ≤ root.mach := by
  have hmem := isRoot_iff_mem_roots.1 hroot
  have hsorted := x.roots_ascend
  obtain ⟨rest, hrest⟩ := List.head?_eq_some_iff.1 h
  rw [hrest] at hmem hsorted
  rcases List.mem_cons.1 hmem with rfl | hmem
  · exact UInt64.le_refl _
  · exact UInt64.le_of_lt ((List.pairwise_cons.1 hsorted).1 root hmem)

end Index

theorem Run.select?_eq {x : Index} {root : Entry} (h : x.IsRoot root) :
    select? x root.mach = some (ofRoot x root) := by
  rw [select?, h.root?_eq]
  rfl

namespace Explorer

variable {x : Explorer}

/-! ## Selecting a run -/

/-- The outcome of selecting the run of a machine. -/
inductive Selects (x : Explorer) (mach : UInt64) : Explorer × List Signal × Bool → Prop where
  | selected {root : Entry} {run : Run} (hroot : x.index.IsRoot root) (hmach : root.mach = mach)
      (hrun : Run.select? x.index root.mach = some run) :
      Selects x mach ({ x with active := some run }, [.rootSelected root.id root.mach], true)
  | unknown (h : ∀ root, x.index.IsRoot root → root.mach ≠ mach) : Selects x mach (x, [], false)

theorem selects (x : Explorer) (mach : UInt64) : x.Selects mach (x.selectRoot mach) := by
  unfold selectRoot Run.select?
  cases h : x.index.root? mach with
  | none => exact .unknown (Index.root?_eq_none_iff.1 h)
  | some root =>
    obtain ⟨hmem, hparent, rfl⟩ := Index.root?_eq_some_iff.1 h
    have hroot : x.index.IsRoot root := ⟨hmem, hparent⟩
    exact .selected hroot rfl (Run.select?_eq hroot)

/-- The outcome of selecting a run where one may be preferred: that one if it is there, or the
    one with the least machine. -/
inductive SelectsDefault (x : Explorer) (preferred : Option UInt64) :
    Explorer × List Signal × Bool → Prop where
  | preferred {root : Entry} {run : Run} (hroot : x.index.IsRoot root)
      (hmach : preferred = some root.mach) (hrun : Run.select? x.index root.mach = some run) :
      SelectsDefault x preferred
        ({ x with active := some run }, [.rootSelected root.id root.mach], true)
  | least {root : Entry} {run : Run} (hroot : x.index.IsRoot root)
      (hother : ∀ other, x.index.IsRoot other → preferred ≠ some other.mach)
      (hleast : ∀ other, x.index.IsRoot other → root.mach ≤ other.mach)
      (hrun : Run.select? x.index root.mach = some run) :
      SelectsDefault x preferred
        ({ x with active := some run }, [.rootSelected root.id root.mach], true)
  | unknown (h : ∀ root, ¬ x.index.IsRoot root) : SelectsDefault x preferred (x, [], false)

theorem selectsDefault_selectFirst (x : Explorer) {preferred : Option UInt64}
    (hother : ∀ other, x.index.IsRoot other → preferred ≠ some other.mach) :
    x.SelectsDefault preferred x.selectFirst := by
  unfold selectFirst
  cases hfirst : x.index.roots.head? with
  | none =>
    have hnil := List.head?_eq_none_iff.1 hfirst
    refine .unknown fun root hroot => ?_
    have hmem := Index.isRoot_iff_mem_roots.1 hroot
    rw [hnil] at hmem
    cases hmem
  | some first =>
    have hroot := Index.isRoot_iff_mem_roots.2 (List.mem_of_mem_head? hfirst)
    have hrun := Run.select?_eq hroot
    simp only [selectRoot, hrun]
    exact .least hroot hother (fun other h => Index.le_of_head?_roots hfirst h) hrun

theorem selectsDefault (x : Explorer) (preferred : Option UInt64) :
    x.SelectsDefault preferred (x.selectDefault preferred) := by
  cases preferred with
  | none => exact selectsDefault_selectFirst x fun _ _ => by simp
  | some mach =>
    unfold selectDefault
    simp only
    have h := x.selects mach
    generalize x.selectRoot mach = r at h ⊢
    cases h with
    | selected hroot hmach hrun => exact .preferred hroot (congrArg some hmach.symm) hrun
    | unknown hnone =>
      refine selectsDefault_selectFirst x fun other hother heq => ?_
      exact hnone other hother (Option.some.inj heq).symm

/-! ## Following an address -/

/-- The text is the address `a`, of a session with the identifier `mid`. -/
structure Names (address : String) (a : Address) (mid : MachineId) : Prop where
  parse : Address.parse address = .ok (some a)
  decode : MachineId.decode a.id = .ok mid

theorem exists_names {address : String} {a : Address} (h : Address.parse address = .ok (some a)) :
    ∃ mid, Names address a mid := by
  obtain ⟨_, mid, hmid⟩ := Address.parse_eq_ok_some_iff.1 h
  exact ⟨mid, h, hmid⟩

theorem Names.unique {address : String} {a b : Address} {mid mid' : MachineId}
    (h : Names address a mid) (h' : Names address b mid') : a = b ∧ mid = mid' := by
  obtain rfl : a = b := Option.some.inj (Except.ok.inj (h.parse.symm.trans h'.parse))
  exact ⟨rfl, Except.ok.inj (h.decode.symm.trans h'.decode)⟩

/-- The outcome of following an address: it names no session, its session is of no known run, or
    it is visited in the active run, which may have to be selected first. -/
inductive Follows (x : Explorer) (address : String) :
    Explorer × List Signal × Navigation → Prop where
  | nowhere {reason : String} (h : ∀ a mid, ¬ Names address a mid) :
      Follows x address (x, x.clear reason)
  | unknown {a : Address} {mid : MachineId} {reason : String} (h : Names address a mid)
      (hother : x.activeMach ≠ some mid.root)
      (hnone : ∀ root, x.index.IsRoot root → root.mach ≠ mid.root) :
      Follows x address (x, x.clear reason)
  | stays {a : Address} {mid : MachineId} (h : Names address a mid)
      (hsame : x.activeMach = some mid.root) : Follows x address (x, x.visit a)
  | switches {a : Address} {mid : MachineId} {root : Entry} {run : Run} {y : Explorer}
      (h : Names address a mid) (hother : x.activeMach ≠ some mid.root)
      (hroot : x.index.IsRoot root) (hmach : root.mach = mid.root)
      (hrun : Run.select? x.index root.mach = some run) (hy : y = { x with active := some run }) :
      Follows x address (y, .rootSelected root.id root.mach :: (y.visit a).1, (y.visit a).2)

theorem follows (x : Explorer) (address : String) : x.Follows address (x.navigate address) := by
  unfold navigate
  cases hparse : Address.parse address with
  | error fault => exact .nowhere fun a mid h => nomatch hparse.symm.trans h.parse
  | ok parsed =>
    cases parsed with
    | none => exact .nowhere fun a mid h => nomatch hparse.symm.trans h.parse
    | some a =>
      obtain ⟨mid, hnames⟩ := exists_names hparse
      simp only [enter, MachineId.decode_eq_ok_iff.1 hnames.decode]
      by_cases hsame : x.activeMach = some mid.root
      · simp only [if_pos hsame]
        exact .stays hnames hsame
      · simp only [if_neg hsame]
        have h := x.selects mid.root
        generalize x.selectRoot mid.root = r at h ⊢
        cases h with
        | selected hroot hmach hrun => exact .switches hnames hsame hroot hmach hrun rfl
        | unknown hnone => exact .unknown hnames hsame hnone

/-- An address is seen where its session has a path in the active run, and a log. -/
theorem view_eq_ok_iff {a : Address} {navigation : Navigation} :
    x.view a = .ok navigation ↔ ∃ steps log, x.path a.id = .ok (.path steps) ∧
      x.log a.id a.raw = .ok log ∧ navigation = .log a.text steps log := by
  unfold view
  cases x.path a.id with
  | error fault => exact ⟨(fun h => nomatch h), fun ⟨_, _, h, _⟩ => nomatch h⟩
  | ok lookup =>
    cases lookup with
    | empty => exact ⟨(fun h => nomatch h), fun ⟨_, _, h, _⟩ => nomatch h⟩
    | path steps =>
      constructor
      · intro h
        obtain ⟨log, hlog, rfl⟩ := exists_ok_of_map_ok h
        exact ⟨steps, log, rfl, hlog, rfl⟩
      · rintro ⟨steps', log, hsteps, hlog, rfl⟩
        cases hsteps
        show (x.log a.id a.raw).map _ = _
        rw [hlog]
        rfl

/-! ## The list of roots -/

theorem map_roots (x : Explorer) :
    x.roots.map (fun r => (r.id, r.mach)) = x.index.roots.map fun root => (root.id, root.mach) := by
  unfold roots
  rw [List.map_map]
  rfl

theorem mem_map_roots {id : String} {mach : UInt64} :
    (id, mach) ∈ x.roots.map (fun r => (r.id, r.mach)) ↔
      ∃ root, x.index.IsRoot root ∧ root.id = id ∧ root.mach = mach := by
  rw [map_roots, List.mem_map]
  simp only [Index.isRoot_iff_mem_roots, Prod.mk.injEq]

theorem roots_ascend (x : Explorer) : x.roots.Pairwise fun a b => a.mach < b.mach :=
  List.pairwise_map.2 x.index.roots_ascend

/-- The roots that are shown as active are that of the active run, if there is one. -/
theorem filter_active_roots
    (h : ∀ mach, x.activeMach = some mach → ∃ root, x.index.IsRoot root ∧ root.mach = mach) :
    (x.roots.filter (·.active)).map (·.mach) = x.activeMach.toList := by
  have hmachs : (x.roots.filter (·.active)).map (·.mach) =
      (x.index.roots.map Entry.mach).filter fun mach => x.activeMach == some mach := by
    unfold roots
    rw [List.filter_map, List.map_map, List.filter_map]
    rfl
  rw [hmachs]
  cases hactive : x.activeMach with
  | none => simp
  | some mach =>
    obtain ⟨root, hroot, rfl⟩ := h mach hactive
    have hmem : root.mach ∈ x.index.roots.map Entry.mach :=
      List.mem_map_of_mem (Index.isRoot_iff_mem_roots.1 hroot)
    have hnodup : (x.index.roots.map Entry.mach).Nodup :=
      List.pairwise_map.2 (x.index.roots_ascend.imp UInt64.ne_of_lt)
    have hcount := List.count_eq_one_of_mem hnodup hmem
    have hfilter : (x.index.roots.map Entry.mach).filter (fun mach => some root.mach == some mach) =
        List.replicate ((x.index.roots.map Entry.mach).count root.mach) root.mach := by
      rw [← List.filter_eq]
      refine List.filter_congr fun mach _ => ?_
      rw [Option.some_beq_some, beq_eq_decide, decide_eq_decide]
      exact eq_comm
    rw [hfilter, hcount]
    rfl

end Explorer

end TraceExplorer
