import TraceExplorer.CommandLine.Query
import TraceExplorer.Proofs.Address
import TraceExplorer.Proofs.Explorer.Navigation

/-
  What `log` shows. An address that leads nowhere falls back to the root of the active run, and
  `log` follows that address as well. The run to look in is that of the machine which the
  identifier of the root names. If it names itself, the fallback leads to its log; if it names
  another, the fallback leads nowhere again (`fallsBack`), and there is no log
  (`logAnswer_fallback`).
-/

namespace TraceExplorer

/-- The address that is fallen back to, and why. -/
def Navigation.fallback? : Navigation → Option (String × String)
  | .log .. => none
  | .cleared address reason => some (address, reason)

/-! ## The path of a root -/

theorem Index.chain_root {x : Index} {root : Entry} (hroot : x.IsRoot root) :
    x.chain root.id = .ok [root] := by
  have hnone : x.parent? root = none := parent?_eq_none hroot.parentId
  have hway : x.IsWalk root [root] :=
    { first := rfl
      linked := .singleton _
      nodup := List.nodup_singleton _
      stops := fun last up hlast hup => by
        obtain rfl : root = last := Option.some.inj hlast
        rw [hnone] at hup
        cases hup }
  exact chain_eq (get?_id hroot.mem) hway (.root rfl hroot.parentId)

/-- A root that names itself is the one step of its path. -/
theorem Run.path_root {x : Index} {root : Entry} (hroot : x.IsRoot root)
    (hown : root.mid.root = root.mach) :
    ∃ step, (ofRoot x root).step? 0 = some step ∧ step.id = root.id ∧
      (ofRoot x root).path x root.id = .ok (.path [step]) := by
  obtain ⟨n, hn, _⟩ : ∃ n, (ofRoot x root).node? 0 = some n ∧ n.parent = none ∧ n.depth = 0 :=
    (preorder x root).root
  have hstep : (ofRoot x root).step? 0 = some ⟨n.id, n.mach, n.depth, 0, n.mark⟩ := by
    rw [step?, hn]
    rfl
  refine ⟨_, hstep, (first_shows hn).id, ?_⟩
  have howns : (ofRoot x root).Owns root.id := ⟨root.mid, root.decoded, hown⟩
  rw [path_of_chain howns (Index.chain_root hroot)]
  rw [List.map_singleton, pathAlong, if_pos (show root.mach = (ofRoot x root).rootMach from rfl)]
  simp only [descend, Except.map]
  rw [List.filterMap_cons_some hstep, List.filterMap_nil]

namespace Explorer

variable {x : Explorer}

/-! ## Falling back -/

theorem names_root (root : Entry) : Names ("#" ++ root.id) (.node root.id) root.mid where
  parse := by
    have h := Address.parse_text (a := .node root.id) root.decoded
    rwa [show (Address.node root.id).text = "#" ++ root.id from String.append_empty] at h
  decode := root.decoded

/-- Where the address leads that is fallen back to: to the log of the root, and that is where
    the explorer is, or nowhere. -/
structure FallsBack (x : Explorer) (run : Run) (fallback : String) : Prop where
  address : fallback = "#" ++ run.root.id
  shown : run.root.mid.root = run.rootMach → ∃ step log,
    x.navigate fallback = (x, [.nodeSelected run.root.id false], .log fallback [step] log) ∧
      run.step? 0 = some step ∧ step.id = run.root.id ∧
      log.IsOf x.index run run.root.id false
  lost : run.root.mid.root ≠ run.rootMach →
    ∃ again reason, (x.navigate fallback).2.2 = .cleared again reason

namespace FallsBack

variable {run : Run} {fallback : String} (h : x.FallsBack run fallback)
include h

theorem ne_empty : fallback ≠ "" := by
  rw [h.address]
  intro hempty
  have hlist := congrArg String.toList hempty
  simp at hlist

theorem log_iff : (∃ shown path log, (x.navigate fallback).2.2 = .log shown path log) ↔
    run.root.mid.root = run.rootMach := by
  constructor
  · rintro ⟨shown, path, log, hlog⟩
    by_contra hother
    obtain ⟨_, _, hcleared⟩ := h.lost hother
    rw [hcleared] at hlog
    cases hlog
  · intro hown
    obtain ⟨step, log, hlog, _⟩ := h.shown hown
    exact ⟨fallback, [step], log, congrArg (·.2.2) hlog⟩

end FallsBack

theorem visit_root {root : Entry} (hroot : x.index.IsRoot root)
    (hactive : x.active = some (Run.ofRoot x.index root)) (hown : root.mid.root = root.mach) :
    ∃ step log, x.visit (.node root.id) =
        ([.nodeSelected root.id false], .log ("#" ++ root.id) [step] log) ∧
      (Run.ofRoot x.index root).step? 0 = some step ∧ step.id = root.id ∧
      log.IsOf x.index (Run.ofRoot x.index root) root.id false := by
  obtain ⟨step, hstep, hid, hpath⟩ := Run.path_root hroot hown
  obtain ⟨log, hlog, hof, _⟩ := exists_log hactive (Index.chain_root hroot) false
  have hview : x.view (.node root.id) = .ok (.log (Address.node root.id).text [step] log) := by
    refine view_eq_ok_iff.2 ⟨[step], log, ?_, hlog, rfl⟩
    rw [path, run, hactive]
    exact hpath
  refine ⟨step, log, ?_, hstep, hid, hof⟩
  rw [visit, hview, show (Address.node root.id).text = "#" ++ root.id from String.append_empty]
  rfl

/-- No other run has the root in its tree. -/
theorem visit_other_root {root other : Entry} (hroot : x.index.IsRoot root)
    (hother : x.index.IsRoot other) (hactive : x.active = some (Run.ofRoot x.index other))
    (hmach : other.mach = root.mid.root) (hne : other ≠ root) :
    ∃ again reason, (x.visit (.node root.id)).2 = .cleared again reason := by
  have harrives := arrives_visit (a := .node root.id) hother hactive root.decoded hmach.symm
  cases hvisit : (x.visit (.node root.id)).2 with
  | cleared again reason => exact ⟨again, reason, rfl⟩
  | log shown path log =>
    have hnode := harrives.log_iff.1 ⟨shown, path, log, hvisit⟩
    have hleads := (Run.id_mem_iff hother.mem hother.parentId hroot.mem).1 hnode
    exact absurd (hleads.eq_root (Index.parent?_eq_none hroot.parentId)).symm hne

theorem fallsBack {root : Entry} (hroot : x.index.IsRoot root)
    (hactive : x.active = some (Run.ofRoot x.index root)) :
    x.FallsBack (Run.ofRoot x.index root) ("#" ++ root.id) := by
  have hmach : x.activeMach = some root.mach := by
    rw [activeMach, hactive]
    rfl
  have hnames := names_root root
  have hfollows := x.follows ("#" ++ root.id)
  refine ⟨rfl, fun hown => ?_, fun hother => ?_⟩
  · replace hown : root.mid.root = root.mach := hown
    obtain ⟨step, log, hvisit, hshown⟩ := visit_root hroot hactive hown
    refine ⟨step, log, ?_, hshown⟩
    generalize x.navigate ("#" ++ root.id) = r at hfollows
    cases hfollows with
    | nowhere hnone => exact absurd hnames (hnone _ _)
    | unknown h hne | switches h hne =>
      obtain ⟨rfl, rfl⟩ := h.unique hnames
      exact absurd (hmach.trans (congrArg some hown.symm)) hne
    | stays h =>
      obtain ⟨rfl, rfl⟩ := h.unique hnames
      rw [hvisit]
      rfl
  · replace hother : root.mid.root ≠ root.mach := hother
    generalize x.navigate ("#" ++ root.id) = r at hfollows
    cases hfollows with
    | nowhere | unknown => exact ⟨_, _, rfl⟩
    | stays h hsame =>
      obtain ⟨rfl, rfl⟩ := h.unique hnames
      exact absurd (Option.some.inj (hmach.symm.trans hsame)).symm hother
    | @switches a mid other run y h _ hroot' hmach' hrun hy =>
      obtain ⟨rfl, rfl⟩ := h.unique hnames
      rw [Run.select?_eq hroot'] at hrun
      obtain rfl := Option.some.inj hrun
      have hne : other ≠ root := by
        rintro rfl
        exact hother hmach'.symm
      subst hy
      exact visit_other_root (x := { x with active := some (Run.ofRoot x.index other) }) hroot
        hroot' rfl hmach' hne

/-- An explorer that has an active run has one after any address. -/
theorem isSome_active_navigate (address : String) (h : x.active.isSome) :
    (x.navigate address).1.active.isSome := by
  have hfollows := x.follows address
  generalize x.navigate address = r at hfollows
  cases hfollows with
  | nowhere | unknown | stays => exact h
  | switches _ _ _ _ _ hy =>
    subst hy
    rfl

theorem fallback_navigate {address fallback reason : String} {y : Explorer} {signals : List Signal}
    (h : x.navigate address = (y, signals, .cleared fallback reason)) :
    fallback = y.rootAddress := by
  have hfollows := x.follows address
  rw [h] at hfollows
  generalize hr : (y, signals, Navigation.cleared fallback reason) = r at hfollows
  cases hfollows with
  | nowhere | unknown =>
    obtain ⟨rfl, hr⟩ := Prod.mk.inj hr
    exact (Navigation.cleared.inj (Prod.mk.inj hr).2).1
  | stays =>
    obtain ⟨rfl, hr⟩ := Prod.mk.inj hr
    exact fallback_visit (Prod.mk.inj hr).2.symm
  | switches =>
    obtain ⟨rfl, hr⟩ := Prod.mk.inj hr
    exact fallback_visit (Prod.mk.inj hr).2.symm

/-- What is fallen back to after any actions is the root of the run that is active then. -/
theorem fallsBack_navigate (t : Trace) (actions : List Action) {address fallback reason : String}
    {y : Explorer} {signals : List Signal}
    (h : (after t actions).navigate address = (y, signals, .cleared fallback reason)) {run : Run}
    (hactive : y.active = some run) : y.FallsBack run fallback := by
  have hy : y = after t (actions ++ [.navigate address]) := by
    rw [after, List.foldl_append]
    exact (congrArg Prod.fst h).symm
  have hfallback := (fallback_navigate h).trans y.rootAddress_eq
  obtain ⟨root, hroot, hrun⟩ := (hy ▸ sound_after t _ : y.Sound) run hactive
  rw [Run.select?_eq hroot] at hrun
  obtain rfl := Option.some.inj hrun
  rw [hfallback, hactive]
  exact fallsBack hroot hactive

end Explorer

namespace CommandLine

open Answer

variable {x : Explorer}

/-! ## What `log` shows -/

/-- The address leads to a log, or it falls back to a root that names itself. -/
def EndsInLog (x : Explorer) (address : String) : Prop :=
  ∀ y signals fallback reason, x.navigate address = (y, signals, .cleared fallback reason) →
    ∃ run, y.active = some run ∧ run.root.mid.root = run.rootMach

theorem endsInLog_iff_of_cleared {address fallback reason : String} {y : Explorer}
    {signals : List Signal} {run : Run}
    (h : x.navigate address = (y, signals, .cleared fallback reason))
    (hactive : y.active = some run) :
    EndsInLog x address ↔ run.root.mid.root = run.rootMach := by
  constructor
  · intro hends
    obtain ⟨run', hactive', hown⟩ := hends y signals fallback reason h
    exact Option.some.inj (hactive.symm.trans hactive') ▸ hown
  · rintro hown y' signals' fallback' reason' h'
    obtain ⟨rfl, _⟩ := Prod.mk.inj (h.symm.trans h')
    exact ⟨run, hactive, hown⟩

/-- The answer is that a navigation is shown, after some diagnostics, and the navigation is a log
    just if the address ends in one. -/
structure AnswersLog (x : Explorer) (address : String) (colored json : Bool) (a : Answer) :
    Prop where
  shows : ∃ said navigation,
    a = (⟨[], said, none⟩ : Answer).andThen (navigationAnswer colored json navigation) ∧
      ((∃ shown path log, navigation = .log shown path log) ↔ EndsInLog x address)
  /-- Without a log there is no text. -/
  text : json = false → (a.output ≠ [] ↔ EndsInLog x address)

theorem output_navigationAnswer (colored : Bool) (navigation : Navigation) :
    (navigationAnswer colored false navigation).output ≠ [] ↔
      ∃ shown path log, navigation = .log shown path log := by
  cases navigation with
  | log shown path log => exact ⟨fun _ => ⟨shown, path, log, rfl⟩, fun _ => List.cons_ne_nil _ _⟩
  | cleared => exact ⟨fun h => absurd rfl h, fun ⟨_, _, _, h⟩ => nomatch h⟩

theorem AnswersLog.of_shows {address : String} {colored json : Bool} {a : Answer}
    {said : List String} {navigation : Navigation}
    (ha : a = (⟨[], said, none⟩ : Answer).andThen (navigationAnswer colored json navigation))
    (hlog : (∃ shown path log, navigation = .log shown path log) ↔ EndsInLog x address) :
    AnswersLog x address colored json a where
  shows := ⟨said, navigation, ha, hlog⟩
  text := by
    rintro rfl
    rw [← hlog, ← output_navigationAnswer colored, ha]
    rfl

/-- What `log` answers where a run is active: the log that the address leads to, or that of the
    root, or none. -/
theorem answersLog (t : Trace) (actions : List Explorer.Action)
    (hactive : (Explorer.after t actions).active.isSome) (colored json : Bool) (address : String)
    (raw : Bool) : AnswersLog (Explorer.after t actions) (logAddress address raw) colored json
      (logAnswer colored json (Explorer.after t actions) address raw) := by
  have hstill := Explorer.isSome_active_navigate (logAddress address raw) hactive
  unfold logAnswer
  cases hnav : (Explorer.after t actions).navigate (logAddress address raw) with
  | mk y r =>
    obtain ⟨signals, navigation⟩ := r
    rw [hnav] at hstill
    cases navigation with
    | log shown path log =>
      have hshows : navigationAnswer colored json (.log shown path log) =
          (⟨[], [], none⟩ : Answer).andThen (navigationAnswer colored json (.log shown path log)) :=
        rfl
      refine .of_shows hshows ⟨fun _ => ?_, fun _ => ⟨shown, path, log, rfl⟩⟩
      intro y' signals' fallback reason h
      cases hnav.symm.trans h
    | cleared fallback reason =>
      obtain ⟨run, hrun⟩ := Option.isSome_iff_exists.1 hstill
      have hfalls := Explorer.fallsBack_navigate t actions hnav hrun
      simp only [if_neg hfalls.ne_empty]
      exact .of_shows rfl (hfalls.log_iff.trans (endsInLog_iff_of_cleared hnav hrun).symm)

/-- After any actions, the address that an address falls back to leads to the log of the active
    root if this names itself, and nowhere if it names another. So `log` shows a log just if the
    address leads to one or falls back to a root that names itself. -/
theorem logAnswer_fallback (t : Trace) (actions : List Explorer.Action) :
    (∀ address y signals fallback reason run,
      (Explorer.after t actions).navigate address = (y, signals, .cleared fallback reason) →
        y.active = some run → y.FallsBack run fallback) ∧
    ((Explorer.after t actions).active.isSome → ∀ colored json address raw,
      AnswersLog (Explorer.after t actions) (logAddress address raw) colored json
        (logAnswer colored json (Explorer.after t actions) address raw)) :=
  ⟨fun _ _ _ _ _ _ h hactive => Explorer.fallsBack_navigate t actions h hactive,
    fun hactive colored json address raw => answersLog t actions hactive colored json address raw⟩

/-- A root that names a machine without a run. -/
def lostRoot : Trace := ⟨[Session.ofId "5(0:7)"], []⟩

/-- The address of the active root is fallen back to, and it leads nowhere. -/
theorem logAnswer_lostRoot :
    (Explorer.after lostRoot [.selectRoot 7]).activeMach = some 7 ∧
      ((Explorer.after lostRoot [.selectRoot 7]).navigate "").2.2.fallback? =
        some ("#5(0:7)", "empty address") ∧
      ((Explorer.after lostRoot [.selectRoot 7]).navigate "#5(0:7)").2.2.fallback? =
        some ("#5(0:7)", "unknown run 5") ∧
      logAnswer false false (Explorer.after lostRoot [.selectRoot 7]) "" false =
        ⟨[], ["Cleared: empty address"], none⟩ := by
  refine ⟨?_, ?_, ?_, ?_⟩
  · decide +kernel
  · decide +kernel
  · decide +kernel
  · decide +kernel

end CommandLine

end TraceExplorer
