import TraceExplorer.Proofs.Explorer.Course
import TraceExplorer.Proofs.Log.Normalized
import TraceExplorer.Proofs.Log.Raw
import TraceExplorer.Proofs.Run.Path

/-
  Where following an address leads. The path of a session comes from the tree of its run and the
  segments of its log from the chain in the index; they agree (`IsPath.forall₂_agrees`), so a
  session that has a path has a log as well (`arrives_visit`), and any address leads to a log or
  back to the root of the active run (`navigate_leads`).
-/

namespace TraceExplorer

/-! ## Paths and logs -/

/-- The step and the segment are those of one session. -/
structure PathStep.Agrees (s : PathStep) (g : Segment) : Prop where
  id : s.id = g.nodeId
  mach : s.mach = g.mach
  depth : s.depth = g.depth

namespace NodeLog

def segments : NodeLog → List Segment
  | .raw log => log.segments
  | .normalized log => log.segments

/-- The log of a session with the waypoints of the run, raw or not. -/
inductive IsOf (x : Index) (run : Run) (id : String) : Bool → NodeLog → Prop where
  | raw {log : RawLog} (h : RawLog.assemble x (some run.waypoints) id = .ok log) :
      IsOf x run id true (.raw log)
  | normalized {log : NormalizedLog}
      (h : NormalizedLog.assemble x (some run.waypoints) id = .ok log) :
      IsOf x run id false (.normalized log)

end NodeLog

namespace Run

variable {x : Index} {root : Entry}

/-- The steps of a path are those of the chain. -/
theorem IsPath.step_of_chain (hroot : x.IsRoot root) {id : String} {steps : List PathStep}
    (h : (ofRoot x root).IsPath x id steps) {chain : List Entry} (hchain : x.chain id = .ok chain)
    {k : Nat} {s : PathStep} {e : Entry} (hs : steps[k]? = some s) (he : chain[k]? = some e) :
    s.id = e.id ∧ s.mach = e.mach ∧ s.depth = k := by
  obtain ⟨chain', hchain', hmachs⟩ := h.machs
  obtain rfl := Except.ok.inj (hchain'.symm.trans hchain)
  have hmach : s.mach = e.mach := by
    have hk := congrArg (·[k]?) hmachs
    simp only [List.getElem?_map, hs, he, Option.map_some, Option.some.injEq] at hk
    exact hk
  obtain ⟨n, hn, heq⟩ := h.node s (List.mem_of_getElem? hs)
  obtain ⟨e', he', hshows, _⟩ := exists_session hroot.mem hroot.parentId hn
  have hmem := Index.mem_entries_of_chain hchain e (List.mem_of_getElem? he)
  obtain rfl : e' = e := by
    refine Index.eq_of_mach_eq he' hmem ?_
    rw [← hshows.mach, ← hmach, heq]
  refine ⟨?_, hmach, h.depth k s hs⟩
  rw [← hshows.id, heq]

/-- A path and the segments of a log of the chain agree step by step. -/
theorem IsPath.forall₂_agrees {ρ : Type} (hroot : x.IsRoot root) {id : String}
    {steps : List PathStep} (h : (ofRoot x root).IsPath x id steps) {chain : List Entry}
    (hchain : x.chain id = .ok chain) {segments : List Segment} {rows : List ρ}
    (hcover : Segment.Cover chain segments rows) :
    List.Forall₂ PathStep.Agrees steps segments := by
  have hlen : steps.length = chain.length := by
    obtain ⟨chain', hchain', hmachs⟩ := h.machs
    obtain rfl := Except.ok.inj (hchain'.symm.trans hchain)
    simpa using congrArg List.length hmachs
  refine List.forall₂_iff_get.2 ⟨hlen.trans hcover.length.symm, fun k hk hk' => ?_⟩
  have hs : steps[k]? = some steps[k] := List.getElem?_eq_getElem hk
  have hg : segments[k]? = some segments[k] := List.getElem?_eq_getElem hk'
  have he : chain[k]? = some chain[k] := List.getElem?_eq_getElem (hlen ▸ hk)
  obtain ⟨hid, hmach, hdepth⟩ := h.step_of_chain hroot hchain hs he
  have hof := hcover.session k _ _ he hg
  exact ⟨hid.trans hof.nodeId.symm, hmach.trans hof.mach.symm, hdepth.trans hof.depth.symm⟩

/-- Only a node of the run has a path. -/
theorem mem_ids_of_path (hroot : x.IsRoot root) {id : String} {steps : List PathStep}
    (h : (ofRoot x root).path x id = .ok (.path steps)) :
    id ∈ (ofRoot x root).nodes.map (·.id) := by
  obtain ⟨answer, hanswer⟩ := exists_answer hroot.mem hroot.parentId id
  rw [path_eq_of_answers hroot.mem hroot.parentId hanswer] at h
  subst h
  cases hanswer with
  | path _ hnode => exact hnode

end Run

namespace Explorer

variable {x : Explorer}

/-- In an active run there is a log of every chain, in segments that cover the chain. -/
theorem exists_log {run : Run} (hactive : x.active = some run) {id : String} {chain : List Entry}
    (hchain : x.index.chain id = .ok chain) (raw : Bool) :
    ∃ log, x.log id raw = .ok log ∧ log.IsOf x.index run id raw ∧
      ∃ (ρ : Type) (rows : List ρ), Segment.Cover chain log.segments rows := by
  have hwaypoints : x.waypoints = some run.waypoints := by rw [waypoints, hactive]; rfl
  unfold log
  cases raw with
  | true =>
    have hlog : RawLog.assemble x.index (some run.waypoints) id =
        .ok (.ofChain (some run.waypoints) chain) := by
      rw [RawLog.assemble, hchain]
      rfl
    refine ⟨_, ?_, .raw hlog, _, _, RawLog.cover_ofChain _ _⟩
    rw [if_pos rfl, rawLog, hwaypoints, hlog]
    rfl
  | false =>
    have hlog : NormalizedLog.assemble x.index (some run.waypoints) id =
        .ok (.ofChain (some run.waypoints) chain) := by
      rw [NormalizedLog.assemble, hchain]
      rfl
    refine ⟨_, ?_, .normalized hlog, _, _, NormalizedLog.cover_ofChain _ _⟩
    rw [if_neg Bool.false_ne_true, normalizedLog, hwaypoints, hlog]
    rfl

/-! ## Visiting an address -/

/-- What is shown is the log of the address in the run, with the path to it. -/
structure Shows (x : Index) (run : Run) (a : Address) (shown : String) (path : List PathStep)
    (log : NodeLog) : Prop where
  address : shown = a.text
  resolved : run.path x a.id = .ok (.path path)
  assembled : log.IsOf x run a.id a.raw
  agrees : List.Forall₂ PathStep.Agrees path log.segments

/-- The address leads to a log just if its session is in the tree of the run. -/
structure Arrives (x : Index) (run : Run) (a : Address) (navigation : Navigation) : Prop where
  log_iff : (∃ shown path log, navigation = .log shown path log) ↔
    a.id ∈ run.nodes.map (·.id)
  shows : ∀ shown path log, navigation = .log shown path log → Shows x run a shown path log

theorem arrives_visit {root : Entry} (hroot : x.index.IsRoot root)
    (hactive : x.active = some (Run.ofRoot x.index root)) {a : Address} {mid : MachineId}
    (hmid : MachineId.decode a.id = .ok mid) (hmach : mid.root = root.mach) :
    Arrives x.index (Run.ofRoot x.index root) a (x.visit a).2 := by
  have hown : (Run.ofRoot x.index root).Owns a.id := ⟨mid, hmid, hmach⟩
  have hpath : x.path a.id = (Run.ofRoot x.index root).path x.index a.id := by
    rw [path, run, hactive]
    rfl
  by_cases hnode : a.id ∈ (Run.ofRoot x.index root).nodes.map (·.id)
  · obtain ⟨steps, hsteps, hispath⟩ :=
      Run.exists_path_of_mem hroot.mem hroot.parentId hown hnode
    obtain ⟨chain, hchain, _⟩ := hispath.machs
    obtain ⟨log, hlog, hof, _, _, hcover⟩ := exists_log hactive hchain a.raw
    have hview := view_eq_ok_iff.2 ⟨steps, log, hpath.trans hsteps, hlog, rfl⟩
    rw [visit, hview]
    refine ⟨⟨fun _ => hnode, fun _ => ⟨_, _, _, rfl⟩⟩, fun shown path log' heq => ?_⟩
    obtain ⟨rfl, rfl, rfl⟩ := Navigation.log.inj heq
    exact ⟨rfl, hsteps, hof, hispath.forall₂_agrees hroot hchain hcover⟩
  · have hcleared : ∃ fault, x.view a = .error fault := by
      cases hview : x.view a with
      | error fault => exact ⟨fault, rfl⟩
      | ok navigation =>
        obtain ⟨steps, _, hsteps, _⟩ := view_eq_ok_iff.1 hview
        exact absurd (Run.mem_ids_of_path hroot (hpath.symm.trans hsteps)) hnode
    obtain ⟨fault, hview⟩ := hcleared
    rw [visit, hview]
    refine ⟨⟨fun ⟨_, _, _, heq⟩ => ?_, fun hmem => absurd hmem hnode⟩, fun _ _ _ heq => ?_⟩
    · cases heq
    · cases heq

/-! ## Following an address -/

/-- The run of the machine is active or can be selected. -/
def Knows (x : Explorer) (mach : UInt64) : Prop :=
  x.activeMach = some mach ∨ ∃ root, x.index.IsRoot root ∧ root.mach = mach

/-- Where an address leads from `x`: to the explorer `y`, and to a log or back. -/
structure Leads (x : Explorer) (address : String) (y : Explorer) (navigation : Navigation) :
    Prop where
  index : y.index = x.index
  nowhere : (∀ a mid, Names address a mid → ¬ x.Knows mid.root) →
    y = x ∧ ∃ fallback reason, navigation = .cleared fallback reason
  somewhere : ∀ a mid, Names address a mid → x.Knows mid.root →
    ∃ run, y.active = some run ∧ run.rootMach = mid.root ∧
      Run.select? x.index mid.root = some run ∧ Arrives x.index run a navigation
  /-- What cannot be shown falls back to the root of the active run. -/
  fallback : ∀ fallback reason, navigation = .cleared fallback reason →
    fallback = y.active.elim "" fun run => "#" ++ run.root.id

theorem rootAddress_eq (x : Explorer) :
    x.rootAddress = x.active.elim "" fun run => "#" ++ run.root.id := by
  unfold rootAddress
  cases x.active with
  | none => rfl
  | some run => exact String.append_empty

theorem fallback_visit {a : Address} {fallback reason : String}
    (h : (x.visit a).2 = .cleared fallback reason) : fallback = x.rootAddress := by
  unfold visit at h
  cases hview : x.view a with
  | error fault =>
    rw [hview] at h
    exact (Navigation.cleared.inj h).1.symm
  | ok navigation =>
    obtain ⟨_, _, _, _, rfl⟩ := view_eq_ok_iff.1 hview
    rw [hview] at h
    cases h

theorem leads_clear {address reason : String}
    (h : ∀ a mid, Names address a mid → ¬ x.Knows mid.root) :
    Leads x address x (x.clear reason).2 where
  index := rfl
  nowhere _ := ⟨rfl, _, _, rfl⟩
  somewhere a mid hnames hknows := absurd hknows (h a mid hnames)
  fallback _ _ heq := (Navigation.cleared.inj heq).1 ▸ x.rootAddress_eq

theorem leads_visit {y : Explorer} {address : String} {a : Address} {mid : MachineId}
    (hnames : Names address a mid) (hknows : x.Knows mid.root) (hindex : y.index = x.index)
    {root : Entry} (hroot : x.index.IsRoot root) (hmach : root.mach = mid.root)
    (hactive : y.active = some (Run.ofRoot x.index root)) :
    Leads x address y (y.visit a).2 where
  index := hindex
  nowhere h := absurd hknows (h a mid hnames)
  somewhere b mid' hnames' _ := by
    obtain ⟨rfl, rfl⟩ := hnames.unique hnames'
    refine ⟨_, hactive, hmach, hmach ▸ Run.select?_eq hroot, ?_⟩
    rw [← hindex] at hroot hactive ⊢
    exact arrives_visit hroot hactive hnames.decode hmach.symm
  fallback _ _ h := (fallback_visit h).trans y.rootAddress_eq

/-- Following any address in any explorer leads to the log of its session, or back. -/
theorem navigate_leads (t : Trace) (actions : List Action) (address : String) :
    Leads (after t actions) address ((after t actions).navigate address).1
      ((after t actions).navigate address).2.2 := by
  have hsound := sound_after t actions
  generalize after t actions = x at hsound
  have h := x.follows address
  generalize x.navigate address = r at h
  cases h with
  | nowhere hnone => exact leads_clear fun a mid hnames => absurd hnames (hnone a mid)
  | unknown hnames hother hnone =>
    refine leads_clear fun b mid' hnames' hknows => ?_
    obtain ⟨rfl, rfl⟩ := hnames.unique hnames'
    rcases hknows with hactive | ⟨root, hroot, hmach⟩
    · exact hother hactive
    · exact hnone root hroot hmach
  | stays hnames hsame =>
    obtain ⟨root, hroot, hmach, hactive⟩ := hsound.exists_root hsame
    exact leads_visit hnames (Or.inl hsame) rfl hroot hmach hactive
  | @switches a mid root run y hnames _ hroot hmach hrun hy =>
    rw [Run.select?_eq hroot] at hrun
    obtain rfl := Option.some.inj hrun
    subst hy
    exact leads_visit hnames (Or.inr ⟨root, hroot, hmach⟩) rfl hroot hmach rfl

end Explorer

end TraceExplorer
