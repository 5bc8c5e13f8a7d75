import TraceExplorer.Http.Service
import TraceExplorer.Proofs.Explorer.Selection
import Mathlib.Data.List.Induction

/-
  Courses: an explorer through any number of actions, and a listener that is there from the
  start and collects from time to time. `Changes` says what one action can do, so the active run
  stays one that the index has (`Changes.sound`), and the signals of the action lead from the
  active root before it to that after it (`Changes.foldl_follow`). By induction the listener
  knows the active root at every point of a course, unless signals were lost (`known_run`).
-/

namespace TraceExplorer

/-! ## What listeners make of signals -/

namespace Signal

/-- The active root as a listener knows it, after one more signal. -/
def follow (active : Option UInt64) : Signal → Option UInt64
  | .loaded .. => none
  | .rootSelected _ mach => some mach
  | .nodeSelected .. | .cleared .. => active

/-- The active root as someone knows it who heard the signals and nothing else. -/
def replay (signals : List Signal) : Option UInt64 := signals.foldl follow none

/-- The signal is about a view, and not about what is loaded or selected. -/
inductive IsOfView : Signal → Prop where
  | nodeSelected {id : String} {raw : Bool} : IsOfView (.nodeSelected id raw)
  | cleared {address reason : String} : IsOfView (.cleared address reason)

theorem foldl_follow_of_view {signals : List Signal} (h : ∀ s ∈ signals, s.IsOfView)
    (active : Option UInt64) : signals.foldl follow active = active := by
  induction signals with
  | nil => rfl
  | cons s signals ih =>
    obtain ⟨hs, hrest⟩ := List.forall_mem_cons.1 h
    rw [List.foldl_cons]
    cases hs with
    | nodeSelected | cleared => exact ih hrest

end Signal

/-- Signals collected, how many were lost until then, and what came in since. -/
structure Listener where
  heard : List Signal
  missed : Nat
  mailbox : Mailbox

namespace Listener

def new : Listener := ⟨[], 0, .empty⟩

def receive (l : Listener) (signals : List Signal) : Listener :=
  { l with mailbox := l.mailbox.deliver signals }

def collect (l : Listener) : Listener :=
  ⟨l.heard ++ l.mailbox.waiting, l.missed + l.mailbox.lost, .empty⟩

/-- All signals that got through. -/
def signals (l : Listener) : List Signal := l.heard ++ l.mailbox.waiting

/-- How many signals did not get through. -/
def lost (l : Listener) : Nat := l.missed + l.mailbox.lost

theorem signals_collect (l : Listener) : l.collect.signals = l.signals :=
  List.append_nil _

theorem lost_collect (l : Listener) : l.collect.lost = l.lost := Nat.add_zero _

/-- As long as no signal is lost, all of them get through, in order. -/
theorem signals_receive {l : Listener} {signals : List Signal}
    (h : (l.receive signals).lost = 0) :
    l.lost = 0 ∧ (l.receive signals).signals = l.signals ++ signals := by
  simp only [lost, receive, Mailbox.deliver] at h
  obtain ⟨hmissed, hlost⟩ := Nat.add_eq_zero_iff.1 h
  obtain ⟨hlost, hdropped⟩ := Nat.add_eq_zero_iff.1 hlost
  constructor
  · rw [lost, hmissed, hlost]
  · simp only [Listener.signals, receive, Mailbox.deliver]
    rw [hdropped, List.drop_zero, List.append_assoc]

end Listener

namespace Explorer

variable {x : Explorer}

/-! ## What one action does -/

/-- The last signal of a navigation tells where it led. -/
inductive Closes : Signal → Navigation → Prop where
  | log {id : String} {raw : Bool} {address : String} {path : List PathStep} {log : NodeLog} :
      Closes (.nodeSelected id raw) (.log address path log)
  | cleared {address reason : String} :
      Closes (.cleared address reason) (.cleared address reason)

theorem Closes.isOfView {s : Signal} {navigation : Navigation} (h : Closes s navigation) :
    s.IsOfView := by
  cases h with
  | log => exact .nodeSelected
  | cleared => exact .cleared

theorem closes_visit (x : Explorer) (a : Address) :
    ∃ s navigation, x.visit a = ([s], navigation) ∧ Closes s navigation := by
  unfold visit
  cases hview : x.view a with
  | error fault => exact ⟨_, _, rfl, .cleared⟩
  | ok navigation =>
    obtain ⟨steps, log, _, _, rfl⟩ := view_eq_ok_iff.1 hview
    exact ⟨_, _, rfl, .log⟩

/-- What a navigation announces: where it led, after the run if that is another one now. -/
inductive Navigates (x : Explorer) : Explorer × List Signal × Navigation → Prop where
  | stays {s : Signal} {navigation : Navigation} (h : Closes s navigation) :
      Navigates x (x, [s], navigation)
  | switches {root : Entry} {run : Run} {s : Signal} {navigation : Navigation}
      (hroot : x.index.IsRoot root) (hrun : Run.select? x.index root.mach = some run)
      (hother : x.activeMach ≠ some root.mach) (h : Closes s navigation) :
      Navigates x ({ x with active := some run }, [.rootSelected root.id root.mach, s], navigation)

theorem navigates (x : Explorer) (address : String) : x.Navigates (x.navigate address) := by
  have h := x.follows address
  generalize x.navigate address = r at h ⊢
  cases h with
  | nowhere | unknown => exact .stays .cleared
  | @stays a _ _ _ =>
    obtain ⟨s, navigation, heq, hcloses⟩ := x.closes_visit a
    rw [heq]
    exact .stays hcloses
  | @switches a _ root run y _ hother hroot hmach hrun hy =>
    obtain ⟨s, navigation, heq, hcloses⟩ := y.closes_visit a
    rw [heq, hy]
    exact .switches hroot hrun (hmach ▸ hother) hcloses

/-- What an action can do: load another trace, leave everything as it is, or select a run; what
    is announced besides is about views. -/
inductive Changes (x : Explorer) : Explorer × List Signal → Prop where
  | loads (t : Trace) : Changes x (load t)
  | stays {signals : List Signal} (h : ∀ s ∈ signals, s.IsOfView) : Changes x (x, signals)
  | selects {root : Entry} {run : Run} {signals : List Signal} (hroot : x.index.IsRoot root)
      (hrun : Run.select? x.index root.mach = some run) (h : ∀ s ∈ signals, s.IsOfView) :
      Changes x ({ x with active := some run }, .rootSelected root.id root.mach :: signals)

theorem Selects.changes {mach : UInt64} {r : Explorer × List Signal × Bool}
    (h : x.Selects mach r) : x.Changes (r.1, r.2.1) := by
  cases h with
  | selected hroot _ hrun => exact .selects hroot hrun (by simp)
  | unknown => exact .stays (by simp)

theorem SelectsDefault.changes {preferred : Option UInt64} {r : Explorer × List Signal × Bool}
    (h : x.SelectsDefault preferred r) : x.Changes (r.1, r.2.1) := by
  cases h with
  | preferred hroot _ hrun | least hroot _ _ hrun => exact .selects hroot hrun (by simp)
  | unknown => exact .stays (by simp)

theorem Navigates.changes {r : Explorer × List Signal × Navigation} (h : x.Navigates r) :
    x.Changes (r.1, r.2.1) := by
  cases h with
  | stays h => exact .stays (List.forall_mem_singleton.2 h.isOfView)
  | switches hroot hrun _ h =>
    exact .selects hroot hrun (List.forall_mem_singleton.2 h.isOfView)

theorem changes_selectReply (x : Explorer) (segment : String) :
    x.Changes ((Http.selectReply x segment).1, (Http.selectReply x segment).2.1) := by
  unfold Http.selectReply
  cases (Http.segmentText? segment).bind fun s => Number.word? s.toList with
  | none => exact .stays (by simp)
  | some mach =>
    have h := (x.selects mach).changes
    simp only
    generalize x.selectRoot mach = r at h ⊢
    obtain ⟨y, signals, done⟩ := r
    cases done with
    | true | false => exact h

theorem changes_navigateReply (x : Explorer) (t : Http.Target) :
    x.Changes ((Http.navigateReply x t).1, (Http.navigateReply x t).2.1) := by
  unfold Http.navigateReply
  cases t.field? "address" with
  | none => exact .stays (by simp)
  | some address => exact (x.navigates _).changes

theorem changes_reply (x : Explorer) (r : Http.Request) :
    x.Changes ((Http.reply x r).1, (Http.reply x r).2.1) := by
  have hstays : x.Changes (x, []) := .stays (by simp)
  unfold Http.reply
  simp only
  split
  · exact hstays
  · split
    · exact hstays
    · split
      · rename_i route _ _
        cases route with
        | select mach => exact x.changes_selectReply mach
        | navigate => exact x.changes_navigateReply _
        | roots | tree | outcomes | results | path | log | events => exact hstays
      · exact hstays

/-- What can be done with an explorer. Questions are among the requests. -/
inductive Action where
  | reload (t : Trace)
  | selectRoot (mach : UInt64)
  | selectDefault (preferred : Option UInt64)
  | navigate (address : String)
  | request (r : Http.Request)

/-- The explorer after an action, and what it announces. -/
def act (x : Explorer) : Action → Explorer × List Signal
  | .reload t => load t
  | .selectRoot mach => ((x.selectRoot mach).1, (x.selectRoot mach).2.1)
  | .selectDefault preferred => ((x.selectDefault preferred).1, (x.selectDefault preferred).2.1)
  | .navigate address => ((x.navigate address).1, (x.navigate address).2.1)
  | .request r => ((Http.reply x r).1, (Http.reply x r).2.1)

theorem changes_act (x : Explorer) (a : Action) : x.Changes (x.act a) := by
  cases a with
  | reload t => exact .loads t
  | selectRoot mach => exact (x.selects mach).changes
  | selectDefault preferred => exact (x.selectsDefault preferred).changes
  | navigate address => exact (x.navigates address).changes
  | request r => exact x.changes_reply r

theorem Changes.foldl_follow {y : Explorer} {signals : List Signal} (h : x.Changes (y, signals)) :
    signals.foldl Signal.follow x.activeMach = y.activeMach := by
  cases h with
  | loads t => rfl
  | stays h => exact Signal.foldl_follow_of_view h _
  | @selects root run signals hroot hrun h =>
    rw [Run.select?_eq hroot] at hrun
    rw [List.foldl_cons, Signal.foldl_follow_of_view h, ← Option.some.inj hrun]
    rfl

/-- The active run, if there is one, is what the index has as the run of one of its roots. -/
def Sound (x : Explorer) : Prop :=
  ∀ run, x.active = some run →
    ∃ root, x.index.IsRoot root ∧ Run.select? x.index root.mach = some run

/-- The active run is the one that the index has for its machine. -/
theorem Sound.exists_root (h : x.Sound) {mach : UInt64} (hmach : x.activeMach = some mach) :
    ∃ root, x.index.IsRoot root ∧ root.mach = mach ∧
      x.active = some (Run.ofRoot x.index root) := by
  obtain ⟨run, hactive, rfl⟩ := Option.map_eq_some_iff.1 hmach
  obtain ⟨root, hroot, hrun⟩ := h run hactive
  rw [Run.select?_eq hroot] at hrun
  obtain rfl := Option.some.inj hrun
  exact ⟨root, hroot, rfl, hactive⟩

theorem sound_load (t : Trace) : (load t).1.Sound := by
  intro run h
  cases h

theorem Changes.sound {y : Explorer} {signals : List Signal} (h : x.Changes (y, signals))
    (hx : x.Sound) : y.Sound := by
  cases h with
  | loads t => exact sound_load t
  | stays => exact hx
  | @selects root run _ hroot hrun =>
    intro run' h
    obtain rfl := Option.some.inj h
    exact ⟨root, hroot, hrun⟩

/-- An explorer of a trace after some actions. -/
def after (t : Trace) (actions : List Action) : Explorer :=
  actions.foldl (fun x a => (x.act a).1) (load t).1

theorem sound_after (t : Trace) (actions : List Action) : (after t actions).Sound := by
  induction actions using List.reverseRecOn with
  | nil => exact sound_load t
  | append_singleton actions a ih =>
    rw [after, List.foldl_append]
    exact ((after t actions).changes_act a).sound ih

end Explorer

/-! ## Courses -/

/-- An explorer and one of its listeners. -/
structure Course where
  explorer : Explorer
  listener : Listener

namespace Course

/-- A trace is loaded; the listener is there before, or comes right after. -/
def start (early : Bool) (t : Trace) : Course :=
  let (x, signals) := Explorer.load t
  ⟨x, if early then Listener.new.receive signals else .new⟩

inductive Move where
  | act (a : Explorer.Action)
  | collect

def move (c : Course) : Move → Course
  | .act a =>
    let (x, signals) := c.explorer.act a
    ⟨x, c.listener.receive signals⟩
  | .collect => ⟨c.explorer, c.listener.collect⟩

def run (early : Bool) (t : Trace) (moves : List Move) : Course := moves.foldl move (start early t)

/-- The listener can tell the active root if no signal was lost. -/
def Known (c : Course) : Prop :=
  c.listener.lost = 0 → Signal.replay c.listener.signals = c.explorer.activeMach

theorem known_start (early : Bool) (t : Trace) : (start early t).Known := by
  intro hlost
  cases early with
  | true =>
    rw [show (start true t).listener = Listener.new.receive (Explorer.load t).2 from rfl] at *
    rw [(Listener.signals_receive hlost).2]
    rfl
  | false => rfl

theorem Known.move {c : Course} (h : c.Known) (m : Move) : (c.move m).Known := by
  intro hlost
  cases m with
  | act a =>
    obtain ⟨hbefore, hsignals⟩ := Listener.signals_receive hlost
    have hreplay := (c.explorer.changes_act a).foldl_follow
    rw [← h hbefore, Signal.replay, ← List.foldl_append] at hreplay
    rw [Signal.replay]
    exact (congrArg _ hsignals).trans hreplay
  | collect =>
    rw [show (c.move .collect).listener = c.listener.collect from rfl] at hlost ⊢
    rw [Listener.lost_collect] at hlost
    rw [Listener.signals_collect]
    exact h hlost

theorem known_run (early : Bool) (t : Trace) (moves : List Move) : (run early t moves).Known := by
  induction moves using List.reverseRecOn with
  | nil => exact known_start early t
  | append_singleton moves m ih =>
    rw [run, List.foldl_append]
    exact ih.move m

def Move.action? : Move → Option Explorer.Action
  | .act a => some a
  | .collect => none

/-- It makes no difference to the explorer who listens. -/
theorem explorer_run (early : Bool) (t : Trace) (moves : List Move) :
    (run early t moves).explorer = Explorer.after t (moves.filterMap Move.action?) := by
  induction moves using List.reverseRecOn with
  | nil => rfl
  | append_singleton moves m ih =>
    rw [run, List.foldl_append, Explorer.after, List.filterMap_append, List.foldl_append]
    cases m with
    | act a => exact congrArg (fun x : Explorer => (x.act a).1) ih
    | collect => exact ih

/-- What holds at every point of a course: of the active run, of the list of roots, of what the
    listener knows, and of each action that may come next. -/
structure Coherent (c : Course) : Prop where
  active : ∀ run, c.explorer.active = some run →
    ∃ root, c.explorer.index.IsRoot root ∧ Run.select? c.explorer.index root.mach = some run
  /-- Every root is listed, once and by ascending machine. -/
  roots : ∀ id mach, (id, mach) ∈ c.explorer.roots.map (fun r => (r.id, r.mach)) ↔
    ∃ root, c.explorer.index.IsRoot root ∧ root.id = id ∧ root.mach = mach
  ascending : c.explorer.roots.Pairwise fun a b => a.mach < b.mach
  flagged : (c.explorer.roots.filter (·.active)).map (·.mach) = c.explorer.activeMach.toList
  replay : c.listener.lost = 0 → Signal.replay c.listener.signals = c.explorer.activeMach
  selectRoot : ∀ mach, c.explorer.Selects mach (c.explorer.selectRoot mach)
  selectDefault : ∀ preferred,
    c.explorer.SelectsDefault preferred (c.explorer.selectDefault preferred)
  navigate : ∀ address, c.explorer.Navigates (c.explorer.navigate address)

/-- Every course is coherent, whatever is done in it and whenever the listener collects. -/
theorem coherent_run (early : Bool) (t : Trace) (moves : List Move) :
    (run early t moves).Coherent := by
  have hknown := known_run early t moves
  have hsound := Explorer.sound_after t (moves.filterMap Move.action?)
  rw [← explorer_run early t moves] at hsound
  generalize run early t moves = c at hknown hsound
  refine
    { active := hsound
      roots := fun _ _ => Explorer.mem_map_roots
      ascending := c.explorer.roots_ascend
      flagged := Explorer.filter_active_roots fun mach hmach => ?_
      replay := hknown
      selectRoot := c.explorer.selects
      selectDefault := c.explorer.selectsDefault
      navigate := c.explorer.navigates }
  obtain ⟨root, hroot, hmach, _⟩ := hsound.exists_root hmach
  exact ⟨root, hroot, hmach⟩

end Course

end TraceExplorer
