import TraceExplorer.Proofs.Index.Order
import TraceExplorer.Proofs.Log.Unmarked
import TraceExplorer.Proofs.Run.Growth
import TraceExplorer.Proofs.Run.Outcome
import TraceExplorer.Proofs.Run.Waypoints
import TraceExplorer.Run.Path
import Mathlib.Data.Option.Basic

/-
  Runs and logs of the same sessions in two load orders. Children are sorted by machine, so the
  trees of a root are the same (`SameEntries.tree_eq`). The load order is the order of the goals,
  and where several goals are reached by way of a session the last one has the mark; so the nodes
  agree but for their marks, and so do the paths, which are found without them
  (`Run.SameNodes.path_eq`), and the logs. Which machines are marked is the same, since
  that does not depend on the goal that has the word (`Waypoints.isSome_eq`).
-/

namespace TraceExplorer

/-! ## Trees and children -/

namespace Index.SameEntries

variable {x y : Index} (h : x.SameEntries y)
include h

theorem members_perm (mach : UInt64) : (x.members mach).Perm (y.members mach) :=
  List.Perm.filter _ h

theorem memberKids_eq (mach : UInt64) : x.memberKids mach = y.memberKids mach := by
  funext e
  refine eq_of_perm_of_ascend ?_ (x.memberKids_ascend mach e) (y.memberKids_ascend mach e)
  exact (List.mergeSort_perm _ _).trans
    (((h.kids_perm e.id).filter _).trans (List.mergeSort_perm _ _).symm)

theorem tree_eq (root : Entry) : x.tree root = y.tree root := by
  rw [tree, tree, h.memberKids_eq, (h.members_perm root.mach).length_eq]

theorem visits_iff {id : String} {mach : UInt64} : x.Visits id mach ↔ y.Visits id mach := by
  have hvisits : ∀ {x y : Index}, x.SameEntries y → x.Visits id mach → y.Visits id mach := by
    intro x y h
    rintro ⟨goal, way, node, hgoal, hway, hnode, hmach⟩
    exact ⟨goal, way, node, h.get?_eq ▸ hgoal, h.isWalk hway, hnode, hmach⟩
  exact ⟨hvisits h, hvisits h.symm⟩

end Index.SameEntries

/-- The machines that goals in any order mark. -/
theorem Waypoints.isSome_eq {x y : Index} (h : x.SameEntries y) {ids ids' : List String}
    (hids : ids.Perm ids') (mach : UInt64) :
    ((ofGoals x ids).get? mach).isSome = ((ofGoals y ids').get? mach).isSome := by
  have hx := (known_ofGoals x ids mach).isSome_iff
  have hy := (known_ofGoals y ids' mach).isSome_iff
  rw [Bool.eq_iff_iff, hx, hy]
  exact exists_congr fun id => and_congr hids.mem_iff h.visits_iff

/-! ## Buckets -/

namespace Buckets

theorem ids_perm {sessions sessions' : List Session} (h : sessions.Perm sessions')
    (name : String) : ((ofSessions sessions).ids name).Perm ((ofSessions sessions').ids name) := by
  rw [ids_ofSessions, ids_ofSessions]
  exact (h.filter _).map _

theorem keys_eq {sessions sessions' : List Session} (h : sessions.Perm sessions') :
    (ofSessions sessions).keys = (ofSessions sessions').keys := by
  refine Dict.keys_eq_of_isSome fun name => ?_
  rw [Bool.eq_iff_iff, isSome_get?_ofSessions, isSome_get?_ofSessions]
  exact exists_congr fun s => and_congr_left' h.mem_iff

end Buckets

/-! ## Nodes without their marks -/

def Node.unmarked (n : Node) : Node := { n with mark := none }

namespace Tree

mutual

theorem map_unmarked_nodes (marks : UInt64 → Option Mark) (depth : Nat) (parent : Option Nat)
    (start : Nat) : (t : Tree) → (t.nodes marks depth parent start).map Node.unmarked =
      t.nodes (fun _ => none) depth parent start
  | .node e children => by
    simp only [nodes, List.map_cons]
    rw [map_unmarked_forest marks (depth + 1) (some start) (start + 1) children]
    rfl

theorem map_unmarked_forest (marks : UInt64 → Option Mark) (depth : Nat) (parent : Option Nat)
    (start : Nat) : (ts : List Tree) → (forest marks depth parent start ts).map Node.unmarked =
      forest (fun _ => none) depth parent start ts
  | [] => rfl
  | t :: ts => by
    simp only [forest, List.map_append]
    rw [map_unmarked_nodes marks depth parent start t, map_unmarked_forest marks depth parent _ ts]

end

end Tree

def PathStep.unmarked (s : PathStep) : PathStep := { s with mark := none }

def Lookup.unmarked : Lookup → Lookup
  | .path steps => .path (steps.map PathStep.unmarked)
  | .empty => .empty

namespace Run

/-- The runs have one root, and the same nodes but for their marks. -/
structure SameNodes (r s : Run) : Prop where
  root : r.root = s.root
  nodes : r.nodes.map Node.unmarked = s.nodes.map Node.unmarked

/-! ## Paths -/

namespace SameNodes

variable {r s : Run} (h : r.SameNodes s)
include h

theorem node?_eq (n : Nat) : (r.node? n).map Node.unmarked = (s.node? n).map Node.unmarked := by
  rw [node?, node?, ← List.getElem?_map, ← List.getElem?_map, h.nodes]

/-- What can be seen of a node without its mark. -/
theorem map_node?_eq {α : Type} {f : Node → α} (hf : ∀ n : Node, f n.unmarked = f n) (n : Nat) :
    (r.node? n).map f = (s.node? n).map f := by
  have heq := congrArg (Option.map f) (h.node?_eq n)
  rwa [Option.map_map, Option.map_map, show f ∘ Node.unmarked = f from funext hf] at heq

theorem findChild?_eq (n : Nat) (mach : UInt64) : r.findChild? n mach = s.findChild? n mach := by
  have hany : (fun child => (r.node? child).any (·.mach == mach)) =
      fun child => (s.node? child).any (·.mach == mach) := by
    funext child
    have hmach := h.map_node?_eq (f := Node.mach) (fun _ => rfl) child
    have heq := congrArg (Option.any (· == mach)) hmach
    rwa [Option.any_map, Option.any_map] at heq
  have hchildren := h.map_node?_eq (f := Node.children) (fun _ => rfl) n
  have hfind := congrArg
    (Option.bind · (List.find? fun child => (s.node? child).any (·.mach == mach))) hchildren
  simp only [Option.bind_map] at hfind
  unfold findChild?
  rw [hany]
  exact hfind

theorem descend_eq (id : String) (n : Nat) (machs : List UInt64) :
    r.descend id n machs = s.descend id n machs := by
  induction machs generalizing n with
  | nil => rfl
  | cons mach machs ih =>
    rw [descend, descend, h.findChild?_eq, h.map_node?_eq (f := Node.id) (fun _ => rfl)]
    cases s.findChild? n mach with
    | none => rfl
    | some child => exact congrArg (Except.map (child :: ·)) (ih child)

theorem step?_eq (n : Nat) :
    (r.step? n).map PathStep.unmarked = (s.step? n).map PathStep.unmarked := by
  rw [step?, step?, Option.map_map, Option.map_map]
  exact h.map_node?_eq (fun _ => rfl) n

theorem pathAlong_eq (id : String) (machs : List UInt64) :
    (r.pathAlong id machs).map Lookup.unmarked = (s.pathAlong id machs).map Lookup.unmarked := by
  have hsteps : ∀ ns : List Nat, (ns.filterMap r.step?).map PathStep.unmarked =
      (ns.filterMap s.step?).map PathStep.unmarked := by
    intro ns
    rw [List.map_filterMap, List.map_filterMap, funext h.step?_eq]
  cases machs with
  | nil => rfl
  | cons first machs =>
    rw [pathAlong, pathAlong, rootMach, rootMach, h.root, h.descend_eq]
    split
    · cases s.descend id 0 machs with
      | error fault => rfl
      | ok ns => exact congrArg (fun steps => Except.ok (Lookup.path steps)) (hsteps (0 :: ns))
    · rfl

/-- A path is found without the marks. -/
theorem path_eq {x y : Index} (id : String) (hchain : x.chain id = y.chain id) :
    (r.path x id).map Lookup.unmarked = (s.path y id).map Lookup.unmarked := by
  rw [path, path, rootMach, rootMach, h.root, hchain]
  split
  · rfl
  · split
    · split
      · rfl
      · exact h.pathAlong_eq id _
    · rfl

end SameNodes

/-! ## Runs -/

/-- What the runs of one root in two load orders agree on. -/
structure Alike (x y : Index) (r s : Run) : Prop where
  root : r.root = s.root
  nodes : r.nodes.map Node.unmarked = s.nodes.map Node.unmarked
  members : r.members.Perm s.members
  orphans : r.orphans = s.orphans
  path : ∀ id, (r.path x id).map Lookup.unmarked = (s.path y id).map Lookup.unmarked
  /-- The same machines are marked, maybe for different goals. -/
  marked : ∀ mach, (r.waypoints.mark? mach).isSome = (s.waypoints.mark? mach).isSome
  buckets : r.buckets.keys = s.buckets.keys
  ids : ∀ name, (r.buckets.ids name).Perm (s.buckets.ids name)

theorem alike_ofRoot {x y : Index} (h : x.SameEntries y) (root : Entry) :
    Alike x y (ofRoot x root) (ofRoot y root) := by
  have hmembers := h.members_perm root.mach
  have hnodes : (ofRoot x root).SameNodes (ofRoot y root) := by
    refine ⟨rfl, ?_⟩
    unfold ofRoot
    simp only
    rw [Tree.map_unmarked_nodes, Tree.map_unmarked_nodes, h.tree_eq]
  have hlen : (ofRoot x root).nodes.length = (ofRoot y root).nodes.length := by
    simpa only [List.length_map] using congrArg List.length hnodes.nodes
  have hsessions := hmembers.map Entry.session
  have hids := Buckets.ids_perm hsessions
  exact
    { root := rfl
      nodes := hnodes.nodes
      members := hmembers
      orphans := by
        unfold orphans
        rw [hlen]
        exact congrArg (· - _) hmembers.length_eq
      path := fun id => hnodes.path_eq id (h.chain_eq id)
      marked := fun mach => by
        unfold Waypoints.mark?
        rw [Option.isSome_map, Option.isSome_map]
        exact Waypoints.isSome_eq h (hids _) mach
      buckets := Buckets.keys_eq hsessions
      ids := hids }

end Run

/-! ## Whole traces -/

/-- What two indexes that hold the same sessions agree on, and with them their runs and logs. -/
structure Rearranged (x y : Index) : Prop where
  index : x.Alike y
  /-- A root has a run in both or in none. -/
  run : ∀ mach, Option.Rel (Run.Alike x y) (Run.select? x mach) (Run.select? y mach)
  rawLog : ∀ waypoints waypoints' id, (RawLog.assemble x waypoints id).map RawLog.unmarked =
    (RawLog.assemble y waypoints' id).map RawLog.unmarked
  normalizedLog : ∀ waypoints waypoints' id,
    (NormalizedLog.assemble x waypoints id).map NormalizedLog.unmarked =
      (NormalizedLog.assemble y waypoints' id).map NormalizedLog.unmarked

/-- The load order of distinct sessions decides nothing but the order of the sessions with one
    outcome and which goal marks a machine. -/
theorem Index.rearranged_ofTrace {t t' : Trace} (h : Session.Distinct t.sessions)
    (hperm : t.sessions.Perm t'.sessions) : Rearranged (ofTrace t) (ofTrace t') := by
  have hsame := sameEntries_ofTrace h hperm
  exact
    { index := hsame.alike
      run := fun mach => by
        rw [Run.select?, Run.select?, hsame.root?_eq]
        cases (ofTrace t').root? mach with
        | none => exact .none
        | some root => exact .some (Run.alike_ofRoot hsame root)
      rawLog := fun waypoints waypoints' id => by
        rw [RawLog.map_unmarked_assemble, RawLog.map_unmarked_assemble, RawLog.assemble,
          RawLog.assemble, hsame.chain_eq]
      normalizedLog := fun waypoints waypoints' id => by
        rw [NormalizedLog.map_unmarked_assemble, NormalizedLog.map_unmarked_assemble,
          NormalizedLog.assemble, NormalizedLog.assemble, hsame.chain_eq] }

/-- A root with two children that ended with values, and a session whose parent is not there. -/
def forkedSessions : List Session :=
  [{ Session.ofId "1(0:1)" with records := [.ofKind .start, .ofKind .postOp] },
    { Session.ofId "1(1:2)" with parentId := "1(0:1)", values := "x" },
    { Session.ofId "1(2:3)" with parentId := "1(0:1)", values := "y" },
    { Session.ofId "1(7:4)" with parentId := "1(0:7)", error := "lost" }]

/-- The root leads to the goal that comes last, whichever it is. -/
theorem Index.rearranged_ofTrace_forkedSessions :
    Session.Distinct forkedSessions ∧ forkedSessions.Perm forkedSessions.reverse ∧
      (Run.select? (ofTrace ⟨forkedSessions, []⟩) 1).map (fun r =>
        (r.buckets.goals, (r.waypoints.get? 1).map (·.goalId))) =
          some (["1(1:2)", "1(2:3)"], some "1(2:3)") ∧
      (Run.select? (ofTrace ⟨forkedSessions.reverse, []⟩) 1).map (fun r =>
        (r.buckets.goals, (r.waypoints.get? 1).map (·.goalId))) =
          some (["1(2:3)", "1(1:2)"], some "1(1:2)") ∧
      Rearranged (ofTrace ⟨forkedSessions, []⟩) (ofTrace ⟨forkedSessions.reverse, []⟩) := by
  have hdistinct : Session.Distinct forkedSessions := by decide +kernel
  have hperm : forkedSessions.Perm forkedSessions.reverse := (List.reverse_perm _).symm
  exact ⟨hdistinct, hperm, by decide +kernel, by decide +kernel,
    rearranged_ofTrace hdistinct hperm⟩

end TraceExplorer
