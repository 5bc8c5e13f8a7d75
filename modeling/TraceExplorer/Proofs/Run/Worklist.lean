import TraceExplorer.Proofs.Run.Growth
import Mathlib.Logic.Function.Iterate

/-
  The tree of a run, visited with a stack instead of by recursion. A turn takes the first
  session off the stack, makes its node, enters the node with its parent, and puts its children
  on the stack. Nothing tells a session that was visited; yet the stack of a complete tree
  is empty after as many turns as the tree has nodes, and the nodes made are those of the tree
  (`turns_tree`), their weights and marks aside.
-/

namespace TraceExplorer

/-- A node before it has a weight and a mark. -/
def Node.bare (n : Node) : Node := { n with weight := 0, mark := none }

/-- The sessions to visit, each with the number of its parent and its depth, and the nodes that
    are made. -/
structure Worklist where
  stack : List (Entry × Option Nat × Nat)
  nodes : List Node

namespace Worklist

variable {kids : Entry → List Entry}

/-- Enters children with the node of their parent. -/
def link (ns : List Node) (parent : Option Nat) (children : List Nat) : List Node :=
  match parent with
  | some p => ns.modify p fun n => { n with children := n.children ++ children }
  | none => ns

def turn (kids : Entry → List Entry) (w : Worklist) : Worklist :=
  match w.stack with
  | [] => w
  | (e, parent, depth) :: stack =>
    { stack := (kids e).map (fun k => (k, some w.nodes.length, depth + 1)) ++ stack
      nodes := link w.nodes parent [w.nodes.length] ++
        [⟨e.id, e.mach, depth, parent, [], 0, none⟩] }

def ofRoot (root : Entry) : Worklist := ⟨[(root, none, 0)], []⟩

/-! ## Links -/

theorem length_link (ns : List Node) (parent : Option Nat) (children : List Nat) :
    (link ns parent children).length = ns.length := by
  cases parent with
  | none => rfl
  | some p => exact List.length_modify _ _ _

theorem link_nil (ns : List Node) (parent : Option Nat) : link ns parent [] = ns := by
  cases parent with
  | none => rfl
  | some p =>
    simp only [link, List.append_nil]
    exact List.modify_id p ns

theorem link_link (ns : List Node) (parent : Option Nat) (is js : List Nat) :
    link (link ns parent is) parent js = link ns parent (is ++ js) := by
  cases parent with
  | none => rfl
  | some p =>
    simp only [link, List.modify_modify_eq]
    congr 1
    funext n
    simp

theorem link_append {ns : List Node} {p : Nat} (hp : p < ns.length) (l : List Node)
    (children : List Nat) :
    link (ns ++ l) (some p) children = link ns (some p) children ++ l := by
  induction ns generalizing p with
  | nil => cases hp
  | cons n ns ih =>
    cases p with
    | zero => rfl
    | succ p => exact congrArg (n :: ·) (ih (Nat.lt_of_succ_lt_succ hp))

theorem link_concat (ns : List Node) (n : Node) (children : List Nat) :
    link (ns ++ [n]) (some ns.length) children =
      ns ++ [{ n with children := n.children ++ children }] := by
  induction ns with
  | nil => rfl
  | cons m ns ih => exact congrArg (m :: ·) ih

/-! ## Turns -/

/-- The turns that visit a forest below node `p`, given those that visit its trees. -/
theorem turns_forest (marks : UInt64 → Option Mark) {ts : List Tree} {p depth : Nat}
    (ih : ∀ t ∈ ts, ∀ stack ns, (turn kids)^[t.size] ⟨(t.entry, some p, depth) :: stack, ns⟩ =
      ⟨stack, link ns (some p) [ns.length]
        ++ (t.nodes marks depth (some p) ns.length).map Node.bare⟩)
    (stack : List (Entry × Option Nat × Nat)) (ns : List Node) (hp : p < ns.length) :
    (turn kids)^[Tree.sizes ts] ⟨ts.map (fun t => (t.entry, some p, depth)) ++ stack, ns⟩ =
      ⟨stack, link ns (some p) (Tree.positions ns.length ts)
        ++ (Tree.forest marks depth (some p) ns.length ts).map Node.bare⟩ := by
  induction ts generalizing ns with
  | nil => simp [Tree.sizes, Tree.positions, Tree.forest, link_nil]
  | cons t ts ihts =>
    simp only [Tree.sizes, Tree.positions, Tree.forest, List.map_cons, List.cons_append]
    rw [Nat.add_comm, Function.iterate_add_apply, ih t List.mem_cons_self]
    have hlen : (link ns (some p) [ns.length]
        ++ (t.nodes marks depth (some p) ns.length).map Node.bare).length = ns.length + t.size := by
      rw [List.length_append, length_link, List.length_map, Tree.length_nodes]
    rw [ihts (fun t ht => ih t (List.mem_cons_of_mem _ ht)) _ (by omega), hlen,
      link_append (by rw [length_link]; exact hp), link_link, List.map_append, List.append_assoc]
    rfl

/-- A complete tree is visited in as many turns as it has nodes. -/
theorem turns_tree (marks : UInt64 → Option Mark) {t : Tree} (ht : t.Unfolds kids)
    (parent : Option Nat) (depth : Nat) (stack : List (Entry × Option Nat × Nat)) (ns : List Node) :
    (turn kids)^[t.size] ⟨(t.entry, parent, depth) :: stack, ns⟩ =
      ⟨stack, link ns parent [ns.length]
        ++ (t.nodes marks depth parent ns.length).map Node.bare⟩ := by
  induction t using Tree.inductionOn generalizing parent depth stack ns with
  | node e children ih =>
    cases ht with
    | node hkids hbelow =>
      simp only [Tree.size]
      rw [Nat.add_comm, Function.iterate_succ_apply]
      have hturn : turn kids ⟨(e, parent, depth) :: stack, ns⟩ =
          ⟨children.map (fun t => (t.entry, some ns.length, depth + 1)) ++ stack,
            link ns parent [ns.length] ++ [⟨e.id, e.mach, depth, parent, [], 0, none⟩]⟩ := by
        simp only [turn]
        rw [← hkids, List.map_map]
        rfl
      have hlen : (link ns parent [ns.length] ++
          [(⟨e.id, e.mach, depth, parent, [], 0, none⟩ : Node)]).length = ns.length + 1 := by
        rw [List.length_append, length_link]
        rfl
      have hlink := link_concat (link ns parent [ns.length])
        ⟨e.id, e.mach, depth, parent, [], 0, none⟩ (Tree.positions (ns.length + 1) children)
      rw [length_link] at hlink
      rw [show (Tree.node e children).entry = e from rfl, hturn,
        turns_forest marks (fun t ht => ih t ht (hbelow t ht) _ _) stack _ (by omega), hlen, hlink,
        List.append_assoc]
      rfl

end Worklist

/-- The tree of a run is made when the stack is empty. -/
theorem Index.turns_ofRoot {x : Index} {root : Entry} (marks : UInt64 → Option Mark)
    (hmem : root ∈ x.entries) (hroot : root.parentId = none) :
    (Worklist.turn (x.memberKids root.mach))^[(x.tree root).size] (Worklist.ofRoot root) =
      ⟨[], ((x.tree root).nodes marks 0 none 0).map Node.bare⟩ := by
  have h := Worklist.turns_tree marks (x.unfolds_tree hmem hroot) none 0 [] []
  rw [show (x.tree root).entry = root from Tree.entry_grow _ _ _] at h
  exact h

end TraceExplorer
