import TraceExplorer.Run.Tree
import Mathlib.Data.List.Forall2

/-
  The numbers of a tree. `Tree.nodes` lists a tree in pre-order, so every subtree stands in the
  list from its own number on, as many numbers long as it has nodes (`Stands`,
  `Stands.exists_at`). So parents have smaller numbers, children are the nodes that name their
  parent, and what is below a node is one range of numbers (`preorder_nodes`).
-/

namespace TraceExplorer.Tree

def entry : Tree → Entry
  | .node e _ => e

/-- What holds of a tree if it holds of its children holds of all trees. -/
@[elab_as_elim]
theorem inductionOn {P : Tree → Prop}
    (node : ∀ e children, (∀ c ∈ children, P c) → P (.node e children)) : ∀ t, P t
  | .node e children => node e children fun c _ => inductionOn node c

/-- Every session of the tree has all its `kids` as children, in their order. -/
inductive Unfolds (kids : Entry → List Entry) : Tree → Prop where
  | node {e : Entry} {children : List Tree} (hkids : children.map entry = kids e)
      (hbelow : ∀ t ∈ children, Unfolds kids t) : Unfolds kids (.node e children)

/-- `Within t' t`: the tree `t'` is `t`, or is within one of its children. -/
inductive Within : Tree → Tree → Prop where
  | refl {t : Tree} : Within t t
  | child {t' c : Tree} {e : Entry} {children : List Tree} (hc : c ∈ children)
      (h : Within t' c) : Within t' (.node e children)

theorem Within.unfolds {kids : Entry → List Entry} {t' t : Tree} (h : Within t' t)
    (hu : t.Unfolds kids) : t'.Unfolds kids := by
  induction h with
  | refl => exact hu
  | child hc _ ih =>
    cases hu with
    | node _ hbelow => exact ih (hbelow _ hc)

/-! ## Sizes and positions -/

theorem size_pos (t : Tree) : 0 < t.size := by
  cases t
  simp only [size]
  omega

mutual

theorem length_nodes (marks : UInt64 → Option Mark) (depth : Nat) (parent : Option Nat)
    (start : Nat) : (t : Tree) → (t.nodes marks depth parent start).length = t.size
  | .node e children => by
    simp only [nodes, size, List.length_cons]
    rw [length_forest marks (depth + 1) (some start) (start + 1) children, Nat.add_comm]

theorem length_forest (marks : UInt64 → Option Mark) (depth : Nat) (parent : Option Nat)
    (start : Nat) : (ts : List Tree) → (forest marks depth parent start ts).length = sizes ts
  | [] => rfl
  | t :: ts => by
    simp only [forest, sizes, List.length_append]
    rw [length_nodes marks depth parent start t, length_forest marks depth parent _ ts]

end

/-- The positions of the children ascend. -/
theorem positions_ascend (start : Nat) (ts : List Tree) :
    (∀ i ∈ positions start ts, start ≤ i) ∧ (positions start ts).Pairwise (· < ·) := by
  induction ts generalizing start with
  | nil => exact ⟨by simp [positions], List.Pairwise.nil⟩
  | cons t ts ih =>
    have ⟨hle, hlt⟩ := ih (start + t.size)
    have hpos := t.size_pos
    constructor
    · intro i hi
      rcases List.mem_cons.1 hi with rfl | hi
      · exact Nat.le_refl _
      · exact Nat.le_trans (Nat.le_add_right _ _) (hle i hi)
    · refine List.pairwise_cons.2 ⟨fun i hi => ?_, hlt⟩
      have := hle i hi
      omega

theorem exists_mem_of_forall₂ {α β : Type} {R : α → β → Prop} {l : List α} {l' : List β}
    (h : List.Forall₂ R l l') {a : α} (ha : a ∈ l) : ∃ b ∈ l', R a b := by
  induction h with
  | nil => cases ha
  | cons hab _ ih =>
    rcases List.mem_cons.1 ha with rfl | ha
    · exact ⟨_, List.mem_cons_self, hab⟩
    · obtain ⟨b, hb, hr⟩ := ih ha
      exact ⟨b, List.mem_cons_of_mem _ hb, hr⟩

/-! ## Where a list of nodes stands -/

/-- From the number `start` on, the nodes are those of `l`. -/
def Placed (ns : List Node) (start : Nat) (l : List Node) : Prop :=
  ∀ k n, l[k]? = some n → ns[start + k]? = some n

theorem placed_cons {ns l : List Node} {start : Nat} {n : Node} :
    Placed ns start (n :: l) ↔ ns[start]? = some n ∧ Placed ns (start + 1) l := by
  constructor
  · intro h
    refine ⟨h 0 n rfl, fun k m hm => ?_⟩
    rw [Nat.add_assoc, Nat.add_comm 1 k]
    exact h (k + 1) m hm
  · rintro ⟨hn, hl⟩ k m hm
    cases k with
    | zero => exact Option.some.inj (hm : some n = some m) ▸ hn
    | succ k =>
      have := hl k m hm
      rwa [Nat.add_assoc, Nat.add_comm 1 k] at this

theorem placed_append {ns l l' : List Node} {start : Nat} :
    Placed ns start (l ++ l') ↔ Placed ns start l ∧ Placed ns (start + l.length) l' := by
  induction l generalizing start with
  | nil => exact ⟨fun h => ⟨fun k n hk => by simp at hk, h⟩, And.right⟩
  | cons n l ih =>
    rw [List.cons_append, placed_cons, placed_cons, ih, and_assoc, List.length_cons,
      Nat.add_right_comm, Nat.add_assoc]

/-! ## Where a tree stands -/

section Stands

variable {marks : UInt64 → Option Mark} {ns : List Node}

/-- The tree `t` has its nodes in `ns` from the number `i` on. -/
def Stands (marks : UInt64 → Option Mark) (ns : List Node) (i depth : Nat)
    (parent : Option Nat) (t : Tree) : Prop :=
  Placed ns i (t.nodes marks depth parent i)

/-- The trees of a forest stand one behind another. -/
theorem forest_stands {depth : Nat} {parent : Option Nat} {start : Nat} {ts : List Tree}
    (h : Placed ns start (forest marks depth parent start ts)) :
    List.Forall₂ (fun j t => Stands marks ns j depth parent t ∧ start ≤ j ∧
      j + t.size ≤ start + sizes ts) (positions start ts) ts := by
  induction ts generalizing start with
  | nil => exact List.Forall₂.nil
  | cons t ts ih =>
    simp only [forest] at h
    rw [placed_append, length_nodes] at h
    simp only [positions, sizes]
    refine List.Forall₂.cons ⟨h.1, Nat.le_refl _, by omega⟩ ?_
    refine (ih h.2).imp fun j c hc => ?_
    exact ⟨hc.1, by omega, by omega⟩

/-- Each number of a forest belongs to one of its trees. -/
theorem exists_position {start j : Nat} {ts : List Tree} (hle : start ≤ j)
    (hlt : j < start + sizes ts) :
    ∃ e ∈ (positions start ts).zip ts, e.1 ≤ j ∧ j < e.1 + e.2.size := by
  induction ts generalizing start with
  | nil => simp only [sizes] at hlt; omega
  | cons t ts ih =>
    simp only [sizes] at hlt
    by_cases h : j < start + t.size
    · exact ⟨(start, t), List.mem_cons_self, hle, h⟩
    · have hle' : start + t.size ≤ j := by omega
      have hlt' : j < start + t.size + sizes ts := by omega
      obtain ⟨e, he, hj⟩ := ih hle' hlt'
      exact ⟨e, List.mem_cons_of_mem _ he, hj⟩

namespace Stands

variable {i depth : Nat} {parent : Option Nat} {e : Entry} {children : List Tree} {t : Tree}

theorem node (h : Stands marks ns i depth parent (.node e children)) :
    ns[i]? = some ⟨e.id, e.mach, depth, parent, positions (i + 1) children,
      e.session.postOpCount + weights children, marks e.mach⟩ := by
  unfold Stands at h
  simp only [nodes] at h
  exact (placed_cons.1 h).1

theorem forall₂_children (h : Stands marks ns i depth parent (.node e children)) :
    List.Forall₂ (fun j c => Stands marks ns j (depth + 1) (some i) c ∧ i + 1 ≤ j ∧
      j + c.size ≤ i + 1 + sizes children) (positions (i + 1) children) children := by
  unfold Stands at h
  simp only [nodes] at h
  exact forest_stands (placed_cons.1 h).2

/-- A child of the node of a tree, by its number. -/
theorem child (h : Stands marks ns i depth parent t) {n : Node} (hn : ns[i]? = some n) {j : Nat}
    (hj : j ∈ n.children) :
    ∃ c, Stands marks ns j (depth + 1) (some i) c ∧ i < j ∧ j + c.size ≤ i + t.size := by
  obtain ⟨e, children⟩ := t
  rw [h.node] at hn
  rw [← Option.some.inj hn] at hj
  obtain ⟨c, _, hc, hij, hend⟩ := exists_mem_of_forall₂ h.forall₂_children hj
  simp only [size]
  exact ⟨c, hc, by omega, by omega⟩

/-- Every number of a tree has a subtree, and all but the first have a parent in the tree. -/
theorem exists_at (h : Stands marks ns i depth parent t) {j : Nat} (hle : i ≤ j)
    (hlt : j < i + t.size) :
    ∃ depth' parent' t', Stands marks ns j depth' parent' t' ∧ j + t'.size ≤ i + t.size ∧
      t'.Within t ∧
      (j = i ∧ depth' = depth ∧ parent' = parent ∨
        ∃ k n, i ≤ k ∧ k < j ∧ ns[k]? = some n ∧ parent' = some k ∧ depth' = n.depth + 1 ∧
          j ∈ n.children) := by
  induction t using inductionOn generalizing i depth parent with
  | node e children ih =>
    rcases Nat.eq_or_lt_of_le hle with rfl | hlt'
    · exact ⟨_, _, _, h, Nat.le_refl _, .refl, Or.inl ⟨rfl, rfl, rfl⟩⟩
    simp only [size] at hlt ⊢
    have hlt : j < i + 1 + sizes children := by omega
    obtain ⟨⟨k, c⟩, hkc, hk⟩ := exists_position hlt' hlt
    obtain ⟨hj, hc⟩ := List.of_mem_zip hkc
    obtain ⟨hstands, hik, hend⟩ := List.forall₂_zip h.forall₂_children hkc
    obtain ⟨depth', parent', t', ht', hsize, hwithin, hparent⟩ := ih c hc hstands hk.1 hk.2
    refine ⟨depth', parent', t', ht', by omega, .child hc hwithin, ?_⟩
    rcases hparent with ⟨rfl, rfl, rfl⟩ | ⟨k', n, hk', hrest⟩
    · exact Or.inr ⟨i, _, Nat.le_refl _, by omega, h.node, rfl, rfl, hj⟩
    · exact Or.inr ⟨k', n, by omega, hrest⟩

end Stands

end Stands

/-! ## Pre-order -/

/-- Node `j` is node `i`, or its parent is below node `i`. -/
inductive Below (ns : List Node) (i : Nat) : Nat → Prop where
  | refl : Below ns i i
  | step {j k : Nat} {n : Node} (h : Below ns i j) (hn : ns[k]? = some n)
      (hparent : n.parent = some j) : Below ns i k

/-- Nodes numbered in pre-order: parents before children, each list of children that of the
    nodes that name the parent, and below every node one range of numbers. -/
structure Preorder (ns : List Node) : Prop where
  root : ∃ n, ns[0]? = some n ∧ n.parent = none ∧ n.depth = 0
  parent : ∀ (i : Nat) (n : Node), 0 < i → ns[i]? = some n →
    ∃ j p, n.parent = some j ∧ j < i ∧ ns[j]? = some p ∧ n.depth = p.depth + 1
  children : ∀ (i : Nat) (n : Node), ns[i]? = some n →
    ∀ j, j ∈ n.children ↔ ∃ c, ns[j]? = some c ∧ c.parent = some i
  ascending : ∀ (i : Nat) (n : Node), ns[i]? = some n → n.children.Pairwise (· < ·)
  range : ∀ i, i < ns.length →
    ∃ stop, i < stop ∧ stop ≤ ns.length ∧ ∀ j, Below ns i j ↔ i ≤ j ∧ j < stop

theorem Preorder.of_mem_children {ns : List Node} (h : Preorder ns) {i j : Nat} {n : Node}
    (hn : ns[i]? = some n) (hj : j ∈ n.children) :
    ∃ c, ns[j]? = some c ∧ c.parent = some i ∧ c.depth = n.depth + 1 := by
  obtain ⟨c, hc, hparent⟩ := (h.children i n hn j).1 hj
  rcases Nat.eq_zero_or_pos j with rfl | hpos
  · obtain ⟨first, hfirst, hnone, _⟩ := h.root
    rw [Option.some.inj (hfirst.symm.trans hc), hparent] at hnone
    cases hnone
  · obtain ⟨k, p, hk, _, hp, hdepth⟩ := h.parent j c hpos hc
    obtain rfl : k = i := Option.some.inj (hk.symm.trans hparent)
    rw [Option.some.inj (hp.symm.trans hn)] at hdepth
    exact ⟨c, hc, hparent, hdepth⟩

section Preorder

variable {marks : UInt64 → Option Mark} {t : Tree}

/-- The nodes of a whole tree. -/
theorem stands_nodes (marks : UInt64 → Option Mark) (t : Tree) :
    Stands marks (t.nodes marks 0 none 0) 0 0 none t :=
  fun k n hk => by rwa [Nat.zero_add]

/-- The subtree at the number of a node. -/
theorem exists_stands {i : Nat} {n : Node} (hn : (t.nodes marks 0 none 0)[i]? = some n) :
    ∃ t', Stands marks (t.nodes marks 0 none 0) i n.depth n.parent t' ∧
      i + t'.size ≤ t.size ∧ t'.Within t ∧
      (i = 0 ∧ n.depth = 0 ∧ n.parent = none ∨
        ∃ j p, j < i ∧ (t.nodes marks 0 none 0)[j]? = some p ∧ n.parent = some j ∧
          n.depth = p.depth + 1 ∧ i ∈ p.children) := by
  have hi : i < t.size := by
    rw [← length_nodes marks 0 none 0 t]
    exact (List.getElem?_eq_some_iff.1 hn).1
  obtain ⟨depth, parent, ⟨e, children⟩, hs, hsize, hwithin, hparent⟩ :=
    (stands_nodes marks t).exists_at (Nat.zero_le i) (by omega)
  obtain rfl : _ = n := Option.some.inj (hs.node.symm.trans hn)
  refine ⟨_, hs, by omega, hwithin, hparent.imp id ?_⟩
  rintro ⟨j, p, _, hj⟩
  exact ⟨j, p, hj⟩

/-- A node that names a parent is one of its children. -/
theorem mem_children_of_parent {i j : Nat} {n : Node}
    (hn : (t.nodes marks 0 none 0)[i]? = some n) (hj : n.parent = some j) :
    ∃ p, (t.nodes marks 0 none 0)[j]? = some p ∧ i ∈ p.children := by
  obtain ⟨_, _, _, _, ⟨_, _, h⟩ | ⟨j', p, _, hp, h, _, hi⟩⟩ := exists_stands hn
  · exact absurd (h.symm.trans hj) (by simp)
  · obtain rfl : j' = j := Option.some.inj (h.symm.trans hj)
    exact ⟨p, hp, hi⟩

/-- What is below the first node of a subtree is the subtree. -/
theorem below_iff {i depth : Nat} {parent : Option Nat} {t' : Tree}
    (hs : Stands marks (t.nodes marks 0 none 0) i depth parent t') (j : Nat) :
    Below (t.nodes marks 0 none 0) i j ↔ i ≤ j ∧ j < i + t'.size := by
  constructor
  · intro h
    induction h with
    | refl => exact ⟨Nat.le_refl _, Nat.lt_add_of_pos_right t'.size_pos⟩
    | step _ hn hparent ih =>
      obtain ⟨p, hp, hk⟩ := mem_children_of_parent hn hparent
      obtain ⟨_, _, u, hu, hsize, _⟩ := hs.exists_at ih.1 ih.2
      obtain ⟨c, _, hjk, hend⟩ := hu.child hp hk
      have := c.size_pos
      omega
  · rintro ⟨hle, hlt⟩
    -- Up from `j`, parent by parent, every number of the subtree comes to `i`.
    induction j using Nat.strongRecOn with
    | ind j ih =>
      obtain ⟨_, _, ⟨e, children⟩, hu, _, _, hparent⟩ := hs.exists_at hle hlt
      rcases hparent with ⟨rfl, _⟩ | ⟨k, p, hik, hkj, _, rfl, _⟩
      · exact Below.refl
      · exact Below.step (ih k hkj hik (by omega)) hu.node rfl

theorem preorder_nodes (marks : UInt64 → Option Mark) (t : Tree) :
    Preorder (t.nodes marks 0 none 0) where
  root := by
    obtain ⟨e, children⟩ := t
    exact ⟨_, (stands_nodes marks _).node, rfl, rfl⟩
  parent i n hi hn := by
    obtain ⟨_, _, _, _, ⟨h, _⟩ | ⟨j, p, hj, hp, hparent, hdepth, _⟩⟩ := exists_stands hn
    · omega
    · exact ⟨j, p, hparent, hj, hp, hdepth⟩
  children i n hn j := by
    constructor
    · intro hj
      obtain ⟨t', hs, _⟩ := exists_stands hn
      obtain ⟨⟨e, children⟩, hc, _⟩ := hs.child hn hj
      exact ⟨_, hc.node, rfl⟩
    · rintro ⟨c, hc, hparent⟩
      obtain ⟨p, hp, hj⟩ := mem_children_of_parent hc hparent
      rwa [Option.some.inj (hp.symm.trans hn)] at hj
  ascending i n hn := by
    obtain ⟨⟨e, children⟩, hs, _⟩ := exists_stands hn
    rw [← Option.some.inj (hs.node.symm.trans hn)]
    exact (positions_ascend _ _).2
  range i hi := by
    obtain ⟨t', hs, hsize, _⟩ := exists_stands (List.getElem?_eq_getElem hi)
    refine ⟨i + t'.size, Nat.lt_add_of_pos_right t'.size_pos, ?_, below_iff hs⟩
    rwa [length_nodes]

theorem first_eq_entry {n : Node} (hn : (t.nodes marks 0 none 0)[0]? = some n) :
    n.id = t.entry.id ∧ n.mach = t.entry.mach := by
  obtain ⟨e, children⟩ := t
  rw [← Option.some.inj ((stands_nodes marks _).node.symm.trans hn)]
  exact ⟨rfl, rfl⟩

/-- A node shows a session of the tree, and its children show the `kids` of that session. -/
theorem exists_entry {kids : Entry → List Entry} (hu : t.Unfolds kids) {i : Nat} {n : Node}
    (hn : (t.nodes marks 0 none 0)[i]? = some n) :
    ∃ e, n.id = e.id ∧ n.mach = e.mach ∧ n.mark = marks e.mach ∧
      n.children.map (fun j => ((t.nodes marks 0 none 0)[j]?).map fun c => (c.id, c.mach)) =
        (kids e).map fun k => some (k.id, k.mach) := by
  obtain ⟨⟨e, children⟩, hs, _, hwithin, _⟩ := exists_stands hn
  have hnode := Option.some.inj (hs.node.symm.trans hn)
  cases hwithin.unfolds hu with
  | node hkids _ =>
    refine ⟨e, by rw [← hnode], by rw [← hnode], by rw [← hnode], ?_⟩
    rw [← hnode, ← hkids, List.map_map]
    rw [← List.forall₂_eq_eq_eq, List.forall₂_map_left_iff, List.forall₂_map_right_iff]
    refine hs.forall₂_children.imp fun j c hc => ?_
    obtain ⟨k, _⟩ := c
    rw [hc.1.node]
    rfl

end Preorder

end TraceExplorer.Tree
