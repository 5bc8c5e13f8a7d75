import TraceExplorer.Number.Unsigned
import TraceExplorer.Proofs.Run.Nodes
import TraceExplorer.Proofs.Run.Order
import Mathlib.Algebra.Order.BigOperators.Group.List
import Mathlib.Algebra.Order.Group.Nat

/-
  The weights of a run. The weight of a node is the number of operations that the sessions of its
  subtree finished (`exists_subtree`): its own, and the weights of its children (`weight_eq`).
  One pass over the numbers, the last one first, finds them all. Each turn finishes the weight of
  one node and adds it to that of its parent (`settle?`), whose number is smaller. So when it is
  the turn of number `k`, the nodes behind have been finished, and the node itself has the weights
  of its children (`settled`, `settle?_settled`). No sum on the way is larger than the weight of
  the root, so if that fits in 64 bits they all do (`sweep_eq`).
-/

namespace TraceExplorer

/-- How many operations the sessions finished. -/
def operations (sessions : List Entry) : Nat :=
  (sessions.flatMap (·.session.records)).countP fun e => e.kind = .postOp

theorem operations_cons (e : Entry) (sessions : List Entry) :
    operations (e :: sessions) = e.session.postOpCount + operations sessions := by
  rw [operations, List.flatMap_cons, List.countP_append]
  rfl

theorem operations_append (a b : List Entry) :
    operations (a ++ b) = operations a + operations b := by
  rw [operations, List.flatMap_append, List.countP_append]
  rfl

namespace Tree

/-! ## Sessions of a tree -/

mutual

/-- The sessions of a tree in pre-order. -/
def sessions : Tree → List Entry
  | .node e children => e :: allSessions children

/-- The sessions of consecutive trees. -/
def allSessions : List Tree → List Entry
  | [] => []
  | t :: ts => sessions t ++ allSessions ts

end

mutual

theorem operations_sessions : (t : Tree) → operations t.sessions = t.weight
  | .node e children => by
    rw [sessions, weight, operations_cons, operations_allSessions children]

theorem operations_allSessions : (ts : List Tree) → operations (allSessions ts) = weights ts
  | [] => rfl
  | t :: ts => by
    rw [allSessions, weights, operations_append, operations_sessions t, operations_allSessions ts]

end

mutual

theorem map_id_nodes (marks : UInt64 → Option Mark) (depth : Nat) (parent : Option Nat)
    (start : Nat) :
    (t : Tree) → (t.nodes marks depth parent start).map (·.id) = t.sessions.map Entry.id
  | .node e children => by
    rw [nodes, sessions, List.map_cons, List.map_cons,
      map_id_forest marks (depth + 1) (some start) (start + 1) children]

theorem map_id_forest (marks : UInt64 → Option Mark) (depth : Nat) (parent : Option Nat)
    (start : Nat) :
    (ts : List Tree) → (forest marks depth parent start ts).map (·.id) =
      (allSessions ts).map Entry.id
  | [] => rfl
  | t :: ts => by
    rw [forest, allSessions, List.map_append, List.map_append,
      map_id_nodes marks depth parent start t, map_id_forest marks depth parent _ ts]

end

theorem mem_allSessions {e : Entry} {ts : List Tree} :
    e ∈ allSessions ts ↔ ∃ t ∈ ts, e ∈ t.sessions := by
  induction ts with
  | nil => simp [allSessions]
  | cons t ts ih => simp [allSessions, ih]

theorem Within.sessions_subset {t' t : Tree} (h : Within t' t) : t'.sessions ⊆ t.sessions := by
  induction h with
  | refl => exact List.Subset.refl _
  | child hc _ ih =>
    intro e he
    rw [sessions]
    exact List.mem_cons_of_mem _ (mem_allSessions.2 ⟨_, hc, ih he⟩)

/-- What is passed on from sessions to their children holds of all sessions of a tree. -/
theorem Unfolds.of_mem_sessions {kids : Entry → List Entry} {P : Entry → Prop}
    (hkids : ∀ e k, k ∈ kids e → P k) {t : Tree} (hu : t.Unfolds kids) (h : P t.entry) :
    ∀ e ∈ t.sessions, P e := by
  induction t using inductionOn with
  | node e children ih =>
    cases hu with
    | node heq hbelow =>
      intro f hf
      rw [sessions] at hf
      rcases List.mem_cons.1 hf with rfl | hf
      · exact h
      · obtain ⟨c, hc, hf⟩ := mem_allSessions.1 hf
        have hkid : c.entry ∈ kids e := heq ▸ List.mem_map_of_mem hc
        exact ih c hc (hbelow c hc) (hkids e _ hkid) f hf

/-! ## Weights of nodes -/

theorem weights_eq_sum (ts : List Tree) : weights ts = (ts.map weight).sum := by
  induction ts with
  | nil => rfl
  | cons t ts ih => rw [weights, ih, List.map_cons, List.sum_cons]

/-- The weight of the node numbered `i`. -/
def weightAt (ns : List Node) (i : Nat) : Nat := (ns[i]?.map Node.weight).getD 0

section Stands

variable {marks : UInt64 → Option Mark} {ns : List Node} {i depth : Nat} {parent : Option Nat}
  {t : Tree}

theorem length_sessions (t : Tree) : t.sessions.length = t.size := by
  have h := congrArg List.length (map_id_nodes (fun _ => none) 0 none 0 t)
  rwa [List.length_map, List.length_map, length_nodes, eq_comm] at h

/-- The nodes of a tree show its sessions. -/
theorem Stands.map_id (h : Stands marks ns i depth parent t) {k : Nat} (hk : k < t.size) :
    ns[i + k]?.map (·.id) = t.sessions[k]?.map Entry.id := by
  have hlen : k < (t.nodes marks depth parent i).length := by rwa [length_nodes]
  rw [h k _ (List.getElem?_eq_getElem hlen), ← List.getElem?_eq_getElem hlen, ← List.getElem?_map,
    ← List.getElem?_map, map_id_nodes]

theorem Stands.weightAt_eq (h : Stands marks ns i depth parent t) : weightAt ns i = t.weight := by
  obtain ⟨e, children⟩ := t
  rw [weightAt, h.node, weight]
  rfl

theorem Stands.map_weightAt {e : Entry} {children : List Tree}
    (h : Stands marks ns i depth parent (.node e children)) :
    (positions (i + 1) children).map (weightAt ns) = children.map weight := by
  rw [← List.forall₂_eq_eq_eq, List.forall₂_map_left_iff, List.forall₂_map_right_iff]
  exact h.forall₂_children.imp fun j c hc => hc.1.weightAt_eq

end Stands

/-! ## The backward pass -/

/-- A sum that has to fit in 64 bits. -/
def add64? (a b : Nat) : Option Nat := (Number.word64? (a + b)).map UInt64.toNat

theorem add64?_of_lt {a b : Nat} (h : a + b < UInt64.size) : add64? a b = some (a + b) := by
  rw [add64?, Number.word64?, if_pos h, Option.map_some, UInt64.toNat_ofNat_of_lt' h]

/-- Adds a weight to that of the parent, if there is one. -/
def pass? (ns : List Node) (parent : Option Nat) (weight : Nat) : Option (List Node) :=
  match parent with
  | none => some ns
  | some p => do
    let up ← ns[p]?
    let sum ← add64? up.weight weight
    some (ns.set p { up with weight := sum })

/-- Finishes the weight of node `i`, which has those of its children, and passes it on. -/
def settle? (own : String → Nat) (ns : List Node) (i : Nat) : Option (List Node) := do
  let n ← ns[i]?
  let weight ← add64? (own n.id) n.weight
  pass? (ns.set i { n with weight }) n.parent weight

/-- Node `j` when the numbers from `k` on had their turns. -/
def settledAt (ns : List Node) (k j : Nat) (n : Node) : Node :=
  { n with
    weight := if k ≤ j then n.weight else ((n.children.filter (k ≤ ·)).map (weightAt ns)).sum
    mark := none }

/-- The nodes when the numbers from `k` on had their turns. -/
def settled (ns : List Node) (k : Nat) : List Node := ns.mapIdx (settledAt ns k)

/-- Every weight is made of the node's own count and the weights of its children. -/
def Weighed (own : String → Nat) (ns : List Node) : Prop :=
  ∀ (i : Nat) (n : Node), ns[i]? = some n → n.weight = own n.id + (n.children.map (weightAt ns)).sum

section Sweep

variable {own : String → Nat} {ns : List Node}

theorem getElem?_settled (k j : Nat) :
    (settled ns k)[j]? = ns[j]?.map (settledAt ns k j) := List.getElem?_mapIdx

theorem sum_filter_le (l : List Nat) (k : Nat) (f : Nat → Nat) :
    ((l.filter (k ≤ ·)).map f).sum ≤ (l.map f).sum :=
  (List.filter_sublist.map f).sum_le_sum fun _ _ => Nat.zero_le _

/-- One more number is summed up if it is there. -/
theorem sum_filter_succ {l : List Nat} (hl : l.Nodup) (k : Nat) (f : Nat → Nat) :
    ((l.filter (k ≤ ·)).map f).sum =
      ((l.filter (k + 1 ≤ ·)).map f).sum + if k ∈ l then f k else 0 := by
  induction l with
  | nil => rfl
  | cons a l ih =>
    obtain ⟨ha, hl⟩ := List.nodup_cons.1 hl
    have ih := ih hl
    rw [List.filter_cons, List.filter_cons]
    by_cases hak : a = k
    · rw [hak] at ha ⊢
      rw [if_neg ha, Nat.add_zero] at ih
      rw [if_pos (decide_eq_true (Nat.le_refl k)),
        if_neg fun h => Nat.not_succ_le_self k (of_decide_eq_true h), if_pos List.mem_cons_self,
        List.map_cons, List.sum_cons, ih, Nat.add_comm]
    · have hmem : k ∈ a :: l ↔ k ∈ l := List.mem_cons.trans (or_iff_right (Ne.symm hak))
      rw [if_congr hmem rfl rfl]
      by_cases hka : k + 1 ≤ a
      · rw [if_pos (decide_eq_true (Nat.le_of_succ_le hka)), if_pos (decide_eq_true hka),
          List.map_cons, List.map_cons, List.sum_cons, List.sum_cons, ih, Nat.add_assoc]
      · have hle : ¬ k ≤ a := by omega
        rw [if_neg fun h => hle (of_decide_eq_true h), if_neg fun h => hka (of_decide_eq_true h),
          ih]

/-! ### Turns -/

variable (hpre : Preorder ns) (hweigh : Weighed own ns)
include hpre

theorem lt_of_mem_children {i j : Nat} {n : Node} (hn : ns[i]? = some n) (hj : j ∈ n.children) :
    i < j ∧ j < ns.length := by
  obtain ⟨c, hc, hparent, hdepth⟩ := hpre.of_mem_children hn hj
  refine ⟨?_, (List.getElem?_eq_some_iff.1 hc).1⟩
  rcases Nat.eq_zero_or_pos j with rfl | hj
  · obtain ⟨first, hfirst, _, hzero⟩ := hpre.root
    rw [Option.some.inj (hfirst.symm.trans hc)] at hzero
    omega
  · obtain ⟨k, _, hk, hkj, _⟩ := hpre.parent j c hj hc
    rwa [Option.some.inj (hk.symm.trans hparent)] at hkj

theorem settled_length : settled ns ns.length = ns.map Node.bare := by
  refine List.ext_getElem? fun j => ?_
  rw [getElem?_settled, List.getElem?_map]
  cases hj : ns[j]? with
  | none => rfl
  | some n =>
    have hlt := (List.getElem?_eq_some_iff.1 hj).1
    have hnone : n.children.filter (ns.length ≤ ·) = [] := List.filter_eq_nil_iff.2 fun c hc => by
      have := (lt_of_mem_children hpre hj hc).2
      simpa using this
    rw [Option.map_some, Option.map_some, settledAt, hnone, if_neg (by omega)]
    rfl

omit hpre in
theorem settled_zero (ns : List Node) : settled ns 0 = ns.map Node.unmarked := by
  refine List.ext_getElem? fun j => ?_
  rw [getElem?_settled, List.getElem?_map]
  cases ns[j]? with
  | none => rfl
  | some n =>
    rw [Option.map_some, Option.map_some, settledAt, if_pos (Nat.zero_le j)]
    rfl

/-- A turn changes no node that is finished, and no node without the number among its children. -/
theorem settled_succ {k j : Nat} {n : Node} (hn : ns[j]? = some n) (hjk : j ≠ k)
    (hk : k ∉ n.children) : settledAt ns (k + 1) j n = settledAt ns k j n := by
  have hle : k + 1 ≤ j ↔ k ≤ j := by omega
  have hsum := sum_filter_succ (hpre.ascending j n hn).nodup k (weightAt ns)
  rw [if_neg hk, Nat.add_zero] at hsum
  rw [settledAt, settledAt, if_congr hle rfl hsum.symm]

/-- A turn adds the weight of the number to that of its parent. -/
theorem settled_succ_of_mem {k p : Nat} {up : Node} (hup : ns[p]? = some up)
    (hk : k ∈ up.children) :
    (settledAt ns (k + 1) p up).weight + weightAt ns k = (settledAt ns k p up).weight := by
  have hpk := (lt_of_mem_children hpre hup hk).1
  have hsum := sum_filter_succ (hpre.ascending p up hup).nodup k (weightAt ns)
  rw [if_pos hk] at hsum
  rw [settledAt, settledAt, if_neg (by omega), if_neg (by omega), hsum]

/-- The children of a node have had their turns when its own comes. -/
theorem settled_weight_succ {k : Nat} {n : Node} (hn : ns[k]? = some n) :
    (settledAt ns (k + 1) k n).weight = (n.children.map (weightAt ns)).sum := by
  have hall : n.children.filter (k + 1 ≤ ·) = n.children := List.filter_eq_self.2 fun c hc =>
    decide_eq_true (lt_of_mem_children hpre hn hc).1
  rw [settledAt, if_neg (by omega), hall]

omit hpre in
theorem eq_settled {l : List Node} {k : Nat} (hlen : l.length = ns.length)
    (h : ∀ (j : Nat) (m : Node), ns[j]? = some m → l[j]? = some (settledAt ns k j m)) :
    l = settled ns k := by
  refine List.ext_getElem? fun j => ?_
  rw [getElem?_settled]
  cases hj : ns[j]? with
  | none => rwa [Option.map_none, List.getElem?_eq_none_iff, hlen, ← List.getElem?_eq_none_iff]
  | some m => exact h j m hj

include hweigh

theorem pass?_settled (hbound : ∀ (i : Nat) (n : Node), ns[i]? = some n → n.weight < UInt64.size)
    {k : Nat} {n : Node} (hn : ns[k]? = some n) :
    pass? ((settled ns (k + 1)).set k (settledAt ns k k n)) n.parent n.weight =
      some (settled ns k) := by
  have hk := (List.getElem?_eq_some_iff.1 hn).1
  have hlen : (settled ns (k + 1)).length = ns.length := List.length_mapIdx
  -- What a number behind `k`, or one that is not the parent, has at the end.
  have hrest : ∀ (j : Nat) (m : Node), ns[j]? = some m → n.parent ≠ some j →
      ((settled ns (k + 1)).set k (settledAt ns k k n))[j]? = some (settledAt ns k j m) := by
    intro j m hj hparent
    by_cases hjk : j = k
    · rw [hjk] at hj ⊢
      rw [List.getElem?_set_self (by omega), Option.some.inj (hj.symm.trans hn)]
    · have hnot : k ∉ m.children := fun hmem => by
        obtain ⟨c, hc, hup, _⟩ := hpre.of_mem_children hj hmem
        exact hparent (Option.some.inj (hc.symm.trans hn) ▸ hup)
      rw [List.getElem?_set_ne (Ne.symm hjk), getElem?_settled, hj, Option.map_some,
        settled_succ hpre hj hjk hnot]
  cases hparent : n.parent with
  | none =>
    refine congrArg some (eq_settled (by rw [List.length_set, hlen]) fun j m hj => ?_)
    exact hrest j m hj (by rw [hparent]; exact Option.some_ne_none j |>.symm)
  | some p =>
    have hpos : 0 < k := Nat.pos_of_ne_zero fun hzero => by
      obtain ⟨first, hfirst, hnone, _⟩ := hpre.root
      rw [hzero] at hn
      rw [Option.some.inj (hfirst.symm.trans hn), hparent] at hnone
      cases hnone
    obtain ⟨p', up, hp', hpk, hup, _⟩ := hpre.parent k n hpos hn
    obtain rfl : p' = p := Option.some.inj (hp'.symm.trans hparent)
    have hmem : k ∈ up.children := (hpre.children p' up hup k).2 ⟨n, hn, hparent⟩
    have hget : ((settled ns (k + 1)).set k (settledAt ns k k n))[p']? =
        some (settledAt ns (k + 1) p' up) := by
      rw [List.getElem?_set_ne (by omega), getElem?_settled, hup, Option.map_some]
    have hsum := settled_succ_of_mem hpre hup hmem
    rw [show weightAt ns k = n.weight by rw [weightAt, hn]; rfl] at hsum
    have hle : (settledAt ns k p' up).weight ≤ up.weight := by
      rw [settledAt, if_neg (by omega), hweigh p' up hup]
      exact (sum_filter_le _ _ _).trans (Nat.le_add_left _ _)
    have hadded : add64? (settledAt ns (k + 1) p' up).weight n.weight =
        some (settledAt ns k p' up).weight := by
      rw [add64?_of_lt (hsum ▸ hle.trans_lt (hbound p' up hup)), hsum]
    rw [pass?, hget]
    show ((add64? _ n.weight).bind fun sum => some (List.set _ p' _)) = _
    rw [hadded, Option.bind_some]
    refine congrArg some (eq_settled (by rw [List.length_set, List.length_set, hlen]) ?_)
    intro j m hj
    by_cases hjp : j = p'
    · rw [hjp] at hj ⊢
      rw [List.getElem?_set_self (by rw [List.length_set]; omega),
        Option.some.inj (hj.symm.trans hup)]
      rfl
    · rw [List.getElem?_set_ne (Ne.symm hjp)]
      exact hrest j m hj fun h => hjp (Option.some.inj (h.symm.trans hparent))

theorem settle?_settled (hbound : ∀ (i : Nat) (n : Node), ns[i]? = some n → n.weight < UInt64.size)
    {k : Nat} (hk : k < ns.length) :
    settle? own (settled ns (k + 1)) k = some (settled ns k) := by
  obtain ⟨n, hn⟩ : ∃ n, ns[k]? = some n := ⟨_, List.getElem?_eq_getElem hk⟩
  have hfirst : (settled ns (k + 1))[k]? = some (settledAt ns (k + 1) k n) := by
    rw [getElem?_settled, hn, Option.map_some]
  have hsum : own n.id + (settledAt ns (k + 1) k n).weight = n.weight := by
    rw [settled_weight_succ hpre hn, ← hweigh k n hn]
  have hfinished : add64? (own n.id) (settledAt ns (k + 1) k n).weight = some n.weight := by
    rw [add64?_of_lt (hsum ▸ hbound k n hn), hsum]
  have hnode : { settledAt ns (k + 1) k n with weight := n.weight } = settledAt ns k k n := by
    rw [settledAt, settledAt, if_pos (Nat.le_refl k)]
  rw [settle?, hfirst]
  show ((add64? (own n.id) _).bind fun weight => pass? _ n.parent weight) = _
  rw [hfinished, Option.bind_some, hnode]
  exact pass?_settled hpre hweigh hbound hn

/-- The turns of the numbers below `k`, the last of them first. -/
theorem sweep_settled (hbound : ∀ (i : Nat) (n : Node), ns[i]? = some n → n.weight < UInt64.size)
    {k : Nat} (hk : k ≤ ns.length) :
    (List.range k).reverse.foldlM (settle? own) (settled ns k) = some (settled ns 0) := by
  induction k with
  | zero => rfl
  | succ k ih =>
    rw [List.range_succ, List.reverse_concat, List.foldlM_cons,
      settle?_settled hpre hweigh hbound (by omega)]
    exact ih (by omega)

theorem sweep_eq (hbound : ∀ (i : Nat) (n : Node), ns[i]? = some n → n.weight < UInt64.size) :
    (List.range ns.length).reverse.foldlM (settle? own) (ns.map Node.bare) =
      some (ns.map Node.unmarked) := by
  rw [← settled_length hpre, sweep_settled hpre hweigh hbound (Nat.le_refl _), settled_zero]

/-! ### Weights of parents -/

theorem weight_le_parent {i j : Nat} {n p : Node} (hn : ns[i]? = some n) (hp : ns[j]? = some p)
    (hparent : n.parent = some j) : n.weight ≤ p.weight := by
  have hmem : i ∈ p.children := (hpre.children j p hp i).2 ⟨n, hn, hparent⟩
  have hat : weightAt ns i = n.weight := by rw [weightAt, hn]; rfl
  have hle : weightAt ns i ≤ (p.children.map (weightAt ns)).sum :=
    List.single_le_sum (fun _ _ => Nat.zero_le _) _ (List.mem_map_of_mem hmem)
  rw [hweigh j p hp, ← hat]
  exact hle.trans (Nat.le_add_left _ _)

theorem weight_le_root {i : Nat} {n root : Node} (hn : ns[i]? = some n)
    (hroot : ns[0]? = some root) : n.weight ≤ root.weight := by
  induction i using Nat.strongRecOn generalizing n with
  | ind i ih =>
    rcases Nat.eq_zero_or_pos i with rfl | hi
    · exact Nat.le_of_eq (congrArg Node.weight (Option.some.inj (hn.symm.trans hroot)))
    · obtain ⟨j, p, hparent, hj, hp, _⟩ := hpre.parent i n hi hn
      exact (weight_le_parent hpre hweigh hn hp hparent).trans (ih j hj hp)

end Sweep

end Tree

namespace Run

variable {x : Index} {root : Entry}

/-! ## Sessions of a subtree -/

/-- How many operations the session with the text finished. -/
def ownCount (x : Index) (id : String) : Nat := ((x.get? id).map (·.session.postOpCount)).getD 0

section

variable (hmem : root ∈ x.entries) (hroot : root.parentId = none)
include hmem hroot

theorem mem_entries_of_mem_sessions {e : Entry} (he : e ∈ (x.tree root).sessions) :
    e ∈ x.entries := by
  refine (x.unfolds_tree hmem hroot).of_mem_sessions (P := (· ∈ x.entries)) ?_ ?_ e he
  · exact fun _ _ hk => (Index.mem_members.1 (Index.mem_memberKids.1 hk).1).1
  · rw [show (x.tree root).entry = root from Tree.entry_grow _ _ _]
    exact hmem

/-- The sessions whose nodes are below a node are those of its subtree, each once. -/
theorem exists_subtree {i : Nat} {n : Node} (hn : (ofRoot x root).node? i = some n) :
    ∃ sessions : List Entry, sessions.Nodup ∧
      (∀ e, e ∈ sessions ↔ ∃ j m, Tree.Below (ofRoot x root).nodes i j ∧
        (ofRoot x root).node? j = some m ∧ x.get? m.id = some e) ∧
      n.weight = operations sessions := by
  obtain ⟨t, hs, _, hwithin, _⟩ := Tree.exists_stands hn
  have hentries : ∀ e ∈ t.sessions, e ∈ x.entries := fun e he =>
    mem_entries_of_mem_sessions hmem hroot (hwithin.sessions_subset he)
  have hbelow := Tree.below_iff hs
  have hweight : n.weight = t.weight := by
    rw [← hs.weightAt_eq, Tree.weightAt]
    exact (congrArg (fun o => (o.map Node.weight).getD 0) hn).symm
  -- The session numbered `k` in the subtree has its node `k` numbers behind the first.
  have hnode : ∀ k e, t.sessions[k]? = some e →
      ∃ m, (ofRoot x root).node? (i + k) = some m ∧ m.id = e.id ∧ k < t.size := by
    intro k e he
    have hk : k < t.size := t.length_sessions ▸ (List.getElem?_eq_some_iff.1 he).1
    have hid := hs.map_id hk
    rw [he] at hid
    obtain ⟨m, hm, hid⟩ := Option.map_eq_some_iff.1 hid
    exact ⟨m, hm, hid, hk⟩
  refine ⟨t.sessions, ?_, fun e => ⟨fun he => ?_, ?_⟩, ?_⟩
  · refine List.pairwise_iff_getElem.2 fun k l hk hl hkl heq => ?_
    obtain ⟨m, hm, hmid, _⟩ := hnode k _ (List.getElem?_eq_getElem hk)
    obtain ⟨m', hm', hmid', _⟩ := hnode l _ (List.getElem?_eq_getElem hl)
    have := node?_inj hmem hroot hm hm' (hmid.trans ((congrArg Entry.id heq).trans hmid'.symm))
    omega
  · obtain ⟨k, hk⟩ := List.mem_iff_getElem?.1 he
    obtain ⟨m, hm, hid, hlt⟩ := hnode k e hk
    refine ⟨i + k, m, (hbelow _).2 ⟨by omega, by omega⟩, hm, ?_⟩
    rw [hid]
    exact Index.get?_id (hentries e he)
  · rintro ⟨j, m, hij, hm, hget⟩
    obtain ⟨hle, hlt⟩ := (hbelow j).1 hij
    obtain ⟨k, rfl⟩ := Nat.exists_eq_add_of_le hle
    have hk : k < t.sessions.length := by
      rw [t.length_sessions]
      omega
    obtain ⟨m', hm', hid, _⟩ := hnode k _ (List.getElem?_eq_getElem hk)
    obtain rfl : m' = m := Option.some.inj (hm'.symm.trans hm)
    have hget' := Index.get?_id (hentries _ (List.getElem_mem hk))
    rw [hid] at hget
    rw [Option.some.inj (hget.symm.trans hget')]
    exact List.getElem_mem hk
  · rw [hweight, Tree.operations_sessions]

/-- The weight of a node is its own count and the weights of its children. -/
theorem weight_eq {i : Nat} {n : Node} (hn : (ofRoot x root).node? i = some n) :
    n.weight = ownCount x n.id + (n.children.map (Tree.weightAt (ofRoot x root).nodes)).sum := by
  obtain ⟨⟨e, children⟩, hs, _, hwithin, _⟩ := Tree.exists_stands hn
  have he : e ∈ x.entries := mem_entries_of_mem_sessions hmem hroot
    (hwithin.sessions_subset (by rw [Tree.sessions]; exact List.mem_cons_self))
  have hchildren : (Tree.positions (i + 1) children).map
      (Tree.weightAt (ofRoot x root).nodes) = children.map Tree.weight := hs.map_weightAt
  rw [← Option.some.inj (hs.node.symm.trans hn)]
  simp only
  rw [hchildren, ← Tree.weights_eq_sum, ownCount, Index.get?_id he]
  rfl

/-- Every session with a node is below the root. -/
theorem root_weight_eq {n : Node} (hn : (ofRoot x root).node? 0 = some n) :
    n.weight = operations ((ofRoot x root).members.filter fun e =>
      e.id ∈ (ofRoot x root).nodes.map (·.id)) := by
  obtain ⟨sessions, hnodup, hsessions, hweight⟩ := exists_subtree hmem hroot hn
  have hperm : sessions.Perm ((ofRoot x root).members.filter fun e =>
      e.id ∈ (ofRoot x root).nodes.map (·.id)) := by
    refine (List.perm_ext_iff_of_nodup hnodup ((x.nodup_entries.filter _).filter _)).2 fun e => ?_
    rw [hsessions, List.mem_filter, decide_eq_true_eq]
    constructor
    · rintro ⟨j, m, _, hm, hget⟩
      obtain ⟨he, hid⟩ := Index.get?_eq_some_iff.1 hget
      have hids : e.id ∈ (ofRoot x root).nodes.map (·.id) :=
        List.mem_map.2 ⟨m, List.mem_of_getElem? hm, hid.symm⟩
      obtain ⟨f, hfe, hleads⟩ := (mem_ids hmem hroot).1 hids
      have hf := (exists_node hmem hroot hleads).1
      obtain rfl := Index.eq_of_id_eq (Index.mem_members.1 hf).1 he hfe
      exact ⟨hf, hids⟩
    · rintro ⟨he, hids⟩
      obtain ⟨m, hmem', hid⟩ := List.mem_map.1 hids
      obtain ⟨j, hm⟩ := List.mem_iff_getElem?.1 hmem'
      have hj := (List.getElem?_eq_some_iff.1 hm).1
      refine ⟨j, m, ?_, hm, ?_⟩
      · refine (Tree.below_iff (Tree.stands_nodes _ _) j).2 ⟨Nat.zero_le j, ?_⟩
        rw [Nat.zero_add]
        exact (Tree.length_nodes _ _ _ _ _) ▸ hj
      · rw [hid]
        exact Index.get?_id (Index.mem_members.1 he).1
  rw [hweight, operations, operations, (hperm.flatMap_right _).countP_eq]

end

/-- The weights of the nodes are the numbers of operations that the sessions below finished. -/
structure WeighsOperations (x : Index) (r : Run) : Prop where
  subtree : ∀ (i : Nat) (n : Node), r.node? i = some n → ∃ sessions : List Entry,
    sessions.Nodup ∧ (∀ e, e ∈ sessions ↔ ∃ j m, Tree.Below r.nodes i j ∧ r.node? j = some m ∧
      x.get? m.id = some e) ∧ n.weight = operations sessions
  own : ∀ (i : Nat) (n : Node), r.node? i = some n → ∃ e, x.get? n.id = some e ∧
    n.weight = e.session.postOpCount + (n.children.map (Tree.weightAt r.nodes)).sum
  root : ∀ n, r.node? 0 = some n →
    n.weight = operations (r.members.filter fun e => e.id ∈ r.nodes.map (·.id))
  parent : ∀ (i j : Nat) (n p : Node), r.node? i = some n → n.parent = some j →
    r.node? j = some p → n.weight ≤ p.weight
  /-- One pass from the last number to the first finds the weights, if they fit in 64 bits. -/
  sweep : operations (r.members.filter fun e => e.id ∈ r.nodes.map (·.id)) < UInt64.size →
    (List.range r.nodes.length).reverse.foldlM (Tree.settle? (ownCount x))
      (r.nodes.map Node.bare) = some (r.nodes.map Node.unmarked)

theorem exists_weighsOperations (x : Index) (mach : UInt64) (root : Entry)
    (h : x.root? mach = some root) :
    ∃ r, select? x mach = some r ∧ r.root = root ∧ r.WeighsOperations x := by
  obtain ⟨hmem, hroot, rfl⟩ := Index.root?_eq_some_iff.1 h
  have hweigh : Tree.Weighed (ownCount x) (ofRoot x root).nodes := fun _ _ hn =>
    weight_eq hmem hroot hn
  refine ⟨ofRoot x root, by rw [select?, h]; rfl, rfl, ?_⟩
  refine
    { subtree := fun i n hn => exists_subtree hmem hroot hn
      own := fun i n hn => ?_
      root := fun n hn => root_weight_eq hmem hroot hn
      parent := fun i j n p hn hparent hp =>
        Tree.weight_le_parent (preorder x root) hweigh hn hp hparent
      sweep := fun hfits => ?_ }
  · obtain ⟨e, he, hshows, _⟩ := exists_session hmem hroot hn
    have hget : x.get? n.id = some e := hshows.id ▸ Index.get?_id he
    have hweight := hweigh i n hn
    rw [ownCount, hget] at hweight
    exact ⟨e, hget, hweight⟩
  · obtain ⟨first, hfirst, _⟩ := (preorder x root).root
    refine Tree.sweep_eq (preorder x root) hweigh fun i n hn => ?_
    have hle := Tree.weight_le_root (preorder x root) hweigh hn hfirst
    rw [root_weight_eq hmem hroot hfirst] at hle
    exact hle.trans_lt hfits

/-- A root that finishes two operations, with a child and a grandchild that finish one and three;
    a session of the run whose parent is not there finishes one as well. -/
def weighedSessions : List Session :=
  [("1(0:1)", none, 2), ("1(3:2)", some "1(1:3)", 3), ("1(1:3)", some "1(0:1)", 1),
    ("1(1:4)", some "1(9:9)", 1)].map fun e =>
      { Session.ofId e.1 with
        parentId := e.2.1, records := .ofKind .start :: List.replicate e.2.2 (.ofKind .postOp) }

theorem exists_weighsOperations_weighedSessions :
    ∃ root, (Index.ofTrace ⟨weighedSessions, []⟩).root? 1 = some root ∧
      ∃ r, select? (Index.ofTrace ⟨weighedSessions, []⟩) 1 = some r ∧ r.root = root ∧
        r.nodes.map Node.weight = [6, 4, 3] ∧
        r.WeighsOperations (Index.ofTrace ⟨weighedSessions, []⟩) := by
  have h : ((Index.ofTrace ⟨weighedSessions, []⟩).root? 1).isSome = true := by decide +kernel
  have hweights : (select? (Index.ofTrace ⟨weighedSessions, []⟩) 1).map (fun r =>
      r.nodes.map Node.weight) = some [6, 4, 3] := by decide +kernel
  obtain ⟨root, h⟩ := Option.isSome_iff_exists.1 h
  obtain ⟨r, hr, hroot, hweighs⟩ := exists_weighsOperations _ 1 root h
  rw [hr] at hweights
  exact ⟨root, h, r, hr, hroot, Option.some.inj hweights, hweighs⟩

end Run

end TraceExplorer
