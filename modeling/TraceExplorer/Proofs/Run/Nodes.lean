import TraceExplorer.Proofs.Run.Worklist

/-
  The nodes of a run. They are the members that lead to the root through members, each of them
  once and below its parent; the other members are the orphans.
-/

namespace TraceExplorer

/-- `e` is the root, or a member of its run whose parent leads to the root. -/
inductive Index.LeadsTo (x : Index) (root : Entry) : Entry → Prop where
  | root : x.LeadsTo root root
  | up {e p : Entry} (he : e ∈ x.members root.mach) (hp : x.parent? e = some p)
      (h : x.LeadsTo root p) : x.LeadsTo root e

/-- The node stands for the session. -/
structure Node.Shows (n : Node) (e : Entry) : Prop where
  id : n.id = e.id
  mach : n.mach = e.mach

namespace Run

variable {x : Index} {root : Entry}

theorem preorder (x : Index) (root : Entry) : Tree.Preorder (ofRoot x root).nodes :=
  Tree.preorder_nodes _ _

theorem first_shows {n : Node} (hn : (ofRoot x root).node? 0 = some n) : n.Shows root := by
  have h := Tree.first_eq_entry hn
  rw [show (x.tree root).entry = root from Tree.entry_grow _ _ _] at h
  exact ⟨h.1, h.2⟩

section

variable (hmem : root ∈ x.entries) (hroot : root.parentId = none)
include hmem hroot

/-! ## Nodes and sessions -/

/-- The children of a node show the children of its session. -/
theorem map_children {i : Nat} {n : Node} {e : Entry} (hn : (ofRoot x root).node? i = some n)
    (he : n.Shows e) :
    n.children.map (fun j => ((ofRoot x root).node? j).map fun c => (c.id, c.mach)) =
      (x.memberKids root.mach e).map fun k => some (k.id, k.mach) := by
  obtain ⟨e', hid, _, _, hkids⟩ := Tree.exists_entry (x.unfolds_tree hmem hroot) hn
  have hsame : x.memberKids root.mach e = x.memberKids root.mach e' := by
    unfold Index.memberKids
    rw [← he.id, hid]
  rw [hsame]
  exact hkids

theorem exists_kid {i j : Nat} {n c : Node} {e : Entry} (hn : (ofRoot x root).node? i = some n)
    (he : n.Shows e) (hj : j ∈ n.children) (hc : (ofRoot x root).node? j = some c) :
    ∃ k ∈ x.memberKids root.mach e, c.Shows k := by
  have h : some (c.id, c.mach) ∈ (x.memberKids root.mach e).map fun k => some (k.id, k.mach) := by
    rw [← map_children hmem hroot hn he]
    exact List.mem_map.2 ⟨j, hj, by rw [hc]; rfl⟩
  obtain ⟨k, hk, heq⟩ := List.mem_map.1 h
  have heq := Prod.mk.inj (Option.some.inj heq)
  exact ⟨k, hk, heq.1.symm, heq.2.symm⟩

theorem exists_child {i : Nat} {n : Node} {e k : Entry} (hn : (ofRoot x root).node? i = some n)
    (he : n.Shows e) (hk : k ∈ x.memberKids root.mach e) :
    ∃ j ∈ n.children, ∃ c, (ofRoot x root).node? j = some c ∧ c.Shows k := by
  have h : some (k.id, k.mach) ∈
      n.children.map fun j => ((ofRoot x root).node? j).map fun c => (c.id, c.mach) := by
    rw [map_children hmem hroot hn he]
    exact List.mem_map.2 ⟨k, hk, rfl⟩
  obtain ⟨j, hj, heq⟩ := List.mem_map.1 h
  obtain ⟨c, hc, heq⟩ := Option.map_eq_some_iff.1 heq
  have heq := Prod.mk.inj heq
  exact ⟨j, hj, c, hc, heq.1, heq.2⟩

/-- The children of a node ascend by machine. -/
theorem children_ascend {i : Nat} {n : Node} {e : Entry} (hn : (ofRoot x root).node? i = some n)
    (he : n.Shows e) :
    n.children.Pairwise fun a b => ∀ c d, (ofRoot x root).node? a = some c →
      (ofRoot x root).node? b = some d → c.mach < d.mach := by
  have h : ((x.memberKids root.mach e).map fun k => some (k.id, k.mach)).Pairwise
      fun a b => ∀ c ∈ a, ∀ d ∈ b, c.2 < d.2 := by
    refine List.pairwise_map.2 ((x.memberKids_ascend root.mach e).imp fun hlt c hc d hd => ?_)
    rw [← Option.some.inj hc, ← Option.some.inj hd]
    exact hlt
  rw [← map_children hmem hroot hn he, List.pairwise_map] at h
  refine h.imp fun hlt c d hc hd => ?_
  rw [hc, hd] at hlt
  exact hlt _ rfl _ rfl

/-- A child of a node is told by its machine. -/
theorem child_inj {i a b : Nat} {n c d : Node} {e : Entry} (hn : (ofRoot x root).node? i = some n)
    (he : n.Shows e) (ha : a ∈ n.children) (hb : b ∈ n.children)
    (hc : (ofRoot x root).node? a = some c) (hd : (ofRoot x root).node? b = some d)
    (hmach : c.mach = d.mach) : a = b := by
  have hnodup : (n.children.map fun j =>
      ((ofRoot x root).node? j).map fun c => (c.id, c.mach)).Nodup := by
    rw [map_children hmem hroot hn he]
    refine List.pairwise_map.2 ((x.memberKids_ascend root.mach e).imp fun hlt heq => ?_)
    exact UInt64.ne_of_lt hlt (Prod.mk.inj (Option.some.inj heq)).2
  obtain ⟨k, hk, hck⟩ := exists_kid hmem hroot hn he ha hc
  obtain ⟨k', hk', hdk⟩ := exists_kid hmem hroot hn he hb hd
  obtain rfl : k = k' := by
    have hentry := (Index.mem_members.1 (Index.mem_memberKids.1 hk).1).1
    have hentry' := (Index.mem_members.1 (Index.mem_memberKids.1 hk').1).1
    exact Index.eq_of_mach_eq hentry hentry' (hck.mach.symm.trans (hmach.trans hdk.mach))
  refine List.inj_on_of_nodup_map hnodup ha hb ?_
  rw [hc, hd, Option.map_some, Option.map_some, hck.id, hdk.id, hmach]

/-- A node shows a session that leads to the root in as many steps as the node is deep. -/
theorem exists_session {i : Nat} {n : Node} (hn : (ofRoot x root).node? i = some n) :
    ∃ e ∈ x.entries, n.Shows e ∧ x.LeadsTo root e ∧ x.ancestor? n.depth e = some root := by
  induction i using Nat.strongRecOn generalizing n with
  | ind i ih =>
    rcases Nat.eq_zero_or_pos i with rfl | hi
    · obtain ⟨n', hn', _, hdepth⟩ := (preorder x root).root
      obtain rfl : n' = n := Option.some.inj (hn'.symm.trans hn)
      refine ⟨root, hmem, first_shows hn, .root, ?_⟩
      rw [hdepth]
      rfl
    · obtain ⟨j, p, hparent, hj, hp, hdepth⟩ := (preorder x root).parent i n hi hn
      obtain ⟨e, he, hshows, hleads, hanc⟩ := ih j hj hp
      have hchild := ((preorder x root).children j p hp i).2 ⟨n, hn, hparent⟩
      obtain ⟨k, hk, hkn⟩ := exists_kid hmem hroot hp hshows hchild hn
      obtain ⟨hmember, hkp⟩ := Index.mem_memberKids.1 hk
      have hup : x.parent? k = some e := Index.parent?_eq_some_iff.2 ⟨he, hkp⟩
      refine ⟨k, (Index.mem_members.1 hmember).1, hkn, .up hmember hup hleads, ?_⟩
      rw [hdepth, Index.ancestor?, hup]
      exact hanc

/-- A session that leads to the root is shown by a node. -/
theorem exists_node {e : Entry} (h : x.LeadsTo root e) :
    e ∈ x.members root.mach ∧ ∃ i n, (ofRoot x root).node? i = some n ∧ n.Shows e := by
  induction h with
  | root =>
    obtain ⟨n, hn, _⟩ := (preorder x root).root
    exact ⟨Index.mem_members.2 ⟨hmem, Or.inr rfl⟩, 0, n, hn, first_shows hn⟩
  | up he hp _ ih =>
    obtain ⟨_, i, n, hn, hshows⟩ := ih
    have hk := Index.mem_memberKids.2 ⟨he, (Index.parent?_eq_some_iff.1 hp).2⟩
    obtain ⟨j, _, c, hc, hcs⟩ := exists_child hmem hroot hn hshows hk
    exact ⟨he, j, c, hc, hcs⟩

/-- Above a node stands the parent of its session. -/
theorem exists_parent {i : Nat} {n : Node} {e : Entry} (hi : 0 < i)
    (hn : (ofRoot x root).node? i = some n) (he : e ∈ x.entries) (hshows : n.Shows e) :
    ∃ j p up, n.parent = some j ∧ j < i ∧ (ofRoot x root).node? j = some p ∧ i ∈ p.children ∧
      n.depth = p.depth + 1 ∧ p.Shows up ∧ x.parent? e = some up := by
  obtain ⟨j, p, hparent, hj, hp, hdepth⟩ := (preorder x root).parent i n hi hn
  obtain ⟨up, hup, hpup, _⟩ := exists_session hmem hroot hp
  have hchild := ((preorder x root).children j p hp i).2 ⟨n, hn, hparent⟩
  obtain ⟨k, hk, hkn⟩ := exists_kid hmem hroot hp hpup hchild hn
  obtain ⟨hmember, hkp⟩ := Index.mem_memberKids.1 hk
  have hke : k = e :=
    Index.eq_of_id_eq (Index.mem_members.1 hmember).1 he (hkn.id.symm.trans hshows.id)
  rw [hke] at hkp
  exact ⟨j, p, up, hparent, hj, hp, hchild, hdepth, hpup, Index.parent?_eq_some_iff.2 ⟨hup, hkp⟩⟩

/-- No session is shown by two nodes. -/
theorem node?_inj {i j : Nat} {n m : Node} (hn : (ofRoot x root).node? i = some n)
    (hm : (ofRoot x root).node? j = some m) (hid : n.id = m.id) : i = j := by
  induction i using Nat.strongRecOn generalizing j n m with
  | ind i ih =>
    obtain ⟨e, he, hne, _, hnd⟩ := exists_session hmem hroot hn
    obtain ⟨e', he', hme, _, hmd⟩ := exists_session hmem hroot hm
    obtain rfl : e = e' := Index.eq_of_id_eq he he' (hne.id.symm.trans (hid.trans hme.id))
    -- One session leads to the root in one number of steps, so both nodes are equally deep.
    have hdepth : n.depth = m.depth := Index.ancestor?_unique hroot hnd hmd
    obtain ⟨first, hfirst, _, hzero⟩ := (preorder x root).root
    rcases Nat.eq_zero_or_pos i with rfl | hi
    · rcases Nat.eq_zero_or_pos j with rfl | hj
      · rfl
      · obtain ⟨_, _, _, _, _, _, _, hmdepth, _⟩ := exists_parent hmem hroot hj hm he hme
        rw [Option.some.inj (hfirst.symm.trans hn)] at hzero
        omega
    · rcases Nat.eq_zero_or_pos j with rfl | hj
      · obtain ⟨_, _, _, _, _, _, _, hndepth, _⟩ := exists_parent hmem hroot hi hn he hne
        rw [Option.some.inj (hfirst.symm.trans hm)] at hzero
        omega
      · obtain ⟨i', p, up, _, hi', hp, hip, _, hpup, hup⟩ := exists_parent hmem hroot hi hn he hne
        obtain ⟨j', q, up', _, _, hq, hjq, _, hqup, hup'⟩ := exists_parent hmem hroot hj hm he hme
        obtain rfl : up = up' := Option.some.inj (hup.symm.trans hup')
        obtain rfl : i' = j' := ih i' hi' hp hq (hpup.id.trans hqup.id.symm)
        obtain rfl : p = q := Option.some.inj (hp.symm.trans hq)
        exact child_inj hmem hroot hp hpup hip hjq hn hm (hne.mach.trans hme.mach.symm)

/-! ## Nodes and members -/

theorem nodup_ids : ((ofRoot x root).nodes.map (·.id)).Nodup := by
  refine List.pairwise_map.2 (List.pairwise_iff_getElem.2 fun i j hi hj hij hid => ?_)
  have h := node?_inj hmem hroot (List.getElem?_eq_getElem hi) (List.getElem?_eq_getElem hj) hid
  omega

theorem mem_ids {id : String} :
    id ∈ (ofRoot x root).nodes.map (·.id) ↔ ∃ e, e.id = id ∧ x.LeadsTo root e := by
  rw [List.mem_map]
  constructor
  · rintro ⟨n, hn, rfl⟩
    obtain ⟨i, hi⟩ := List.mem_iff_getElem?.1 hn
    obtain ⟨e, _, hshows, hleads, _⟩ := exists_session hmem hroot hi
    exact ⟨e, hshows.id.symm, hleads⟩
  · rintro ⟨e, rfl, hleads⟩
    obtain ⟨_, i, n, hn, hshows⟩ := exists_node hmem hroot hleads
    exact ⟨n, List.mem_of_getElem? hn, hshows.id⟩

/-- The members that have nodes are as many as the nodes. -/
theorem countP_members : (ofRoot x root).members.countP
    (fun e => e.id ∈ (ofRoot x root).nodes.map (·.id)) = (ofRoot x root).nodes.length := by
  have hlen : (ofRoot x root).nodes.length = ((ofRoot x root).nodes.map (·.id)).length := by
    rw [List.length_map]
  rw [List.countP_eq_length_filter, ← List.length_map Entry.id, hlen]
  refine ((List.perm_ext_iff_of_nodup ?_ (nodup_ids hmem hroot)).2 fun id => ?_).length_eq
  · refine List.Nodup.map_on (fun a ha b hb hid => ?_) ((x.nodup_entries.filter _).filter _)
    have ha := (Index.mem_members.1 (List.mem_filter.1 ha).1).1
    have hb := (Index.mem_members.1 (List.mem_filter.1 hb).1).1
    exact Index.eq_of_id_eq ha hb hid
  · rw [List.mem_map]
    constructor
    · rintro ⟨e, he, rfl⟩
      exact of_decide_eq_true (List.mem_filter.1 he).2
    · intro hid
      obtain ⟨e, rfl, hleads⟩ := (mem_ids hmem hroot).1 hid
      have hmember := (exists_node hmem hroot hleads).1
      exact ⟨e, List.mem_filter.2 ⟨hmember, decide_eq_true hid⟩, rfl⟩

end

/-! ## The tree of a run -/

/-- The nodes are the tree of the run: the members that lead to the root through members, each
    once and below its parent, numbered in pre-order, children by ascending machine. -/
structure IsTree (x : Index) (r : Run) : Prop where
  /-- The members are the sessions that name the root, and the root. -/
  mem_members : ∀ e, e ∈ r.members ↔ e ∈ x.entries ∧ (e.mid.root = r.rootMach ∨ e = r.root)
  nodup_members : r.members.Nodup
  /-- The visits end: the stack is empty after one turn for each node. -/
  turns : (Worklist.turn (x.memberKids r.rootMach))^[r.nodes.length] (.ofRoot r.root) =
    ⟨[], r.nodes.map Node.bare⟩
  mem_ids : ∀ id, id ∈ r.nodes.map (·.id) ↔ ∃ e, e.id = id ∧ x.LeadsTo r.root e
  nodup_ids : (r.nodes.map (·.id)).Nodup
  preorder : Tree.Preorder r.nodes
  first : ∃ n, r.node? 0 = some n ∧ n.id = r.root.id
  session : ∀ (i : Nat) (n : Node), r.node? i = some n →
    ∃ e, x.get? n.id = some e ∧ n.mach = e.mach
  parent : ∀ (i : Nat) (n : Node), 0 < i → r.node? i = some n →
    ∃ e j p, x.get? n.id = some e ∧ n.parent = some j ∧ j < i ∧ r.node? j = some p ∧
      e.parentId = some p.id
  ascending : ∀ (i : Nat) (n : Node), r.node? i = some n →
    n.children.Pairwise fun a b => ∀ c d, r.node? a = some c → r.node? b = some d →
      c.mach < d.mach
  orphans : r.orphans = r.members.countP fun e => e.id ∉ r.nodes.map (·.id)
  count : r.members.length = r.nodes.length + r.orphans

/-- Every session without a parent has a run, and its nodes are its tree. -/
theorem exists_isTree (x : Index) (mach : UInt64) (root : Entry) (h : x.root? mach = some root) :
    ∃ r, select? x mach = some r ∧ r.root = root ∧ r.IsTree x := by
  obtain ⟨hmem, hroot, rfl⟩ := Index.root?_eq_some_iff.1 h
  have hsplit : (ofRoot x root).members.length = (ofRoot x root).nodes.length
      + (ofRoot x root).members.countP fun e => e.id ∉ (ofRoot x root).nodes.map (·.id) := by
    rw [← countP_members hmem hroot, List.length_eq_countP_add_countP
      (fun e : Entry => decide (e.id ∈ (ofRoot x root).nodes.map (·.id)))]
    simp only [decide_eq_true_eq]
  refine ⟨ofRoot x root, by rw [select?, h]; rfl, rfl, ?_⟩
  refine
    { mem_members := fun e => ?_
      nodup_members := x.nodup_entries.filter _
      turns := ?_
      mem_ids := fun _ => mem_ids hmem hroot
      nodup_ids := nodup_ids hmem hroot
      preorder := preorder x root
      first := ?_
      session := fun i n hn => ?_
      parent := fun i n hi hn => ?_
      ascending := fun i n hn => ?_
      orphans := ?_
      count := ?_ }
  · rw [show e ∈ (ofRoot x root).members ↔ e ∈ x.members root.mach from Iff.rfl, Index.mem_members]
    refine and_congr_right fun he => or_congr_right ⟨Index.eq_of_mach_eq he hmem, fun h => ?_⟩
    rw [h]
    rfl
  · have hlen : (ofRoot x root).nodes.length = (x.tree root).size := Tree.length_nodes _ _ _ _ _
    rw [hlen]
    exact Index.turns_ofRoot _ hmem hroot
  · obtain ⟨n, hn, _⟩ := (preorder x root).root
    exact ⟨n, hn, (first_shows hn).id⟩
  · obtain ⟨e, he, hshows, _⟩ := exists_session hmem hroot hn
    exact ⟨e, hshows.id ▸ Index.get?_id he, hshows.mach⟩
  · obtain ⟨e, he, hshows, _⟩ := exists_session hmem hroot hn
    obtain ⟨j, p, up, hj, hji, hp, _, _, hpup, hup⟩ := exists_parent hmem hroot hi hn he hshows
    refine ⟨e, j, p, hshows.id ▸ Index.get?_id he, hj, hji, hp, ?_⟩
    rw [hpup.id]
    exact (Index.parent?_eq_some_iff.1 hup).2
  · obtain ⟨e, _, hshows, _⟩ := exists_session hmem hroot hn
    exact children_ascend hmem hroot hn hshows
  · unfold orphans
    omega
  · unfold orphans
    omega

/-- A root with a child and a grandchild, two sessions that are each the parent of the other,
    one whose parent is not there, and one of another root whose parent is in the run. -/
def straySessions : List Session :=
  [("1(0:1)", none), ("1(3:2)", some "1(1:3)"), ("1(1:3)", some "1(0:1)"),
    ("1(5:4)", some "1(4:5)"), ("1(4:5)", some "1(5:4)"), ("1(8:6)", some "1(1:8)"),
    ("9(1:7)", some "1(0:1)")].map
    fun e => { Session.ofId e.1 with parentId := e.2 }

theorem exists_isTree_straySessions :
    ∃ root, (Index.ofTrace ⟨straySessions, []⟩).root? 1 = some root ∧
      ∃ r, select? (Index.ofTrace ⟨straySessions, []⟩) 1 = some r ∧ r.root = root ∧
        r.IsTree (Index.ofTrace ⟨straySessions, []⟩) := by
  have h : ((Index.ofTrace ⟨straySessions, []⟩).root? 1).isSome = true := by decide +kernel
  obtain ⟨root, h⟩ := Option.isSome_iff_exists.1 h
  exact ⟨root, h, exists_isTree _ 1 root h⟩

end Run

end TraceExplorer
