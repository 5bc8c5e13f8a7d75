import TraceExplorer.Proofs.Run.Nodes
import TraceExplorer.Proofs.Run.Outcome
import Mathlib.Algebra.GroupWithZero.Nat

/-
  The buckets of a run. Outcomes have distinct names, so a bucket holds the sessions of one
  outcome in their order (`exists_outcome`), and the buckets together hold every session once
  (`flatten_values_perm`). In a run these are the members, each with its own identifier
  (`sortsMembers_select?`).
-/

namespace TraceExplorer

namespace Buckets

variable {sessions : List Session} {name : String} {ids : List String}

/-- The parts of a list with the keys that it has, key by key, are the list. -/
theorem perm_flatMap_filter {α κ : Type} [DecidableEq κ] (f : α → κ) {keys : List κ}
    {l : List α} (hkeys : keys.Nodup) (hl : ∀ a ∈ l, f a ∈ keys) :
    (keys.flatMap fun k => l.filter fun a => f a = k).Perm l := by
  induction keys generalizing l with
  | nil =>
    obtain rfl : l = [] := List.eq_nil_iff_forall_not_mem.2 fun a ha => List.not_mem_nil (hl a ha)
    exact .nil
  | cons k keys ih =>
    obtain ⟨hk, hkeys⟩ := List.nodup_cons.1 hkeys
    -- The keys behind `k` see the same elements in what is left of the list without `k`.
    have hrest : (keys.flatMap fun k' => l.filter fun a => f a = k') =
        keys.flatMap fun k' => (l.filter fun a => !decide (f a = k)).filter fun a => f a = k' := by
      refine List.flatMap_congr fun k' hk' => ?_
      rw [List.filter_filter]
      refine List.filter_congr fun a _ => ?_
      by_cases ha : f a = k'
      · subst ha
        have hne : f a ≠ k := fun h => hk (h ▸ hk')
        simp [hne]
      · simp [ha]
    have hleft : (keys.flatMap fun k' => l.filter fun a => f a = k').Perm
        (l.filter fun a => !decide (f a = k)) := by
      rw [hrest]
      refine ih hkeys fun a ha => ?_
      obtain ⟨ha, hne⟩ := List.mem_filter.1 ha
      exact (List.mem_cons.1 (hl a ha)).resolve_left (by simpa using hne)
    rw [List.flatMap_cons]
    exact (hleft.append_left _).trans (List.filter_append_perm _ l)

theorem ids_bucketName (sessions : List Session) (o : Outcome) :
    (ofSessions sessions).ids o.bucketName =
      (sessions.filter fun s => Outcome.ofSession s = o).map (·.id) := by
  rw [ids_ofSessions]
  simp only [Outcome.bucketName_injective.eq_iff]

/-- A bucket holds the sessions of an outcome, and there are some. -/
theorem exists_outcome (h : (ofSessions sessions).get? name = some ids) :
    ids ≠ [] ∧ ∃ o : Outcome, name = o.bucketName ∧
      ids = (sessions.filter fun s => Outcome.ofSession s = o).map (·.id) := by
  obtain ⟨s, hs, rfl⟩ := (isSome_get?_ofSessions sessions name).1 (by rw [h]; rfl)
  have hids : ids = (ofSessions sessions).ids (Outcome.ofSession s).bucketName := by
    unfold Buckets.ids
    rw [h]
    rfl
  rw [ids_bucketName] at hids
  refine ⟨?_, _, rfl, hids⟩
  have hmem : s.id ∈ ids := by
    rw [hids]
    exact List.mem_map_of_mem (List.mem_filter.2 ⟨hs, decide_eq_true rfl⟩)
  exact List.ne_nil_of_mem hmem

theorem values_eq (b : Buckets) : b.values = b.keys.map b.ids := by
  unfold Dict.values Dict.keys
  rw [List.map_map]
  refine List.map_congr_left fun e he => ?_
  rw [Function.comp, ids, Dict.get?_eq_some_iff.2 he, Option.getD_some]

/-- All buckets together hold each session once. -/
theorem flatten_values_perm (sessions : List Session) :
    (ofSessions sessions).values.flatten.Perm (sessions.map (·.id)) := by
  have hkeys : ∀ s ∈ sessions, (Outcome.ofSession s).bucketName ∈ (ofSessions sessions).keys :=
    fun s hs => Dict.mem_keys.2 ((isSome_get?_ofSessions sessions _).2 ⟨s, hs, rfl⟩)
  have hflat : (ofSessions sessions).values.flatten = ((ofSessions sessions).keys.flatMap fun k =>
      sessions.filter fun s => (Outcome.ofSession s).bucketName = k).map (·.id) := by
    have hids := funext (ids_ofSessions sessions)
    rw [values_eq, List.map_flatMap, List.flatMap_def, hids]
  rw [hflat]
  exact (perm_flatMap_filter _ (Dict.nodup_keys _) hkeys).map _

end Buckets

/-- How the session of the entry ended. -/
def Entry.outcome (e : Entry) : Outcome := Outcome.ofSession e.session

namespace Run

/-- The buckets sort the members of the run by outcome. -/
structure SortsMembers (x : Index) (r : Run) : Prop where
  /-- The members, which the other facts list, are in load order. -/
  inOrder : r.members.Sublist x.entries
  /-- Nodes are members too; the members without a node are the orphans. -/
  node_mem : ∀ n ∈ r.nodes, ∃ m ∈ r.members, m.id = n.id
  perm : r.buckets.values.flatten.Perm (r.members.map Entry.id)
  nodup : r.buckets.values.flatten.Nodup
  ascending : r.buckets.keys.Pairwise (· < ·)
  bucket : ∀ name ids, r.buckets.get? name = some ids → ids ≠ [] ∧
    ∃ o : Outcome, name = o.bucketName ∧
      ids = (r.members.filter fun m => m.outcome = o).map Entry.id
  listed : ∀ m ∈ r.members, ∃! name, m.id ∈ r.buckets.ids name
  same_iff : ∀ a ∈ r.members, ∀ b ∈ r.members,
    (∃ name, a.id ∈ r.buckets.ids name ∧ b.id ∈ r.buckets.ids name) ↔ a.outcome = b.outcome
  /-- The message of an error gives no reserved name, and no name of another message. -/
  reserved : ∀ message, (Outcome.err message).bucketName ≠ "values" ∧
    (Outcome.err message).bucketName ≠ "unknown"
  messages : ∀ message other,
    (Outcome.err message).bucketName = (Outcome.err other).bucketName → message = other
  goals : r.buckets.goals = (r.members.filter fun m => m.session.isGoal).map Entry.id
  size : (r.buckets.values.map List.length).sum = r.members.length

variable {x : Index} {root : Entry}

theorem nodup_members_id (x : Index) (root : Entry) :
    ((ofRoot x root).members.map Entry.id).Nodup := by
  refine List.Nodup.map_on (fun a ha b hb hid => ?_) (x.nodup_entries.filter _)
  exact Index.eq_of_id_eq (List.mem_filter.1 ha).1 (List.mem_filter.1 hb).1 hid

/-- A member is in the bucket of its outcome and in no other. -/
theorem mem_ids_iff {m : Entry} (hm : m ∈ (ofRoot x root).members) {name : String} :
    m.id ∈ (ofRoot x root).buckets.ids name ↔ name = m.outcome.bucketName := by
  have hids : (ofRoot x root).buckets.ids name =
      ((ofRoot x root).members.filter fun e => e.outcome.bucketName = name).map Entry.id := by
    show (Buckets.ofSessions _).ids name = _
    rw [Buckets.ids_ofSessions, List.filter_map, List.map_map]
    rfl
  rw [hids, List.mem_map]
  constructor
  · rintro ⟨e, he, hid⟩
    obtain ⟨he, hname⟩ := List.mem_filter.1 he
    obtain rfl : e = m :=
      List.inj_on_of_nodup_map (nodup_members_id x root) he hm hid
    exact (of_decide_eq_true hname).symm
  · rintro rfl
    exact ⟨m, List.mem_filter.2 ⟨hm, decide_eq_true rfl⟩, rfl⟩

/-- The buckets of every run sort its members by outcome. -/
theorem sortsMembers_select? (x : Index) (mach : UInt64) (r : Run) (h : select? x mach = some r) :
    r.SortsMembers x := by
  obtain ⟨root, hroot, rfl⟩ := Option.map_eq_some_iff.1 h
  obtain ⟨hmem, hparent, rfl⟩ := Index.root?_eq_some_iff.1 hroot
  have hperm : (ofRoot x root).buckets.values.flatten.Perm
      ((ofRoot x root).members.map Entry.id) := by
    have hflat := Buckets.flatten_values_perm ((ofRoot x root).members.map Entry.session)
    rwa [List.map_map] at hflat
  refine
    { inOrder := List.filter_sublist
      node_mem := fun n hn => ?_
      perm := hperm
      nodup := hperm.nodup_iff.2 (nodup_members_id x root)
      ascending := (Dict.keys_ascend _).imp compareOfLessAndEq_eq_lt.1
      bucket := fun name ids hids => ?_
      listed := fun m hm => ⟨m.outcome.bucketName, (mem_ids_iff hm).2 rfl,
        fun _ hname => (mem_ids_iff hm).1 hname⟩
      same_iff := fun a ha b hb => ?_
      reserved := fun message => ⟨fun hname => ?_, fun hname => ?_⟩
      messages := fun message other hname => Outcome.err.inj (Outcome.bucketName_injective hname)
      goals := ?_
      size := ?_ }
  · obtain ⟨e, hid, hleads⟩ := (mem_ids hmem hparent).1 (List.mem_map_of_mem hn)
    exact ⟨e, (exists_node hmem hparent hleads).1, hid⟩
  · obtain ⟨hne, o, hname, hids⟩ := Buckets.exists_outcome hids
    rw [List.filter_map, List.map_map] at hids
    exact ⟨hne, o, hname, hids⟩
  · constructor
    · rintro ⟨name, hna, hnb⟩
      apply Outcome.bucketName_injective
      exact ((mem_ids_iff ha).1 hna).symm.trans ((mem_ids_iff hb).1 hnb)
    · intro hsame
      exact ⟨_, (mem_ids_iff ha).2 rfl, (mem_ids_iff hb).2 (by rw [hsame])⟩
  · have hvalues : Outcome.err message = .values := Outcome.bucketName_injective hname
    cases hvalues
  · have hunknown : Outcome.err message = .unknown := Outcome.bucketName_injective hname
    cases hunknown
  · show (Buckets.ofSessions _).ids Outcome.values.bucketName = _
    rw [Buckets.ids_bucketName, List.filter_map, List.map_map]
    refine congrArg (List.map Entry.id) (List.filter_congr fun m _ => ?_)
    rw [Function.comp, Outcome.isGoal_eq]
  · rw [← List.length_flatten, hperm.length_eq, List.length_map]

/-- A root with values, an orphan with values, a child without an outcome, and two children whose
errors have the names of buckets. -/
def assortedSessions : List Session :=
  [{ Session.ofId "1(0:1)" with values := "x=1" },
    { Session.ofId "1(1:5)" with parentId := some "1(0:1)", error := "values" },
    { Session.ofId "1(8:4)" with parentId := some "1(1:8)", values := "x=4" },
    { Session.ofId "1(1:3)" with parentId := some "1(0:1)" },
    { Session.ofId "1(1:2)" with parentId := some "1(0:1)", error := "unknown", values := "x=2" }]

theorem sortsMembers_assortedSessions :
    ∃ r, select? (Index.ofTrace ⟨assortedSessions, []⟩) 1 = some r ∧
      r.buckets.entries = [("err=unknown", ["1(1:2)"]), ("err=values", ["1(1:5)"]),
        ("unknown", ["1(1:3)"]), ("values", ["1(0:1)", "1(8:4)"])] ∧
      r.SortsMembers (Index.ofTrace ⟨assortedSessions, []⟩) := by
  have h : (select? (Index.ofTrace ⟨assortedSessions, []⟩) 1).map (·.buckets.entries) =
      some [("err=unknown", ["1(1:2)"]), ("err=values", ["1(1:5)"]),
        ("unknown", ["1(1:3)"]), ("values", ["1(0:1)", "1(8:4)"])] := by decide +kernel
  obtain ⟨r, hr, hbuckets⟩ := Option.map_eq_some_iff.1 h
  exact ⟨r, hr, hbuckets, sortsMembers_select? _ 1 r hr⟩

end Run

end TraceExplorer
