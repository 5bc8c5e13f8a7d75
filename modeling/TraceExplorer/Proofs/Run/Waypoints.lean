import TraceExplorer.Run.Waypoint
import TraceExplorer.Proofs.Dict
import TraceExplorer.Proofs.Index.Walk

/-
  The waypoints of a list of goals. `Waypoint.OnWalk` says what the waypoint of one session of
  the walk of one goal is, and `Index.LastVisit` which goal has the word on a machine: the last of
  the list whose walk comes by. One goal overwrites the waypoints of its walk and leaves the
  others (`Known.add`), and so it is by induction after every front of the list
  (`known_ofGoals`).
-/

namespace TraceExplorer

/-! ## Counts of a session -/

namespace Session

/-- The count of the last record, zero without records. -/
inductive EndsAt (s : Session) : UInt64 → Prop where
  | none (h : s.records = []) : s.EndsAt 0
  | last {before : List Event} {e : Event} (h : s.records = before ++ [e]) : s.EndsAt e.count

/-- The count of the last copy that made `child`, the final count without one. -/
inductive LeavesAt (s : Session) (child : String) : UInt64 → Prop where
  | copy {before after : List Event} {e : Event} (h : s.records = before ++ e :: after)
      (he : e.copiesTo child = true) (hafter : ∀ f ∈ after, f.copiesTo child = false) :
      s.LeavesAt child e.count
  | stays {count : UInt64} (h : ∀ e ∈ s.records, e.copiesTo child = false)
      (hend : s.EndsAt count) : s.LeavesAt child count

theorem endsAt_finalCount (s : Session) : s.EndsAt s.finalCount := by
  unfold finalCount
  cases h : s.records.getLast? with
  | none => exact .none (List.getLast?_eq_none_iff.1 h)
  | some e =>
    obtain ⟨before, hbefore⟩ := List.getLast?_eq_some_iff.1 h
    exact .last hbefore

theorem leavesAt_lastCopyCountTo (s : Session) (child : String) :
    s.LeavesAt child ((s.lastCopyCountTo? child).getD s.finalCount) := by
  unfold lastCopyCountTo?
  cases h : s.records.reverse.find? (·.copiesTo child) with
  | none =>
    refine .stays (fun e he => ?_) s.endsAt_finalCount
    simpa using List.find?_eq_none.1 h e (List.mem_reverse.2 he)
  | some e =>
    obtain ⟨he, after, before, hsplit, hafter⟩ := List.find?_eq_some_iff_append.1 h
    rw [List.reverse_eq_iff, List.reverse_append, List.reverse_cons, List.append_assoc] at hsplit
    refine .copy hsplit he fun f hf => ?_
    simpa using hafter f (List.mem_reverse.1 hf)

end Session

/-! ## The waypoints of one goal -/

/-- The machine is on the walk of the session `id`. -/
def Index.Visits (x : Index) (id : String) (mach : UInt64) : Prop :=
  ∃ goal way node, x.get? id = some goal ∧ x.IsWalk goal way ∧ node ∈ way ∧ node.mach = mach

namespace Waypoint

/-- How far along `node` a walk goes: to the end of the session where the walk starts, and to
    the last copy that made the session just before on the walk. -/
inductive Threshold (way : List Entry) (node : Entry) : UInt64 → Prop where
  | start {count : UInt64} (h : way.head? = some node) (hend : node.session.EndsAt count) :
      Threshold way node count
  | above {below rest : List Entry} {prev : Entry} {count : UInt64}
      (h : way = below ++ prev :: node :: rest) (hleaves : node.session.LeavesAt prev.id count) :
      Threshold way node count

/-- The waypoint at the session of the machine on the walk of the goal `id`. -/
inductive OnWalk (x : Index) (id : String) (mach : UInt64) : Waypoint → Prop where
  | mk {goal node : Entry} {way : List Entry} {count : UInt64} (hgoal : x.get? id = some goal)
      (hway : x.IsWalk goal way) (hnode : node ∈ way) (hmach : node.mach = mach)
      (hcount : Threshold way node count) : OnWalk x id mach ⟨node.id, mach, count, id, goal.mach⟩

theorem OnWalk.goalId_eq {x : Index} {id : String} {mach : UInt64} {w : Waypoint}
    (h : w.OnWalk x id mach) : w.goalId = id := by
  cases h
  rfl

theorem OnWalk.nodeMach_eq {x : Index} {id : String} {mach : UInt64} {w : Waypoint}
    (h : w.OnWalk x id mach) : w.nodeMach = mach := by
  cases h
  rfl

theorem OnWalk.goalMach_eq {x : Index} {id : String} {mach : UInt64} {w : Waypoint} {goal : Entry}
    (h : w.OnWalk x id mach) (hgoal : x.get? id = some goal) : w.goalMach = goal.mach := by
  cases h with
  | mk hgoal' => rw [Option.some.inj (hgoal.symm.trans hgoal')]

/-- Neighbours in a list. -/
theorem exists_split_of_mem_zip_tail {α : Type} {l : List α} {a b : α} (h : (a, b) ∈ l.zip l.tail) :
    ∃ below rest, l = below ++ a :: b :: rest := by
  induction l with
  | nil => simp at h
  | cons c l ih =>
    cases l with
    | nil => simp at h
    | cons d l =>
      rcases List.mem_cons.1 h with heq | h
      · obtain ⟨rfl, rfl⟩ := Prod.mk.inj heq
        exact ⟨[], l, rfl⟩
      · obtain ⟨below, rest, hsplit⟩ := ih h
        exact ⟨c :: below, rest, congrArg (c :: ·) hsplit⟩

/-- A goal has one waypoint for each session of its walk. -/
theorem map_nodeMach_ofGoal (x : Index) (goal : Entry) :
    (ofGoal x goal).map (·.nodeMach) = (x.ascent goal).1.map Entry.mach := by
  obtain ⟨tail, htail⟩ := Index.climb_eq_cons x ((x.entries.map Entry.mach).erase goal.mach) goal
  have hway : (x.ascent goal).1 = goal :: tail := htail
  have hsnd : ((goal :: tail).zip tail).map Prod.snd = tail :=
    List.map_snd_zip (by rw [List.length_cons]; omega)
  have hzip : (((goal :: tail).zip tail).map fun e => above goal e.1 e.2).map (·.nodeMach) =
      (((goal :: tail).zip tail).map Prod.snd).map Entry.mach := by
    rw [List.map_map, List.map_map]
    rfl
  unfold ofGoal
  rw [hway, List.map_cons, List.tail_cons, hzip, hsnd]
  rfl

theorem keys_ofGoal (x : Index) (goal : Entry) :
    ((ofGoal x goal).map fun w => (w.nodeMach, w)).map Prod.fst =
      (x.ascent goal).1.map Entry.mach := by
  rw [← map_nodeMach_ofGoal, List.map_map]
  rfl

theorem onWalk_of_mem_ofGoal {x : Index} {id : String} {goal : Entry} {w : Waypoint}
    (hgoal : x.get? id = some goal) (hw : w ∈ ofGoal x goal) : OnWalk x id w.nodeMach w := by
  obtain ⟨hmem, rfl⟩ := Index.get?_eq_some_iff.1 hgoal
  have hfirst := Index.ascent_head? x goal
  have hway := Index.isWalk_ascent hmem
  rcases List.mem_cons.1 hw with rfl | hw
  · have hcount := Threshold.start hfirst goal.session.endsAt_finalCount
    exact .mk hgoal hway (List.mem_of_mem_head? hfirst) rfl hcount
  · obtain ⟨⟨prev, node⟩, hpair, rfl⟩ := List.mem_map.1 hw
    obtain ⟨below, rest, hsplit⟩ := exists_split_of_mem_zip_tail hpair
    have hnode : node ∈ (x.ascent goal).1 := by
      rw [hsplit]
      simp
    exact .mk hgoal hway hnode rfl (.above hsplit (node.session.leavesAt_lastCopyCountTo prev.id))

end Waypoint

namespace Index

variable {x : Index}

/-! ## The last visit -/

/-- `id` is the last of the texts whose walk comes by the machine. -/
def LastVisit (x : Index) (ids : List String) (mach : UInt64) (id : String) : Prop :=
  ∃ before after, ids = before ++ id :: after ∧ x.Visits id mach ∧
    ∀ later ∈ after, ¬ x.Visits later mach

theorem LastVisit.unique {ids : List String} {mach : UInt64} {a b : String}
    (ha : x.LastVisit ids mach a) (hb : x.LastVisit ids mach b) : a = b := by
  obtain ⟨before, after, rfl, hva, hna⟩ := ha
  obtain ⟨before', after', heq, hvb, hnb⟩ := hb
  rcases List.append_eq_append_iff.1 heq with ⟨t, _, ht⟩ | ⟨t, _, ht⟩
  · cases t with
    | nil => exact (List.cons.inj ht).1
    | cons c t =>
      have hmem : b ∈ after := by
        rw [(List.cons.inj ht).2]
        simp
      exact absurd hvb (hna b hmem)
  · cases t with
    | nil => exact (List.cons.inj ht).1.symm
    | cons c t =>
      have hmem : a ∈ after' := by
        rw [(List.cons.inj ht).2]
        simp
      exact absurd hva (hnb a hmem)

/-- The text put last has the word where its walk comes by. -/
theorem lastVisit_concat {ids : List String} {id : String} {mach : UInt64} (h : x.Visits id mach) :
    x.LastVisit (ids ++ [id]) mach id := ⟨ids, [], rfl, h, by simp⟩

theorem LastVisit.concat {ids : List String} {a id : String} {mach : UInt64}
    (ha : x.LastVisit ids mach a) (h : ¬ x.Visits id mach) : x.LastVisit (ids ++ [id]) mach a := by
  obtain ⟨before, after, rfl, hva, hna⟩ := ha
  refine ⟨before, after ++ [id], by simp, hva, fun later hlater => ?_⟩
  rcases List.mem_append.1 hlater with hlater | hlater
  · exact hna later hlater
  · exact List.mem_singleton.1 hlater ▸ h

theorem LastVisit.visits {ids : List String} {id : String} {mach : UInt64}
    (h : x.LastVisit ids mach id) : x.Visits id mach := by
  obtain ⟨_, _, _, hvisits, _⟩ := h
  exact hvisits

theorem LastVisit.mem {ids : List String} {id : String} {mach : UInt64}
    (h : x.LastVisit ids mach id) : id ∈ ids := by
  obtain ⟨before, after, rfl, _⟩ := h
  simp

theorem Visits.parent {id : String} {e p : Entry} (h : x.Visits id e.mach) (he : e ∈ x.entries)
    (hp : x.parent? e = some p) : x.Visits id p.mach := by
  obtain ⟨goal, way, node, hgoal, hway, hnode, hmach⟩ := h
  have hentry := hway.mem_entries (get?_eq_some_iff.1 hgoal).1 node hnode
  obtain rfl := eq_of_mach_eq hentry he hmach
  exact ⟨goal, way, p, hgoal, hway, hway.mem_of_parent hnode hp, rfl⟩

end Index

/-! ## The waypoints of a list of goals -/

namespace Waypoints

variable {x : Index}

theorem get?_add_of_visits {id : String} {mach : UInt64} (ws : Waypoints) (h : x.Visits id mach) :
    ∃ w, (add x ws id).get? mach = some w ∧ Waypoint.OnWalk x id mach w := by
  obtain ⟨goal, way, node, hgoal, hway, hnode, rfl⟩ := h
  have hentry := (Index.get?_eq_some_iff.1 hgoal).1
  obtain rfl := hway.unique (Index.isWalk_ascent hentry)
  -- The walk has each machine once, so the waypoint of a machine is stored once.
  have hkeys := hway.nodup_machs hentry
  rw [← Waypoint.keys_ofGoal] at hkeys
  have hmem : node.mach ∈ (Waypoint.ofGoal x goal).map (·.nodeMach) := by
    rw [Waypoint.map_nodeMach_ofGoal]
    exact List.mem_map_of_mem hnode
  obtain ⟨w, hw, hwm⟩ := List.mem_map.1 hmem
  refine ⟨w, ?_, hwm ▸ Waypoint.onWalk_of_mem_ofGoal hgoal hw⟩
  rw [← hwm, add, hgoal]
  exact Dict.get?_insertAll_of_mem ws hkeys (List.mem_map.2 ⟨w, hw, rfl⟩)

theorem get?_add_of_not_visits {id : String} {mach : UInt64} (ws : Waypoints)
    (h : ¬ x.Visits id mach) : (add x ws id).get? mach = ws.get? mach := by
  unfold add
  cases hgoal : x.get? id with
  | none => rfl
  | some goal =>
    refine Dict.get?_insertAll_of_not_mem ws fun hmem => h ?_
    rw [Waypoint.keys_ofGoal] at hmem
    obtain ⟨node, hnode, hmach⟩ := List.mem_map.1 hmem
    have hentry := (Index.get?_eq_some_iff.1 hgoal).1
    exact ⟨goal, _, node, hgoal, Index.isWalk_ascent hentry, hnode, hmach⟩

/-- What is known of a machine after the walks of some texts. -/
inductive Known (x : Index) (ids : List String) (mach : UInt64) : Option Waypoint → Prop where
  | visited {w : Waypoint} (hlast : x.LastVisit ids mach w.goalId)
      (hw : w.OnWalk x w.goalId mach) : Known x ids mach (some w)
  | unvisited (h : ∀ id ∈ ids, ¬ x.Visits id mach) : Known x ids mach none

theorem Known.lastVisit {ids : List String} {mach : UInt64} {found : Option Waypoint}
    {w : Waypoint} (h : Known x ids mach found) (hw : found = some w) :
    x.LastVisit ids mach w.goalId := by
  cases h with
  | visited hlast _ => exact Option.some.inj hw ▸ hlast
  | unvisited => cases hw

theorem Known.onWalk {ids : List String} {mach : UInt64} {found : Option Waypoint}
    {w : Waypoint} (h : Known x ids mach found) (hw : found = some w) :
    w.OnWalk x w.goalId mach := by
  cases h with
  | visited _ hon => exact Option.some.inj hw ▸ hon
  | unvisited => cases hw

theorem Known.isSome_iff {ids : List String} {mach : UInt64} {found : Option Waypoint}
    (h : Known x ids mach found) : found.isSome ↔ ∃ id ∈ ids, x.Visits id mach := by
  cases h with
  | visited hlast hw => exact ⟨fun _ => ⟨_, hlast.mem, hlast.visits⟩, fun _ => rfl⟩
  | unvisited h =>
    refine ⟨fun h => absurd h (by simp), ?_⟩
    rintro ⟨id, hid, hvisits⟩
    exact absurd hvisits (h id hid)

theorem Known.add {ids : List String} {mach : UInt64} {ws : Waypoints} (id : String)
    (h : Known x ids mach (ws.get? mach)) :
    Known x (ids ++ [id]) mach ((ws.add x id).get? mach) := by
  by_cases hvisits : x.Visits id mach
  · obtain ⟨w, hget, hw⟩ := get?_add_of_visits ws hvisits
    obtain rfl := hw.goalId_eq
    rw [hget]
    exact .visited (Index.lastVisit_concat hvisits) hw
  · rw [get?_add_of_not_visits ws hvisits]
    generalize ws.get? mach = found at h ⊢
    cases h with
    | visited hlast hw => exact .visited (hlast.concat hvisits) hw
    | unvisited h =>
      refine .unvisited fun a ha => ?_
      rcases List.mem_append.1 ha with ha | ha
      · exact h a ha
      · exact List.mem_singleton.1 ha ▸ hvisits

theorem known_ofGoals (x : Index) (ids : List String) (mach : UInt64) :
    Known x ids mach ((ofGoals x ids).get? mach) := by
  induction ids using List.reverseRecOn with
  | nil => exact .unvisited (by simp)
  | append_singleton ids id ih =>
    have h := ih.add id
    unfold ofGoals at h ⊢
    rwa [List.foldl_append]

/-- The waypoints say of each machine what the last of the texts does whose walk comes by. -/
structure Propagated (x : Index) (ids : List String) (ws : Waypoints) : Prop where
  isSome_iff : ∀ mach, (ws.get? mach).isSome ↔ ∃ id ∈ ids, x.Visits id mach
  lastVisit : ∀ mach w, ws.get? mach = some w → x.LastVisit ids mach w.goalId
  waypoint : ∀ mach w, ws.get? mach = some w → w.OnWalk x w.goalId mach
  mem_values : ∀ w, w ∈ ws.values ↔ ws.get? w.nodeMach = some w
  ascending : ws.values.Pairwise fun v w => v.nodeMach < w.nodeMach

theorem ofGoals_propagated (x : Index) (ids : List String) :
    (ofGoals x ids).Propagated x ids := by
  have hknown := known_ofGoals x ids
  generalize ofGoals x ids = ws at hknown
  have hmach : ∀ mach w, ws.get? mach = some w → w.nodeMach = mach :=
    fun mach _ hw => ((hknown mach).onWalk hw).nodeMach_eq
  refine
    { isSome_iff := fun mach => (hknown mach).isSome_iff
      lastVisit := fun mach _ hw => (hknown mach).lastVisit hw
      waypoint := fun mach _ hw => (hknown mach).onWalk hw
      mem_values := fun w => ?_
      ascending := ?_ }
  · rw [Dict.mem_values]
    refine ⟨?_, fun hw => ⟨_, hw⟩⟩
    rintro ⟨mach, hw⟩
    rwa [hmach mach w hw]
  · unfold Dict.values
    refine List.pairwise_map.2 (ws.ascending.imp_of_mem fun {a b} ha hb hlt => ?_)
    rw [hmach a.1 a.2 (Dict.get?_eq_some_iff.2 ha), hmach b.1 b.2 (Dict.get?_eq_some_iff.2 hb)]
    exact Std.compare_eq_lt.1 hlt

end Waypoints

end TraceExplorer
