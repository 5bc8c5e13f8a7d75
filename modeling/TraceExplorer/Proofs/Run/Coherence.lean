import TraceExplorer.Run.Basic
import TraceExplorer.Proofs.Run.Outcome
import TraceExplorer.Proofs.Run.Waypoints

/-
  Waypoints of a run agree with each other. A walk that comes by a session comes by its parent,
  so of two goals whose walks come by a session the later one has the parent as well. The goal
  that has the word on a session therefore has it on all sessions of its walk below, down to
  itself (`LastVisit.front`): no waypoint names a goal that lost its own mark.
-/

namespace TraceExplorer

namespace Index

variable {x : Index}

theorem Visits.of_ancestor {id : String} {e p : Entry} {n : Nat} (h : x.Visits id e.mach)
    (he : e ∈ x.entries) (hp : x.ancestor? n e = some p) : x.Visits id p.mach := by
  induction n generalizing e with
  | zero => exact Option.some.inj hp ▸ h
  | succ n ih =>
    obtain ⟨up, hup, hp⟩ := Option.bind_eq_some_iff.1 hp
    exact ih (h.parent he hup) (parent?_eq_some_iff.1 hup).1 hp

/-- The goal that has the word on a session has it on what its walk came by below. -/
theorem LastVisit.below {ids : List String} {id : String} {e p : Entry} {n : Nat}
    (h : x.LastVisit ids p.mach id) (he : e ∈ x.entries) (hp : x.ancestor? n e = some p)
    (hvisits : x.Visits id e.mach) : x.LastVisit ids e.mach id := by
  obtain ⟨before, after, hids, _, hafter⟩ := h
  exact ⟨before, after, hids, hvisits,
    fun later hlater hlow => hafter later hlater (hlow.of_ancestor he hp)⟩

theorem IsWalk.front_linked {goal node : Entry} {front rest : List Entry}
    (h : x.IsWalk goal (front ++ node :: rest)) :
    (front ++ [node]).IsChain fun a b => x.parent? a = some b := by
  have hlinked := h.linked
  rw [List.append_cons] at hlinked
  exact (List.isChain_append.1 hlinked).1

/-- The goal that has the word on a session of its walk has it on all before. -/
theorem LastVisit.front {ids : List String} {id : String} {goal node : Entry}
    {front rest : List Entry} (h : x.LastVisit ids node.mach id) (hgoal : x.get? id = some goal)
    (hway : x.IsWalk goal (front ++ node :: rest)) :
    ∀ a ∈ front ++ [node], a ∈ x.entries ∧ x.LastVisit ids a.mach id := by
  intro a ha
  have hmem : a ∈ front ++ node :: rest := by
    rw [List.append_cons]
    exact List.mem_append_left _ ha
  have hentry := hway.mem_entries (get?_eq_some_iff.1 hgoal).1 a hmem
  obtain ⟨n, hn⟩ := exists_ancestor?_of_linked hway.front_linked List.getLast?_concat a ha
  exact ⟨hentry, h.below hentry hn ⟨goal, _, a, hgoal, hway, hmem, rfl⟩⟩

end Index

namespace Waypoints

/-- The sessions from the machine down to the goal of `w`, each the parent of the next; each has
    a waypoint to that goal, and the goal its own mark. -/
structure IsTrail (x : Index) (ws : Waypoints) (mach : UInt64) (w : Waypoint)
    (trail : List Entry) : Prop where
  first : ∃ e, trail.head? = some e ∧ e.mach = mach
  linked : trail.IsChain fun a b => b.parentId = some a.id
  same : ∀ a ∈ trail, a ∈ x.entries ∧
    ∃ v, ws.get? a.mach = some v ∧ v.goalId = w.goalId ∧ v.goalMach = w.goalMach
  last : ∃ goal, trail.getLast? = some goal ∧ goal.id = w.goalId ∧
    ∃ v, ws.get? goal.mach = some v ∧ v.mark = .goal

/-- The marks of the waypoints agree with the sessions and with each other. -/
structure Coherent (x : Index) (ws : Waypoints) : Prop where
  parent : ∀ e p : Entry, e ∈ x.entries → p ∈ x.entries → e.parentId = some p.id →
    (ws.get? e.mach).isSome → (ws.get? p.mach).isSome
  goal : ∀ mach w, ws.get? mach = some w → w.mark = .goal →
    ∃ e ∈ x.entries, e.mach = mach ∧ e.session.error = "" ∧ e.session.values ≠ ""
  trail : ∀ mach w, ws.get? mach = some w → ∃ trail, ws.IsTrail x mach w trail

namespace Known

variable {x : Index} {ids : List String} {ws : Waypoints}

/-- The waypoint of a machine names the goal that has the word on it. -/
theorem exists_waypoint (h : ∀ mach, Known x ids mach (ws.get? mach)) {id : String} {mach : UInt64}
    (hlast : x.LastVisit ids mach id) :
    ∃ w, ws.get? mach = some w ∧ w.goalId = id ∧ w.OnWalk x id mach := by
  obtain ⟨w, hw⟩ := Option.isSome_iff_exists.1 ((h mach).isSome_iff.2 ⟨id, hlast.mem, hlast.visits⟩)
  obtain rfl := hlast.unique ((h mach).lastVisit hw)
  exact ⟨w, hw, rfl, (h mach).onWalk hw⟩

/-- The walk of the goal, from the waypoint back down. -/
theorem exists_trail (h : ∀ mach, Known x ids mach (ws.get? mach)) {id : String} {mach : UInt64}
    {w : Waypoint} (hlast : x.LastVisit ids mach id) (hw : w.OnWalk x id mach) :
    ∃ trail, ws.IsTrail x mach w trail := by
  cases hw with
  | @mk goal node way count hgoal hway hnode hmach hcount =>
  subst hmach
  obtain ⟨front, rest, rfl⟩ := List.append_of_mem hnode
  have hword : ∀ a ∈ front ++ [node], a ∈ x.entries ∧ ∃ v, ws.get? a.mach = some v ∧
      v.goalId = id ∧ v.goalMach = goal.mach ∧ v.nodeMach = a.mach := by
    intro a ha
    obtain ⟨hentry, hlow⟩ := hlast.front hgoal hway a ha
    obtain ⟨v, hv, hid, hon⟩ := exists_waypoint h hlow
    exact ⟨hentry, v, hv, hid, hon.goalMach_eq hgoal, hon.nodeMach_eq⟩
  have hfirst : (front ++ [node]).head? = some goal := by
    rw [← hway.first]
    cases front <;> rfl
  refine ⟨(front ++ [node]).reverse, ?_⟩
  refine
    { first := ⟨node, by rw [List.reverse_concat]; rfl, rfl⟩
      linked := ?_
      same := fun a ha => ?_
      last := ⟨goal, ?_, (Index.get?_eq_some_iff.1 hgoal).2, ?_⟩ }
  · refine List.isChain_reverse.2 (hway.front_linked.imp fun a b hab => ?_)
    exact (Index.parent?_eq_some_iff.1 hab).2
  · obtain ⟨hentry, v, hv, hid, hgoalMach, _⟩ := hword a (List.mem_reverse.1 ha)
    exact ⟨hentry, v, hv, hid, hgoalMach⟩
  · rw [List.getLast?_reverse, hfirst]
  · obtain ⟨_, v, hv, _, hgoalMach, hnodeMach⟩ := hword goal (List.mem_of_mem_head? hfirst)
    exact ⟨v, hv, if_pos (hgoalMach.trans hnodeMach.symm)⟩

/-- Where all texts are those of goals, the waypoints agree with each other. -/
theorem coherent (h : ∀ mach, Known x ids mach (ws.get? mach))
    (hgoals : ∀ id ∈ ids, ∀ e, x.get? id = some e → e.session.error = "" ∧ e.session.values ≠ "") :
    ws.Coherent x where
  parent e p he hp hparent hsome := by
    obtain ⟨id, hid, hvisits⟩ := (h e.mach).isSome_iff.1 hsome
    exact (h p.mach).isSome_iff.2
      ⟨id, hid, hvisits.parent he (Index.parent?_eq_some_iff.2 ⟨hp, hparent⟩)⟩
  goal mach w hw hmark := by
    have hlast := (h mach).lastVisit hw
    have hon := (h mach).onWalk hw
    obtain ⟨goal, _, _, hgoal, _⟩ := hlast.visits
    have hsame : w.goalMach = w.nodeMach := by
      by_contra hne
      rw [Waypoint.mark, if_neg hne] at hmark
      cases hmark
    refine ⟨goal, (Index.get?_eq_some_iff.1 hgoal).1, ?_, hgoals _ hlast.mem goal hgoal⟩
    rw [← hon.goalMach_eq hgoal, hsame, hon.nodeMach_eq]
  trail mach w hw := exists_trail h ((h mach).lastVisit hw) ((h mach).onWalk hw)

end Known

end Waypoints

/-- The waypoints of every run agree with each other. -/
theorem Run.coherent_waypoints (x : Index) (root : Entry) :
    (Run.ofRoot x root).waypoints.Coherent x := by
  refine Waypoints.Known.coherent (Waypoints.known_ofGoals x _) fun id hid e he => ?_
  obtain ⟨s, hs, hsid, hgoal⟩ := Buckets.mem_goals.1 hid
  obtain ⟨goal, hmember, rfl⟩ := List.mem_map.1 hs
  obtain ⟨hentry, rfl⟩ := Index.get?_eq_some_iff.1 he
  have hmem : goal ∈ x.entries := (List.mem_filter.1 hmember).1
  obtain rfl := Index.eq_of_id_eq hmem hentry hsid
  exact hgoal

end TraceExplorer
