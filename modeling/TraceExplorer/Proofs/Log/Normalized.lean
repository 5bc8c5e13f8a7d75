import TraceExplorer.Proofs.Log.Consumed
import TraceExplorer.Proofs.Log.Segments
import Mathlib.Algebra.GroupWithZero.Nat
import Mathlib.Data.List.Forall2

/-
  What a normalized log shows of the sessions of its chain. A record that is taken in adds its
  row, if it has one (`rows_step`), and operations given up are counted in the end though they
  are met one by one: what was given up, what is pending and what comes stay the same together
  (`owed_step`). So every session lays the rows of its records up to the cut
  (`laid_addChain`), and the log shows the operations of the chain (`assemble_showsOperations`).
-/

namespace TraceExplorer

/-- The row shows the record `e` in the segment `s`; of an operation it may have more data. -/
structure OpRow.Shows (waypoints : Option Waypoints) (s : Segment) (e : Event) (r : OpRow) :
    Prop where
  row : r.toRow.Shows waypoints s r.event
  kind : r.event.kind = e.kind
  count : r.event.count = e.count
  ip : r.event.ip = e.ip
  action : r.event.action = e.action
  notes : r.event.notes = e.notes
  extra : e.kind ≠ .postOp → r.event.extra = e.extra

namespace NormalizedLog

theorem merge_eq (post : Event) (pre : Option Event) (copy : Option Extra) :
    merge post pre copy = { post with extra := (merge post pre copy).extra } := by
  cases pre <;> rfl

/-- An operation begun before the records is not finished in them: what decides about it first,
    if anything does, is another beginning or the end of the machine. -/
def leavesUnfinished (records : List Event) : Bool :=
  (records.find? Event.settles).all (·.kind ≠ .postOp)

/-- How many operations are begun in the records and not finished. -/
def unfinished : List Event → Nat
  | [] => 0
  | e :: records =>
    (if e.kind = .preOp && leavesUnfinished records then 1 else 0) + unfinished records

namespace Draft

/-! ## Parts of a step -/

theorem closeSpans_eq (d : Draft) (extra : Extra) :
    d.closeSpans extra = { d with spans := (d.closeSpans extra).spans } := by
  unfold closeSpans
  split <;> rfl

theorem openSpan_eq (d : Draft) (extra : Extra) :
    d.openSpan extra = { d with spans := (d.openSpan extra).spans } := by
  unfold openSpan
  split <;> rfl

/-- Opens the span of an operation that was begun. -/
def openPre (d : Draft) : Draft := d.pre.elim d fun pre => d.openSpan pre.extra

theorem openPre_eq (d : Draft) : d.openPre = { d with spans := d.openPre.spans } := by
  obtain ⟨rows, spans, dropped, pre, copy⟩ := d
  cases pre with
  | none => rfl
  | some pre => exact openSpan_eq ⟨rows, spans, dropped, some pre, copy⟩ pre.extra

theorem dropPre_eq (d : Draft) :
    d.dropPre = { d with pre := none, dropped := d.dropped + if d.pre.isSome then 1 else 0 } := by
  obtain ⟨rows, spans, dropped, pre, copy⟩ := d
  cases pre <;> rfl

theorem addOp_eq (d : Draft) (row : Event → Row) (op : Event) : d.addOp row op =
    { d with
      rows := d.rows ++ [{ row op with indent := (d.closeSpans op.extra).spans.depth }],
      spans := ((d.closeSpans op.extra).openSpan op.extra).spans } := by
  unfold addOp push
  simp only
  rw [openSpan_eq, closeSpans_eq]

theorem addEnd_eq (d : Draft) (row : Event → Row) (stop : Event) : d.addEnd row stop =
    { d.dropPre with
      rows := d.rows ++ [{ row stop with indent := 0 }],
      spans := d.openPre.spans.closeAll d.rows.length } := by
  have h : d.addEnd row stop =
      { d.openPre.dropPre with
        rows := d.openPre.dropPre.rows ++ [{ row stop with indent := 0 }],
        spans := d.openPre.dropPre.spans.closeAll d.openPre.dropPre.rows.length } := rfl
  rw [h, dropPre_eq, dropPre_eq, openPre_eq]

/-! ## Rows -/

variable {s : Segment} {depth : Nat} {e : Entry}

theorem shows_ofEvent (waypoints : Option Waypoints) (h : s.IsOf e depth) (event : Event)
    (indent : Nat) :
    OpRow.Shows waypoints s event { Row.ofEvent waypoints depth e event with indent } where
  row := h.shows_ofEvent waypoints event
  kind := rfl
  count := rfl
  ip := rfl
  action := rfl
  notes := rfl
  extra _ := rfl

theorem shows_merge (waypoints : Option Waypoints) (h : s.IsOf e depth) {event : Event}
    (hkind : event.kind = .postOp) (pre : Option Event) (copy : Option Extra) (indent : Nat) :
    OpRow.Shows waypoints s event
      { Row.ofEvent waypoints depth e (merge event pre copy) with indent } := by
  rw [merge_eq]
  exact
    { row := h.shows_ofEvent waypoints _
      kind := rfl
      count := rfl
      ip := rfl
      action := rfl
      notes := rfl
      extra := fun hne => absurd hkind hne }

/-- A record adds its row behind the others, if it has one. -/
theorem rows_step (waypoints : Option Waypoints) (h : s.IsOf e depth) (d : Draft) (event : Event) :
    ∃ part, (d.step depth (Row.ofEvent waypoints depth e) event).rows = d.rows ++ part ∧
      List.Forall₂ (OpRow.Shows waypoints s) ([event].filter (·.hasRow depth)) part := by
  have htaken := taken_step depth (Row.ofEvent waypoints depth e) d event
  generalize d.step depth (Row.ofEvent waypoints depth e) event = d' at htaken
  have hshown : ∀ {r : OpRow}, event.hasRow depth = true → OpRow.Shows waypoints s event r →
      List.Forall₂ (OpRow.Shows waypoints s) ([event].filter (·.hasRow depth)) [r] := by
    intro r hrow hshows
    rw [List.filter_singleton, hrow]
    exact .cons hshows .nil
  have hsilent : event.hasRow depth = false →
      List.Forall₂ (OpRow.Shows waypoints s) ([event].filter (·.hasRow depth)) [] := by
    intro hrow
    rw [List.filter_singleton, hrow]
    exact .nil
  cases htaken with
  | start hkind hdepth =>
    exact ⟨[], (List.append_nil _).symm, hsilent (by simp [Event.hasRow, hkind, hdepth])⟩
  | preOp hkind =>
    refine ⟨[], ?_, hsilent (by simp [Event.hasRow, hkind])⟩
    rw [dropPre_eq, List.append_nil]
  | copy hkind => exact ⟨[], (List.append_nil _).symm, hsilent (by simp [Event.hasRow, hkind])⟩
  | postOp hkind =>
    rw [addOp_eq]
    exact ⟨_, rfl, hshown (by simp [Event.hasRow, hkind]) (shows_merge waypoints h hkind _ _ _)⟩
  | stop hend =>
    rw [addEnd_eq]
    exact ⟨_, rfl, hshown (Event.hasRow_of_isEnd hend depth) (shows_ofEvent waypoints h event _)⟩
  | plain hrow => exact ⟨_, rfl, hshown hrow (shows_ofEvent waypoints h event _)⟩

theorem rows_foldl (waypoints : Option Waypoints) (h : s.IsOf e depth) (d : Draft)
    (records : List Event) :
    ∃ part, (records.foldl (step depth (Row.ofEvent waypoints depth e)) d).rows = d.rows ++ part ∧
      List.Forall₂ (OpRow.Shows waypoints s) (records.filter (·.hasRow depth)) part := by
  induction records generalizing d with
  | nil => exact ⟨[], (List.append_nil _).symm, .nil⟩
  | cons event records ih =>
    obtain ⟨first, hfirst, hshows⟩ := rows_step waypoints h d event
    obtain ⟨part, hpart, hrest⟩ := ih (d.step depth (Row.ofEvent waypoints depth e) event)
    refine ⟨first ++ part, ?_, ?_⟩
    · rw [List.foldl_cons, hpart, hfirst, List.append_assoc]
    · rw [← List.singleton_append, List.filter_append]
      exact List.rel_append hshows hrest

/-! ## Operations given up -/

/-- The operations that are given up, now or once the records are taken in. -/
def owed (d : Draft) (records : List Event) : Nat :=
  d.dropped + (if d.pre.isSome && leavesUnfinished records then 1 else 0) + unfinished records

theorem owed_step (depth : Nat) (row : Event → Row) (d : Draft) (e : Event)
    (records : List Event) : (d.step depth row e).owed records = d.owed (e :: records) := by
  have htaken := taken_step depth row d e
  generalize d.step depth row e = d' at htaken
  cases htaken with
  | start hkind => simp [owed, unfinished, leavesUnfinished, Event.settles, Event.isEnd, hkind]
  | preOp hkind =>
    simp [owed, unfinished, leavesUnfinished, Event.settles, hkind, dropPre_eq, Nat.add_assoc]
  | copy hkind => simp [owed, unfinished, leavesUnfinished, Event.settles, Event.isEnd, hkind]
  | postOp hkind =>
    simp [owed, unfinished, leavesUnfinished, Event.settles, hkind, addOp_eq]
  | stop hend =>
    have hne := Event.kind_ne_of_isEnd hend
    simp [owed, unfinished, leavesUnfinished, Event.settles, hend, hne, addEnd_eq, dropPre_eq]
  | plain hrow hkind hend =>
    have hpre : e.kind ≠ .preOp := fun h => by simp [Event.hasRow, h] at hrow
    simp [owed, unfinished, leavesUnfinished, Event.settles, hend, hkind, hpre, push]

theorem owed_foldl (depth : Nat) (row : Event → Row) (d : Draft) (records : List Event) :
    (records.foldl (step depth row) d).owed [] = d.owed records := by
  induction records generalizing d with
  | nil => rfl
  | cons e records ih => rw [List.foldl_cons, ih, owed_step]

/-- What is pending in the end is given up then. -/
theorem dropped_dropPre (d : Draft) : d.dropPre.dropped = d.owed [] := by
  rw [dropPre_eq, owed, leavesUnfinished, unfinished, List.find?_nil, Option.all_none,
    Bool.and_true, Nat.add_zero]

end Draft

/-! ## Sessions -/

/-- What a session lays as its segment: a row for each record taken in that has one, and whether
    any records are left out. -/
def Lays (waypoints : Option Waypoints) (depth : Nat) (e : Entry) (next : Option Entry)
    (s : Segment) (taken : List Event) (part : List OpRow) : Prop :=
  ∃ rest, Consumed next e.session.records taken rest ∧ (s.truncated = true ↔ rest ≠ []) ∧
    List.Forall₂ (OpRow.Shows waypoints s) (taken.filter (·.hasRow depth)) part

/-- The records that the log takes in of each session of a chain. -/
def takenOf : List Entry → List (List Event)
  | [] => []
  | e :: chain => (cutBefore chain.head? e.session.records).1 :: takenOf chain

theorem length_takenOf (chain : List Entry) : (takenOf chain).length = chain.length := by
  induction chain with
  | nil => rfl
  | cons e chain ih => rw [takenOf, List.length_cons, List.length_cons, ih]

theorem getElem?_takenOf (chain : List Entry) (i : Nat) : (takenOf chain)[i]? =
    chain[i]?.map fun e => (cutBefore chain[i + 1]? e.session.records).1 := by
  induction chain generalizing i with
  | nil => rfl
  | cons e chain ih =>
    cases i with
    | zero =>
      rw [takenOf, List.getElem?_cons_zero, List.getElem?_cons_zero, List.getElem?_cons_succ,
        ← List.head?_eq_getElem?]
      rfl
    | succ i => exact ih i

/-- A session begins with no operation pending, and so does the next. -/
theorem addSegment_lays (waypoints : Option Waypoints) {d : Draft} (hpre : d.pre = none)
    (depth : Nat) (e : Entry) (next : Option Entry) :
    ∃ d' s part, addSegment waypoints d depth e next = (d', s) ∧ d'.pre = none ∧
      d'.rows = d.rows ++ part ∧
      d'.dropped = d.dropped + unfinished (cutBefore next e.session.records).1 ∧
      s.IsOf e depth ∧ s.start = d.rows.length ∧ s.length = part.length ∧
      Lays waypoints depth e next s (cutBefore next e.session.records).1 part := by
  have hconsumed := consumed_cutBefore next e.session.records
  generalize hcut : cutBefore next e.session.records = cut at hconsumed
  obtain ⟨taken, rest⟩ := cut
  let d' : Draft := taken.foldl (Draft.step depth (Row.ofEvent waypoints depth e)) d
  let s : Segment := ⟨e.id, e.mach, depth, d.rows.length, d'.dropPre.rows.length - d.rows.length,
    !rest.isEmpty⟩
  have hof : s.IsOf e depth := ⟨rfl, rfl, rfl⟩
  obtain ⟨part, hrows, hshows⟩ := Draft.rows_foldl waypoints hof d taken
  have hrows : d'.dropPre.rows = d.rows ++ part := by
    rw [Draft.dropPre_eq]
    exact hrows
  have howed : d'.owed [] = d.owed taken := Draft.owed_foldl depth _ d taken
  refine ⟨{ d'.dropPre with copy := none }, s, part, ?_, ?_, hrows, ?_, hof, rfl, ?_, rest,
    hconsumed, ?_, hshows⟩
  · rw [addSegment, hcut]
  · rw [Draft.dropPre_eq]
  · rw [Draft.dropped_dropPre, howed, Draft.owed, hpre]
    rfl
  · show d'.dropPre.rows.length - d.rows.length = part.length
    rw [hrows, List.length_append, Nat.add_sub_cancel_left]
  · cases rest <;> simp [s]

theorem laid_addChain (waypoints : Option Waypoints) {d : Draft} (hpre : d.pre = none)
    (depth : Nat) (chain : List Entry) :
    ∃ d' segments rows, addChain waypoints d depth chain = (d', segments) ∧
      d'.rows = d.rows ++ rows ∧
      d'.dropped = d.dropped + ((takenOf chain).map unfinished).sum ∧
      Segment.Laid (fun depth e next s => Lays waypoints depth e next s
        (cutBefore next e.session.records).1) d.rows.length depth chain segments rows := by
  induction chain generalizing d depth with
  | nil => exact ⟨d, [], [], rfl, (List.append_nil _).symm, rfl, .nil⟩
  | cons e chain ih =>
    obtain ⟨d', s, part, heq, hpre', hrows, hdropped, hof, hstart, hlen, hlays⟩ :=
      addSegment_lays waypoints hpre depth e chain.head?
    obtain ⟨d'', segments, rows, heq', hrows', hdropped', hlaid⟩ := ih hpre' (depth + 1)
    refine ⟨d'', s :: segments, part ++ rows, ?_, ?_, ?_, .cons hlays hof hstart hlen ?_⟩
    · rw [addChain, heq]
      simp only [heq']
    · rw [hrows', hrows, List.append_assoc]
    · rw [hdropped', hdropped, takenOf, List.map_cons, List.sum_cons, Nat.add_assoc]
    · rwa [hrows, List.length_append] at hlaid

theorem cover_ofChain (waypoints : Option Waypoints) (chain : List Entry) :
    Segment.Cover chain (ofChain waypoints chain).segments (ofChain waypoints chain).rows := by
  obtain ⟨d, segments, rows, heq, hrows, _, hlaid⟩ :=
    laid_addChain waypoints (d := .empty) rfl 0 chain
  have hrows : d.rows = rows := hrows
  rw [ofChain, heq]
  simp only [hrows]
  exact hlaid.cover

/-- The log shows the operations of the chain, `taken` being the records of each session that it
    takes in. -/
structure ShowsOperations (waypoints : Option Waypoints) (chain : List Entry)
    (taken : List (List Event)) (log : NormalizedLog) : Prop where
  cover : Segment.Cover chain log.segments log.rows
  length_taken : taken.length = chain.length
  segment : ∀ (depth : Nat) (e : Entry) (s : Segment) (records : List Event),
    chain[depth]? = some e → log.segments[depth]? = some s → taken[depth]? = some records →
      Lays waypoints depth e chain[depth + 1]? s records (s.rows log.rows)
  dropped : log.dropped = (taken.map unfinished).sum

/-- Every session whose chain exists has a normalized log that shows the operations of the chain;
    any other has the fault of its chain. -/
theorem assemble_showsOperations (x : Index) (waypoints : Option Waypoints) (id : String) :
    (∀ chain, x.chain id = .ok chain → ∃ log taken, assemble x waypoints id = .ok log ∧
      log.ShowsOperations waypoints chain taken) ∧
    ∀ fault, x.chain id = .error fault → assemble x waypoints id = .error fault := by
  refine ⟨fun chain h => ⟨ofChain waypoints chain, takenOf chain, by rw [assemble, h]; rfl, ?_⟩,
    fun fault h => by rw [assemble, h]; rfl⟩
  obtain ⟨d, segments, rows, heq, hrows, hdropped, hlaid⟩ :=
    laid_addChain waypoints (d := .empty) rfl 0 chain
  have hlog : ofChain waypoints chain = ⟨rows, d.spans.finish, segments, d.dropped⟩ := by
    rw [ofChain, heq]
    simp only [hrows]
    rfl
  rw [hlog]
  refine
    { cover := hlaid.cover
      length_taken := length_takenOf chain
      segment := fun depth e s records he hs hrecords => ?_
      dropped := hdropped.trans (Nat.zero_add _) }
  rw [getElem?_takenOf, he] at hrecords
  obtain rfl := Option.some.inj hrecords
  exact hlaid.part he hs

/-- A root that gives up two operations before it finishes the one during which it made the other
    session; that one gives up two as well, the first at the end of its machine. -/
def unfinishedSessions : List Session :=
  let copy : Event := { Event.ofKind .copy with extra := { Extra.empty with child := "1(1:2)" } }
  let stop : Event := { Event.ofKind .stop with action := "End" }
  [{ Session.ofId "1(0:1)" with
      records := [.ofKind .start, .ofKind .preOp, .ofKind .preOp, copy, .ofKind .other,
        .ofKind .preOp, .ofKind .postOp, .ofKind .preOp, copy, .ofKind .postOp] },
    { Session.ofId "1(1:2)" with
      parentId := "1(0:1)", values := "done",
      records := [.ofKind .start, .ofKind .preOp, stop, .ofKind .postOp, .ofKind .preOp] }]

theorem assemble_showsOperations_unfinishedSessions :
    ∃ chain log taken, (Index.ofTrace ⟨unfinishedSessions, []⟩).chain "1(1:2)" = .ok chain ∧
      chain.map Entry.id = ["1(0:1)", "1(1:2)"] ∧
      assemble (Index.ofTrace ⟨unfinishedSessions, []⟩)
        (some (.ofGoals (Index.ofTrace ⟨unfinishedSessions, []⟩) ["1(1:2)"])) "1(1:2)" = .ok log ∧
      log.dropped = 4 ∧ log.ShowsOperations
        (some (.ofGoals (Index.ofTrace ⟨unfinishedSessions, []⟩) ["1(1:2)"])) chain taken := by
  have hids : (((Index.ofTrace ⟨unfinishedSessions, []⟩).chain "1(1:2)").map fun chain =>
      chain.map Entry.id).toOption = some ["1(0:1)", "1(1:2)"] := by decide +kernel
  have hdropped : ((assemble (Index.ofTrace ⟨unfinishedSessions, []⟩)
      (some (.ofGoals (Index.ofTrace ⟨unfinishedSessions, []⟩) ["1(1:2)"])) "1(1:2)").map fun log =>
        log.dropped).toOption = some 4 := by decide +kernel
  obtain ⟨chain, hchain, hids⟩ := exists_ok_of_map hids
  obtain ⟨log, taken, hlog, hshows⟩ := (assemble_showsOperations _ _ "1(1:2)").1 chain hchain
  rw [hlog] at hdropped
  exact ⟨chain, log, taken, hchain, hids, hlog, Option.some.inj hdropped, hshows⟩

end NormalizedLog

end TraceExplorer
