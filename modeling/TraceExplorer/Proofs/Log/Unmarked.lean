import TraceExplorer.Log.Raw
import TraceExplorer.Proofs.Log.Normalized

/-
  Logs without the marks that say which rows lead to a goal. The waypoints go into the marks and
  nowhere else: with the marks taken off, a log is the one made without waypoints
  (`RawLog.unmarked_ofChain`, `NormalizedLog.unmarked_ofChain`). A draft never reads the mark of a
  row that it has, so taking the marks off can wait until the log is complete
  (`NormalizedLog.Draft.unmarked_step`).
-/

namespace TraceExplorer

def Row.unmarked (r : Row) : Row := { r with onGoalPath := false }

def OpRow.unmarked (r : OpRow) : OpRow := { r with onGoalPath := false }

theorem Row.unmarked_ofEvent (waypoints : Option Waypoints) (depth : Nat) (e : Entry)
    (event : Event) : (ofEvent waypoints depth e event).unmarked = ofEvent none depth e event := rfl

/-! ## Raw logs -/

namespace RawLog

def unmarked (log : RawLog) : RawLog := { log with rows := log.rows.map Row.unmarked }

theorem unmarked_addSegment (waypoints : Option Waypoints) (log : RawLog) (depth : Nat) (e : Entry)
    (next : Option Entry) : (log.addSegment waypoints depth e next).unmarked =
      log.unmarked.addSegment none depth e next := by
  unfold unmarked addSegment
  simp only [List.map_append, List.map_map, List.length_map]
  rfl

theorem unmarked_addChain (waypoints : Option Waypoints) (log : RawLog) (depth : Nat)
    (chain : List Entry) : (log.addChain waypoints depth chain).unmarked =
      log.unmarked.addChain none depth chain := by
  induction chain generalizing log depth with
  | nil => rfl
  | cons e chain ih => rw [addChain, ih, unmarked_addSegment, addChain]

theorem unmarked_ofChain (waypoints : Option Waypoints) (chain : List Entry) :
    (ofChain waypoints chain).unmarked = ofChain none chain :=
  unmarked_addChain waypoints ⟨[], []⟩ 0 chain

theorem map_unmarked_assemble (x : Index) (waypoints : Option Waypoints) (id : String) :
    (assemble x waypoints id).map unmarked = assemble x none id := by
  unfold assemble
  cases x.chain id with
  | error fault => rfl
  | ok chain => exact congrArg Except.ok (unmarked_ofChain waypoints chain)

end RawLog

/-! ## Normalized logs -/

namespace NormalizedLog

def unmarked (log : NormalizedLog) : NormalizedLog :=
  { log with rows := log.rows.map OpRow.unmarked }

namespace Draft

def unmarked (d : Draft) : Draft := { d with rows := d.rows.map OpRow.unmarked }

theorem unmarked_push (d : Draft) (row : Row) (indent : Nat) :
    (d.push row indent).unmarked = d.unmarked.push row.unmarked indent := by
  unfold unmarked push
  rw [List.map_append]
  rfl

theorem unmarked_closeSpans (d : Draft) (extra : Extra) :
    (d.closeSpans extra).unmarked = d.unmarked.closeSpans extra := by
  unfold closeSpans
  split
  · simp only [unmarked, List.length_map]
  · rfl

theorem unmarked_openSpan (d : Draft) (extra : Extra) :
    (d.openSpan extra).unmarked = d.unmarked.openSpan extra := by
  unfold openSpan
  split
  · simp only [unmarked, List.length_map]
  · rfl

theorem unmarked_dropPre (d : Draft) : d.dropPre.unmarked = d.unmarked.dropPre := by
  rw [dropPre_eq, dropPre_eq]
  rfl

theorem unmarked_addOp (d : Draft) (row : Event → Row) (op : Event) :
    (d.addOp row op).unmarked = d.unmarked.addOp (fun event => (row event).unmarked) op := by
  unfold addOp
  simp only
  rw [unmarked_push, unmarked_openSpan, unmarked_closeSpans, ← unmarked_closeSpans]
  rfl

theorem unmarked_addEnd (d : Draft) (row : Event → Row) (stop : Event) :
    (d.addEnd row stop).unmarked = d.unmarked.addEnd (fun event => (row event).unmarked) stop := by
  have hopen : d.openPre.unmarked = d.unmarked.openPre := by
    obtain ⟨rows, spans, dropped, pre, copy⟩ := d
    cases pre with
    | none => rfl
    | some pre => exact unmarked_openSpan _ pre.extra
  have hspans : d.openPre.spans = d.unmarked.openPre.spans := by
    rw [← hopen]
    rfl
  rw [addEnd_eq, addEnd_eq, hspans, dropPre_eq, dropPre_eq]
  simp only [unmarked, List.map_append, List.length_map]
  rfl

theorem unmarked_step (depth : Nat) (row : Event → Row) (d : Draft) (e : Event) :
    (d.step depth row e).unmarked =
      d.unmarked.step depth (fun event => (row event).unmarked) e := by
  unfold step
  cases e.kind with
  | start =>
    simp only
    split
    · exact unmarked_push d (row e) _
    · rfl
  | preOp => exact congrArg (fun d : Draft => { d with pre := some e }) (unmarked_dropPre d)
  | copy => rfl
  | postOp => exact unmarked_addOp _ row _
  | stop | other =>
    simp only
    split
    · exact unmarked_addEnd d row e
    · exact unmarked_push d (row e) _

theorem unmarked_foldl (depth : Nat) (row : Event → Row) (d : Draft) (records : List Event) :
    (records.foldl (step depth row) d).unmarked =
      records.foldl (step depth fun event => (row event).unmarked) d.unmarked := by
  induction records generalizing d with
  | nil => rfl
  | cons e records ih => rw [List.foldl_cons, ih, unmarked_step, List.foldl_cons]

end Draft

theorem unmarked_addSegment (waypoints : Option Waypoints) (d : Draft) (depth : Nat) (e : Entry)
    (next : Option Entry) :
    (addSegment waypoints d depth e next).1.unmarked =
        (addSegment none d.unmarked depth e next).1 ∧
      (addSegment waypoints d depth e next).2 = (addSegment none d.unmarked depth e next).2 := by
  unfold addSegment
  simp only
  generalize cutBefore next e.session.records = cut
  obtain ⟨records, rest⟩ := cut
  have hfold := Draft.unmarked_foldl depth (Row.ofEvent waypoints depth e) d records
  have hrow : (fun event => (Row.ofEvent waypoints depth e event).unmarked) =
      Row.ofEvent none depth e := funext fun event => Row.unmarked_ofEvent waypoints depth e event
  rw [hrow] at hfold
  rw [← hfold, ← Draft.unmarked_dropPre]
  refine ⟨rfl, ?_⟩
  simp only [Draft.unmarked, List.length_map]

theorem unmarked_addChain (waypoints : Option Waypoints) (d : Draft) (depth : Nat)
    (chain : List Entry) :
    (addChain waypoints d depth chain).1.unmarked = (addChain none d.unmarked depth chain).1 ∧
      (addChain waypoints d depth chain).2 = (addChain none d.unmarked depth chain).2 := by
  induction chain generalizing d depth with
  | nil => exact ⟨rfl, rfl⟩
  | cons e chain ih =>
    obtain ⟨hdraft, hsegment⟩ := unmarked_addSegment waypoints d depth e chain.head?
    obtain ⟨hrest, hsegments⟩ := ih (addSegment waypoints d depth e chain.head?).1 (depth + 1)
    rw [hdraft] at hrest hsegments
    exact ⟨hrest, List.cons_eq_cons.2 ⟨hsegment, hsegments⟩⟩

theorem unmarked_ofChain (waypoints : Option Waypoints) (chain : List Entry) :
    (ofChain waypoints chain).unmarked = ofChain none chain := by
  obtain ⟨hdraft, hsegments⟩ := unmarked_addChain waypoints .empty 0 chain
  have hempty : Draft.empty.unmarked = .empty := rfl
  rw [hempty] at hdraft hsegments
  unfold ofChain
  simp only
  rw [← hdraft, ← hsegments]
  rfl

theorem map_unmarked_assemble (x : Index) (waypoints : Option Waypoints) (id : String) :
    (assemble x waypoints id).map unmarked = assemble x none id := by
  unfold assemble
  cases x.chain id with
  | error fault => rfl
  | ok chain => exact congrArg Except.ok (unmarked_ofChain waypoints chain)

end NormalizedLog

end TraceExplorer
