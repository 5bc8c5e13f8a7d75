import TraceExplorer.Log.Raw
import TraceExplorer.Report.Lines
import TraceExplorer.Proofs.Log.Segments
import Mathlib.Algebra.GroupWithZero.Nat
import Mathlib.Data.List.Forall2
import Mathlib.Data.List.TakeDrop

/-
  The raw log of a session shows the records of its chain once. `Cut` says how far the records of
  a session go before the next one takes over: through the first copy that made it. Each session
  lays its records up to there behind those of the sessions above (`laid_addChain`), so the
  segments cover the rows (`assemble_showsOnce`), and so do the lines of text
  (`rowLines_sublist`).
-/

namespace TraceExplorer

namespace Report

/-- The lines of one row of a raw log. -/
def rawRowLines (colored : Bool) (r : Row) : List String :=
  rowLine colored (Text.repeated r.depth "  ") r :: noteLines "" r.event

theorem length_rawRowLines (colored : Bool) (r : Row) :
    (rawRowLines colored r).length = 1 + r.event.notes.length := by
  rw [rawRowLines, noteLines, List.length_cons, List.length_map, Nat.add_comm]

end Report

namespace RawLog

/-- `Cut next records shown`: the log shows `shown` of the records of a session before it goes on
    with `next`. -/
inductive Cut : Option Entry → List Event → List Event → Prop
  | last {records : List Event} : Cut none records records
  | copy {next : Entry} {before after : List Event} {e : Event}
      (hbefore : ∀ f ∈ before, f.copiesTo next.id = false) (he : e.copiesTo next.id = true) :
      Cut (some next) (before ++ e :: after) (before ++ [e])
  | whole {next : Entry} {records : List Event}
      (h : ∀ f ∈ records, f.copiesTo next.id = false) : Cut (some next) records records

theorem cut_take (e : Entry) (next : Option Entry) :
    Cut next e.session.records (e.session.records.take (cutLength e next)) := by
  unfold cutLength Session.firstCopyTo?
  cases next with
  | none =>
    rw [Option.bind_none, List.take_length]
    exact .last
  | some next =>
    rw [Option.bind_some]
    cases h : e.session.records.findIdx? (·.copiesTo next.id) with
    | none =>
      rw [List.take_length]
      exact .whole (List.findIdx?_eq_none_iff.1 h)
    | some i =>
      obtain ⟨hi, hcopy, hbefore⟩ := List.findIdx?_eq_some_iff_getElem.1 h
      have hsplit : e.session.records =
          e.session.records.take i ++ e.session.records[i] :: e.session.records.drop (i + 1) := by
        rw [List.getElem_cons_drop, List.take_append_drop]
      have hfront : ∀ f ∈ e.session.records.take i, f.copiesTo next.id = false := by
        intro f hf
        obtain ⟨j, hj, rfl⟩ := List.mem_take_iff_getElem.1 hf
        exact eq_false_of_ne_true (hbefore j (by omega))
      have hcut : Cut (some next) (e.session.records.take i ++ e.session.records[i] ::
          e.session.records.drop (i + 1)) (e.session.records.take i ++ [e.session.records[i]]) :=
        .copy hfront hcopy
      rw [← hsplit] at hcut
      rw [List.take_succ_eq_append_getElem hi]
      exact hcut

theorem cutLength_le (e : Entry) (next : Option Entry) :
    cutLength e next ≤ e.session.records.length := by
  unfold cutLength Session.firstCopyTo?
  split
  · rename_i i h
    obtain ⟨next, _, hnext⟩ := Option.bind_eq_some_iff.1 h
    exact (List.findIdx?_eq_some_iff_getElem.1 hnext).1
  · exact Nat.le_refl _

/-- What a session lays as its segment: the records up to the cut, each in a row of its own, and
    whether any are left out. -/
def Lays (waypoints : Option Waypoints) (e : Entry) (next : Option Entry) (s : Segment)
    (part : List Row) : Prop :=
  ∃ shown, Cut next e.session.records shown ∧ shown <+: e.session.records ∧
    (s.truncated = true ↔ shown ≠ e.session.records) ∧
    List.Forall₂ (Row.Shows waypoints s) shown part

/-- The rows of a session that copies the next one end with the copy. -/
theorem Lays.getLast?_copiesTo {waypoints : Option Waypoints} {e next : Entry} {s : Segment}
    {part : List Row} (h : Lays waypoints e (some next) s part)
    (hcopy : ∃ f ∈ e.session.records, f.copiesTo next.id = true) :
    ∃ row, part.getLast? = some row ∧ row.event.copiesTo next.id = true := by
  obtain ⟨shown, hcut, _, _, hshows⟩ := h
  obtain ⟨f, hf, hcopies⟩ := hcopy
  generalize e.session.records = records at hf hcut
  cases hcut with
  | whole hnone =>
    rw [hnone f hf] at hcopies
    cases hcopies
  | copy _ hevent =>
    have hrev := List.rel_reverse hshows
    rw [List.reverse_concat] at hrev
    cases hrows : part.reverse with
    | nil =>
      rw [hrows] at hrev
      cases hrev
    | cons row rest =>
      rw [hrows] at hrev
      obtain ⟨hrow, _⟩ := List.forall₂_cons.1 hrev
      refine ⟨row, ?_, ?_⟩
      · rw [List.getLast?_eq_head?_reverse, hrows]
        rfl
      · rw [hrow.event]
        exact hevent

theorem laid_addChain (waypoints : Option Waypoints) (log : RawLog) (depth : Nat)
    (chain : List Entry) :
    ∃ segments rows, addChain waypoints log depth chain =
        ⟨log.rows ++ rows, log.segments ++ segments⟩ ∧
      Segment.Laid (fun _ => Lays waypoints) log.rows.length depth chain segments rows := by
  induction chain generalizing log depth with
  | nil => exact ⟨[], [], by simp [addChain], .nil⟩
  | cons e chain ih =>
    obtain ⟨segments, rows, heq, hlaid⟩ := ih (log.addSegment waypoints depth e chain.head?)
      (depth + 1)
    let part := (e.session.records.take (cutLength e chain.head?)).map
      (Row.ofEvent waypoints depth e)
    let s : Segment := ⟨e.id, e.mach, depth, log.rows.length, cutLength e chain.head?,
      cutLength e chain.head? < e.session.records.length⟩
    have hof : s.IsOf e depth := ⟨rfl, rfl, rfl⟩
    have hlen : s.length = part.length := by
      have hle := cutLength_le e chain.head?
      rw [List.length_map, List.length_take, Nat.min_eq_left hle]
    refine ⟨s :: segments, part ++ rows, ?_, .cons ?_ hof rfl hlen ?_⟩
    · rw [addChain, heq]
      simp only [addSegment, List.append_assoc, List.singleton_append]
      rfl
    · refine ⟨_, cut_take e _, List.take_prefix _ _, ?_, ?_⟩
      · rw [decide_eq_true_iff, ne_eq, List.take_eq_self_iff, Nat.not_le]
      · refine List.forall₂_map_right_iff.2 (List.forall₂_same.2 fun event _ => ?_)
        exact hof.shows_ofEvent waypoints event
    · rwa [addSegment, List.length_append] at hlaid

theorem laid_ofChain (waypoints : Option Waypoints) (chain : List Entry) :
    ∃ segments rows, ofChain waypoints chain = ⟨rows, segments⟩ ∧
      Segment.Laid (fun _ => Lays waypoints) 0 0 chain segments rows := by
  obtain ⟨segments, rows, heq, hlaid⟩ := laid_addChain waypoints ⟨[], []⟩ 0 chain
  refine ⟨segments, rows, ?_, hlaid⟩
  rw [ofChain, heq]
  rfl

theorem cover_ofChain (waypoints : Option Waypoints) (chain : List Entry) :
    Segment.Cover chain (ofChain waypoints chain).segments (ofChain waypoints chain).rows := by
  obtain ⟨segments, rows, heq, hlaid⟩ := laid_ofChain waypoints chain
  rw [heq]
  exact hlaid.cover

/-- The log shows the records of the chain once. -/
structure ShowsOnce (waypoints : Option Waypoints) (chain : List Entry) (log : RawLog) :
    Prop where
  cover : Segment.Cover chain log.segments log.rows
  segment : ∀ (depth : Nat) (e : Entry) (s : Segment), chain[depth]? = some e →
    log.segments[depth]? = some s →
      Lays waypoints e chain[depth + 1]? s (log.segmentRows depth)
  /-- The text has the lines of every row in order, and one more line for each segment. -/
  lines : ∀ colored, (log.rows.flatMap (Report.rawRowLines colored)).Sublist
      (Report.rawLines colored log) ∧
    (Report.rawLines colored log).length =
      log.segments.length + (log.rows.map fun r => 1 + r.event.notes.length).sum

/-- Lines that follow a title each are the lines, in order, and the titles. -/
theorem flatMap_titled {α β : Type} (title : α → β) (body : α → List β) (l : List α) :
    (l.flatMap body).Sublist (l.flatMap fun a => title a :: body a) ∧
      (l.flatMap fun a => title a :: body a).length = l.length + (l.flatMap body).length := by
  induction l with
  | nil => exact ⟨List.Sublist.refl _, rfl⟩
  | cons a l ih =>
    simp only [List.flatMap_cons, List.length_append, List.length_cons]
    exact ⟨.append (List.sublist_cons_self _ _) ih.1, by omega⟩

theorem rowLines_sublist {chain : List Entry} {log : RawLog}
    (h : Segment.Cover chain log.segments log.rows) (colored : Bool) :
    (log.rows.flatMap (Report.rawRowLines colored)).Sublist (Report.rawLines colored log) ∧
      (Report.rawLines colored log).length =
        log.segments.length + (log.rows.map fun r => 1 + r.event.notes.length).sum := by
  have hlines : (log.rows.flatMap (Report.rawRowLines colored)).length =
      (log.rows.map fun r => 1 + r.event.notes.length).sum := by
    rw [List.length_flatMap, funext (Report.length_rawRowLines colored)]
  obtain ⟨hsub, hlength⟩ := flatMap_titled
    (fun s => Report.paint colored .dimmed (Report.segmentTitle s))
    (fun s : Segment => (s.rows log.rows).flatMap (Report.rawRowLines colored)) log.segments
  rw [← List.flatMap_assoc, h.rows] at hsub hlength
  rw [hlines] at hlength
  exact ⟨hsub, hlength⟩

/-- Every session whose chain exists has a raw log that shows the records of the chain once; any
    other has the fault of its chain. -/
theorem assemble_showsOnce (x : Index) (waypoints : Option Waypoints) (id : String) :
    (∀ chain, x.chain id = .ok chain →
      ∃ log, assemble x waypoints id = .ok log ∧ log.ShowsOnce waypoints chain) ∧
    ∀ fault, x.chain id = .error fault → assemble x waypoints id = .error fault := by
  refine ⟨fun chain h => ⟨ofChain waypoints chain, by rw [assemble, h]; rfl, ?_⟩, fun fault h => by
    rw [assemble, h]; rfl⟩
  obtain ⟨segments, rows, heq, hlaid⟩ := laid_addChain waypoints ⟨[], []⟩ 0 chain
  have hlog : ofChain waypoints chain = ⟨rows, segments⟩ := by
    rw [ofChain, heq]
    rfl
  rw [hlog]
  refine
    { cover := hlaid.cover
      segment := fun depth e s he hs => ?_
      lines := rowLines_sublist hlaid.cover }
  simp only [segmentRows, hs, Option.elim_some]
  exact hlaid.part he hs

/-- A root that makes one session twice and goes on, and that session. -/
def recopiedSessions : List Session :=
  let copy : Event := { Event.ofKind .copy with extra := { Extra.empty with child := "1(1:2)" } }
  [{ Session.ofId "1(0:1)" with
      records := [.ofKind .start, copy, .ofKind .postOp, copy, .ofKind .postOp] },
    { Session.ofId "1(1:2)" with
      parentId := "1(0:1)", values := "done", records := [.ofKind .start, .ofKind .stop] }]

theorem assemble_showsOnce_recopiedSessions :
    ∃ chain log, (Index.ofTrace ⟨recopiedSessions, []⟩).chain "1(1:2)" = .ok chain ∧
      chain.map Entry.id = ["1(0:1)", "1(1:2)"] ∧
      assemble (Index.ofTrace ⟨recopiedSessions, []⟩)
        (some (.ofGoals (Index.ofTrace ⟨recopiedSessions, []⟩) ["1(1:2)"])) "1(1:2)" = .ok log ∧
      log.ShowsOnce
        (some (.ofGoals (Index.ofTrace ⟨recopiedSessions, []⟩) ["1(1:2)"])) chain := by
  have hids : (((Index.ofTrace ⟨recopiedSessions, []⟩).chain "1(1:2)").map fun chain =>
      chain.map Entry.id).toOption = some ["1(0:1)", "1(1:2)"] := by decide +kernel
  obtain ⟨chain, hchain, hids⟩ := exists_ok_of_map hids
  obtain ⟨log, hlog, hshows⟩ := (assemble_showsOnce _ _ "1(1:2)").1 chain hchain
  exact ⟨chain, log, hchain, hids, hlog, hshows⟩

end RawLog

end TraceExplorer
