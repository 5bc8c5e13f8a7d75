import TraceExplorer.Log.Row
import TraceExplorer.Proofs.Fallible

/-
  Segments that cover the rows of a log. Each session of a chain lays its part of the rows behind
  the parts laid before (`Laid`). From there the segments lie end to end, they cover every row
  once (`Laid.cover`), and the rows of a segment are the part that its session laid
  (`Laid.part`).
-/

namespace TraceExplorer

/-- The row shows the event `e` in the segment `s`, and that it leads to a goal just if the
    machine has a waypoint which the event is not behind. -/
structure Row.Shows (waypoints : Option Waypoints) (s : Segment) (e : Event) (r : Row) :
    Prop where
  depth : r.depth = s.depth
  nodeId : r.nodeId = s.nodeId
  mach : r.mach = s.mach
  event : r.event = e
  onGoalPath : r.onGoalPath = true ↔
    ∃ ws w, waypoints = some ws ∧ ws.get? s.mach = some w ∧ e.count ≤ w.threshold

namespace Segment

/-- The segment is that of the session at `depth`. -/
structure IsOf (s : Segment) (e : Entry) (depth : Nat) : Prop where
  nodeId : s.nodeId = e.id
  mach : s.mach = e.mach
  depth : s.depth = depth

theorem IsOf.shows_ofEvent {s : Segment} {e : Entry} {depth : Nat} (h : s.IsOf e depth)
    (waypoints : Option Waypoints) (event : Event) :
    (Row.ofEvent waypoints depth e event).Shows waypoints s event where
  depth := h.depth.symm
  nodeId := h.nodeId.symm
  mach := h.mach.symm
  event := rfl
  onGoalPath := by
    rw [h.mach, Row.ofEvent]
    simp only [Waypoints.onPath, Waypoint.onPath, Option.any_eq_true, decide_eq_true_eq]
    constructor
    · rintro ⟨ws, hws, w, hw, hcount⟩
      exact ⟨ws, w, hws, hw, hcount⟩
    · rintro ⟨ws, w, hws, hw, hcount⟩
      exact ⟨ws, hws, w, hw, hcount⟩

/-- The segments lie end to end from row `lo` up to row `hi`. -/
def Tile (lo : Nat) : List Segment → Nat → Prop
  | [], hi => lo = hi
  | s :: segments, hi => s.start = lo ∧ Tile (lo + s.length) segments hi

theorem Tile.le {lo hi : Nat} {segments : List Segment} (h : Tile lo segments hi) : lo ≤ hi := by
  induction segments generalizing lo with
  | nil => exact Nat.le_of_eq h
  | cons s segments ih => exact Nat.le_trans (Nat.le_add_right _ _) (ih h.2)

/-- No segment reaches behind the last row. -/
theorem Tile.inside {lo hi : Nat} {segments : List Segment} (h : Tile lo segments hi) :
    ∀ s ∈ segments, s.start + s.length ≤ hi := by
  induction segments generalizing lo with
  | nil => simp
  | cons s segments ih =>
    intro t ht
    rcases List.mem_cons.1 ht with rfl | ht
    · rw [h.1]
      exact h.2.le
    · exact ih h.2 t ht

variable {ρ : Type}

/-- The segments of a log: one for each session of the chain, in order, and end to end over the
    rows, so that together they have every row once. -/
structure Cover (chain : List Entry) (segments : List Segment) (rows : List ρ) : Prop where
  length : segments.length = chain.length
  session : ∀ (depth : Nat) (e : Entry) (s : Segment), chain[depth]? = some e →
    segments[depth]? = some s → s.IsOf e depth
  tile : Tile 0 segments rows.length
  inside : ∀ s ∈ segments, s.start + s.length ≤ rows.length
  rows : segments.flatMap (·.rows rows) = rows

/-- The sessions of a chain, the first at `depth`, lay their parts end to end from row `start`.
    `P depth e next s part` says what `e`, followed by `next`, lays as its segment `s`. -/
inductive Laid (P : Nat → Entry → Option Entry → Segment → List ρ → Prop) :
    Nat → Nat → List Entry → List Segment → List ρ → Prop
  | nil {start depth : Nat} : Laid P start depth [] [] []
  | cons {start depth : Nat} {e : Entry} {chain : List Entry} {s : Segment}
      {segments : List Segment} {part rows : List ρ} (hpart : P depth e chain.head? s part)
      (hof : s.IsOf e depth) (hstart : s.start = start) (hlen : s.length = part.length)
      (hrest : Laid P (start + part.length) (depth + 1) chain segments rows) :
      Laid P start depth (e :: chain) (s :: segments) (part ++ rows)

theorem rows_of_append {s : Segment} {before part : List ρ} (hstart : s.start = before.length)
    (hlen : s.length = part.length) (after : List ρ) :
    s.rows (before ++ (part ++ after)) = part := by
  rw [Segment.rows, hstart, hlen, List.drop_left, List.take_left]

namespace Laid

variable {P : Nat → Entry → Option Entry → Segment → List ρ → Prop} {start depth : Nat}
  {chain : List Entry} {segments : List Segment} {rows : List ρ}

theorem length_eq (h : Laid P start depth chain segments rows) :
    segments.length = chain.length := by
  induction h with
  | nil => rfl
  | cons _ _ _ _ _ ih => rw [List.length_cons, List.length_cons, ih]

theorem tile (h : Laid P start depth chain segments rows) :
    Tile start segments (start + rows.length) := by
  induction h with
  | nil => rfl
  | @cons start _ _ _ _ _ part rows _ _ hstart hlen _ ih =>
    refine ⟨hstart, ?_⟩
    rw [hlen, List.length_append, ← Nat.add_assoc]
    exact ih

theorem isOf (h : Laid P start depth chain segments rows) {i : Nat} {e : Entry} {s : Segment}
    (he : chain[i]? = some e) (hs : segments[i]? = some s) : s.IsOf e (depth + i) := by
  induction h generalizing i with
  | nil => cases he
  | @cons _ depth _ _ _ _ _ _ _ hof _ _ _ ih =>
    cases i with
    | zero =>
      obtain rfl := Option.some.inj he
      obtain rfl := Option.some.inj hs
      exact hof
    | succ i =>
      rw [← Nat.add_assoc, Nat.add_right_comm]
      exact ih he hs

/-- The rows of a segment are what its session laid, whatever rows stand before. -/
theorem part_append (h : Laid P start depth chain segments rows) (before : List ρ)
    (hbefore : before.length = start) {i : Nat} {e : Entry} {s : Segment}
    (he : chain[i]? = some e) (hs : segments[i]? = some s) :
    P (depth + i) e chain[i + 1]? s (s.rows (before ++ rows)) := by
  induction h generalizing i before with
  | nil => cases he
  | @cons _ depth _ chain _ _ part rows hpart _ hstart hlen _ ih =>
    cases i with
    | zero =>
      obtain rfl := Option.some.inj he
      obtain rfl := Option.some.inj hs
      rw [rows_of_append (hstart.trans hbefore.symm) hlen, List.getElem?_cons_succ,
        ← List.head?_eq_getElem?]
      exact hpart
    | succ i =>
      rw [← List.append_assoc, ← Nat.add_assoc, Nat.add_right_comm]
      exact ih _ (by rw [List.length_append, hbefore]) he hs

theorem flatMap_rows (h : Laid P start depth chain segments rows) (before : List ρ)
    (hbefore : before.length = start) :
    segments.flatMap (·.rows (before ++ rows)) = rows := by
  induction h generalizing before with
  | nil => rfl
  | cons _ _ hstart hlen _ ih =>
    rw [List.flatMap_cons, rows_of_append (hstart.trans hbefore.symm) hlen, ← List.append_assoc,
      ih _ (by rw [List.length_append, hbefore])]

theorem cover (h : Laid P 0 0 chain segments rows) : Cover chain segments rows := by
  have htile : Tile 0 segments rows.length := Nat.zero_add rows.length ▸ h.tile
  exact
    { length := h.length_eq
      session := fun i _ _ he hs => Nat.zero_add i ▸ h.isOf he hs
      tile := htile
      inside := htile.inside
      rows := h.flatMap_rows [] rfl }

theorem part (h : Laid P 0 0 chain segments rows) {i : Nat} {e : Entry} {s : Segment}
    (he : chain[i]? = some e) (hs : segments[i]? = some s) :
    P i e chain[i + 1]? s (s.rows rows) := by
  have hpart := h.part_append [] rfl he hs
  rwa [Nat.zero_add] at hpart

end Laid

end Segment

end TraceExplorer
