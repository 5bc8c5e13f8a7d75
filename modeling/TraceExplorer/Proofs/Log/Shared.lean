import TraceExplorer.Explorer.Basic
import TraceExplorer.Proofs.Index.Walk
import TraceExplorer.Proofs.Log.Indent
import TraceExplorer.Proofs.Log.Raw
import TraceExplorer.Proofs.Log.Unmarked
import TraceExplorer.Proofs.Span.Later

/-
  What the logs of two sessions share if their chains begin alike. A segment depends on its
  session, the next one and what was laid before, so the logs agree up to the session where the
  chains part (`addChain_append`). What comes behind adds rows and leaves those before as they
  are; it may close spans that are open there, and opens spans at rows of its own
  (`Draft.Extends.step`). So the logs differ in the ends of the spans that are open where the
  chains part, and in none that was closed before.
-/

open TraceExplorer.Span TraceExplorer.Span.Builder

namespace TraceExplorer

/-- Lists with one front and one element behind it are the same, or go on from there. -/
theorem exists_front {α : Type} {l l' : List α} {k : Nat} (h : l.take (k + 1) = l'.take (k + 1)) :
    l = l' ∨ ∃ front rest rest', front.length = k ∧ l = front ++ rest ∧ l' = front ++ rest' ∧
      rest.head? = rest'.head? := by
  rcases Nat.lt_or_ge k l.length with hk | hk
  · right
    have hfront : l'.take k = l.take k := by
      have hle : min k (k + 1) = k := by omega
      rw [← hle, ← List.take_take, ← List.take_take, h]
    have hhead : l[k]? = l'[k]? := by
      rw [← List.getElem?_take_of_lt (Nat.lt_succ_self k), h,
        List.getElem?_take_of_lt (Nat.lt_succ_self k)]
    refine ⟨l.take k, l.drop k, l'.drop k, ?_, (List.take_append_drop k l).symm, ?_, ?_⟩
    · rw [List.length_take]
      omega
    · rw [← hfront, List.take_append_drop]
    · rw [List.head?_drop, List.head?_drop, hhead]
  · left
    have hlen := congrArg List.length h
    rw [List.length_take, List.length_take] at hlen
    rwa [List.take_of_length_le (by omega), List.take_of_length_le (by omega)] at h

namespace Segment

/-- The row is in one of the segments. -/
def Hold (segments : List Segment) (row : Nat) : Prop :=
  ∃ s ∈ segments, s.start ≤ row ∧ row < s.start + s.length

/-- No segment reaches behind the rows. -/
def Within (segments : List Segment) (length : Nat) : Prop :=
  ∀ s ∈ segments, s.start + s.length ≤ length

theorem Within.lt {segments : List Segment} {length row : Nat} (h : Within segments length)
    (hrow : Hold segments row) : row < length := by
  obtain ⟨s, hs, _, hlt⟩ := hrow
  have := h s hs
  omega

theorem Within.rows_append {ρ : Type} {segments : List Segment} {rows : List ρ}
    (h : Within segments rows.length) {s : Segment} (hs : s ∈ segments) (more : List ρ) :
    s.rows (rows ++ more) = s.rows rows := by
  have hle := h s hs
  have hlen : s.length ≤ (rows.drop s.start).length := by
    rw [List.length_drop]
    omega
  rw [Segment.rows, List.drop_append_of_le_length (by omega), List.take_append_of_le_length hlen,
    Segment.rows]

end Segment

/-! ## Raw logs -/

namespace RawLog

/-- The first `k` segments of the logs are the same, and so are their rows. -/
structure AgreeUpTo (k : Nat) (a b : RawLog) : Prop where
  segments : a.segments.take k = b.segments.take k
  rows : ∀ s ∈ a.segments.take k, s.rows a.rows = s.rows b.rows

/-- Adds the segments of consecutive sessions with `next` behind them. -/
def addFront (waypoints : Option Waypoints) (next : Option Entry) (log : RawLog) (depth : Nat) :
    List Entry → RawLog
  | [] => log
  | e :: rest =>
    addFront waypoints next (log.addSegment waypoints depth e (rest.head?.or next)) (depth + 1) rest

variable {waypoints : Option Waypoints}

theorem addChain_append (log : RawLog) (depth : Nat) (front rest : List Entry) :
    log.addChain waypoints depth (front ++ rest) =
      (addFront waypoints rest.head? log depth front).addChain waypoints (depth + front.length)
        rest := by
  induction front generalizing log depth with
  | nil => rfl
  | cons e front ih =>
    rw [List.cons_append, addChain, addFront, ih, List.head?_append, List.length_cons,
      Nat.add_right_comm, Nat.add_assoc]

theorem within_addFront (next : Option Entry) (log : RawLog) (depth : Nat) (front : List Entry)
    (h : Segment.Within log.segments log.rows.length) :
    Segment.Within (addFront waypoints next log depth front).segments
        (addFront waypoints next log depth front).rows.length ∧
      (addFront waypoints next log depth front).segments.length =
        log.segments.length + front.length := by
  induction front generalizing log depth with
  | nil => exact ⟨h, rfl⟩
  | cons e front ih =>
    have hcut := cutLength_le e (front.head?.or next)
    have hwithin : Segment.Within (log.addSegment waypoints depth e (front.head?.or next)).segments
        (log.addSegment waypoints depth e (front.head?.or next)).rows.length := by
      intro s hs
      simp only [addSegment, List.length_append, List.length_map, List.length_take] at hs ⊢
      rcases List.mem_append.1 hs with hs | hs
      · have := h s hs
        omega
      · rw [List.mem_singleton.1 hs]
        simp only
        omega
    obtain ⟨hends, hlen⟩ := ih _ (depth + 1) hwithin
    refine ⟨hends, ?_⟩
    rw [addFront, hlen, addSegment, List.length_append, List.length_singleton, List.length_cons]
    omega

theorem agreeUpTo_append (front : List Entry) {rest rest' : List Entry}
    (h : rest.head? = rest'.head?) :
    AgreeUpTo front.length (ofChain none (front ++ rest)) (ofChain none (front ++ rest')) := by
  have hempty : Segment.Within [] 0 := fun _ hs => by cases hs
  unfold ofChain
  rw [addChain_append, addChain_append, h]
  obtain ⟨hwithin, hlen⟩ := @within_addFront none rest'.head? ⟨[], []⟩ 0 front hempty
  generalize addFront none rest'.head? ⟨[], []⟩ 0 front = log at hwithin hlen ⊢
  have hlen : front.length = log.segments.length := by rw [hlen, List.length_nil, Nat.zero_add]
  obtain ⟨segments, rows, heq, _⟩ := laid_addChain none log (0 + front.length) rest
  obtain ⟨segments', rows', heq', _⟩ := laid_addChain none log (0 + front.length) rest'
  rw [heq, heq', hlen]
  refine ⟨by rw [List.take_left, List.take_left], fun s hs => ?_⟩
  rw [List.take_left] at hs
  rw [hwithin.rows_append hs, hwithin.rows_append hs]

theorem agreeUpTo_ofChain {chain chain' : List Entry} {k : Nat}
    (h : chain.take (k + 1) = chain'.take (k + 1)) :
    AgreeUpTo k (ofChain none chain) (ofChain none chain') := by
  rcases exists_front h with rfl | ⟨front, rest, rest', rfl, rfl, rfl, hnext⟩
  · exact ⟨rfl, fun _ _ => rfl⟩
  · exact agreeUpTo_append front hnext

end RawLog

/-! ## What comes behind a draft -/

namespace NormalizedLog

/-- The draft `d` goes on from `b`: it has more rows, and its spans are those of `b` after later
    actions. -/
structure Draft.Extends (b d : Draft) : Prop where
  rows : b.rows <+: d.rows
  nested : d.spans.Nested d.rows.length
  spans : Later b.rows.length b.spans d.spans

namespace Draft.Extends

variable {b d : Draft} {row : Event → Row}

theorem refl (h : b.spans.Nested b.rows.length) : b.Extends b where
  rows := List.prefix_refl _
  nested := h
  spans := .refl _ _

theorem act (h : b.Extends d) {a : Action} (ha : a.row = d.rows.length) :
    b.Extends { d with spans := d.spans.act a } where
  rows := h.rows
  nested := ha ▸ h.nested.act (Nat.le_of_eq ha.symm)
  spans := h.spans.act h.nested (by rw [ha]; exact h.rows.length_le)

/-- Only rows and spans matter. -/
theorem of_eq {d' : Draft} (h : b.Extends d) (hrows : d'.rows = d.rows)
    (hspans : d'.spans = d.spans) : b.Extends d' where
  rows := hrows ▸ h.rows
  nested := by
    rw [hrows, hspans]
    exact h.nested
  spans := hspans ▸ h.spans

theorem dropPre (h : b.Extends d) : b.Extends d.dropPre := by
  rw [dropPre_eq]
  exact h.of_eq rfl rfl

theorem push (h : b.Extends d) (r : Row) (indent : Nat) : b.Extends (d.push r indent) where
  rows := h.rows.trans (List.prefix_append _ _)
  nested := h.nested.mono (by simp [Draft.push])
  spans := h.spans

theorem closeSpans (h : b.Extends d) (extra : Extra) : b.Extends (d.closeSpans extra) := by
  unfold Draft.closeSpans
  split
  · rename_i m _
    exact h.act (a := .close (m.resolve extra.labels) d.rows.length) rfl
  · exact h

theorem openSpan (h : b.Extends d) (extra : Extra) : b.Extends (d.openSpan extra) := by
  unfold Draft.openSpan
  split
  · rename_i m _
    exact h.act (a := .enter (m.resolve extra.labels) d.rows.length) rfl
  · exact h

theorem addEnd (h : b.Extends d) (stop : Event) : b.Extends (d.addEnd row stop) := by
  have hopen : b.Extends d.openPre := by
    unfold openPre
    cases d.pre with
    | none => exact h
    | some pre => exact h.openSpan pre.extra
  exact (hopen.dropPre.act (a := .closeAll d.openPre.dropPre.rows.length) rfl).push (row stop) 0

theorem step (h : b.Extends d) (depth : Nat) (e : Event) : b.Extends (d.step depth row e) := by
  have htaken := taken_step depth row d e
  generalize d.step depth row e = d' at htaken
  cases htaken with
  | start => exact h
  | preOp => exact h.dropPre.of_eq rfl rfl
  | copy => exact h.of_eq rfl rfl
  | postOp =>
    have hpost : b.Extends { d with pre := none, copy := none } := h.of_eq rfl rfl
    exact ((hpost.closeSpans _).openSpan _).push _ _
  | stop => exact h.addEnd e
  | plain => exact h.push _ _

theorem foldl (h : b.Extends d) (depth : Nat) (records : List Event) :
    b.Extends (records.foldl (Draft.step depth row) d) := by
  induction records generalizing d with
  | nil => exact h
  | cons e records ih => exact ih (h.step depth e)

theorem addSegment (waypoints : Option Waypoints) (h : b.Extends d) (depth : Nat) (e : Entry)
    (next : Option Entry) : b.Extends (addSegment waypoints d depth e next).1 :=
  ((h.foldl depth _).dropPre).of_eq rfl rfl

theorem addChain (waypoints : Option Waypoints) (h : b.Extends d) (depth : Nat)
    (chain : List Entry) : b.Extends (addChain waypoints d depth chain).1 := by
  induction chain generalizing d depth with
  | nil => exact h
  | cons e chain ih => exact ih (h.addSegment waypoints depth e chain.head?) (depth + 1)

end Draft.Extends

/-! ## Normalized logs -/

/-- The first `k` segments of the logs are the same, and so are their rows, the spans that are
    opened in them, and which row of them closes each of these spans. -/
structure AgreeUpTo (k : Nat) (a b : NormalizedLog) : Prop where
  segments : a.segments.take k = b.segments.take k
  rows : ∀ s ∈ a.segments.take k, s.rows a.rows = s.rows b.rows
  opened : ∀ n label start, Segment.Hold (a.segments.take k) start →
    ((∃ s, a.spans.span? n = some s ∧ s.label = label ∧ s.start = start) ↔
      ∃ s, b.spans.span? n = some s ∧ s.label = label ∧ s.start = start)
  closed : ∀ n s t, a.spans.span? n = some s → b.spans.span? n = some t →
    Segment.Hold (a.segments.take k) s.start → ∀ close, Segment.Hold (a.segments.take k) close →
      (s.ClosedBy (endsFirst a.rows) close ↔ t.ClosedBy (endsFirst b.rows) close)

/-- Adds the rows of consecutive sessions with `next` behind them. -/
def addFront (waypoints : Option Waypoints) (next : Option Entry) (d : Draft) (depth : Nat) :
    List Entry → Draft × List Segment
  | [] => (d, [])
  | e :: rest =>
    let (d, segment) := addSegment waypoints d depth e (rest.head?.or next)
    let (d, segments) := addFront waypoints next d (depth + 1) rest
    (d, segment :: segments)

variable {waypoints : Option Waypoints} {d : Draft}

theorem addChain_append (d : Draft) (depth : Nat) (front rest : List Entry) :
    addChain waypoints d depth (front ++ rest) =
      ((addChain waypoints (addFront waypoints rest.head? d depth front).1 (depth + front.length)
          rest).1,
        (addFront waypoints rest.head? d depth front).2 ++
          (addChain waypoints (addFront waypoints rest.head? d depth front).1
            (depth + front.length) rest).2) := by
  induction front generalizing d depth with
  | nil => rfl
  | cons e front ih =>
    simp only [List.cons_append, addChain, addFront, List.head?_append, List.length_cons]
    rw [ih, Nat.add_right_comm, Nat.add_assoc]

/-- The segment of a session ends where its rows do. -/
theorem end_addSegment (depth : Nat) (e : Entry) (next : Option Entry)
    (h : d.rows.length ≤ (addSegment waypoints d depth e next).1.rows.length) :
    (addSegment waypoints d depth e next).2.start + (addSegment waypoints d depth e next).2.length =
      (addSegment waypoints d depth e next).1.rows.length :=
  Nat.add_sub_cancel' h

/-- The draft of a front, and where its segments end. -/
theorem indents_addFront {Begun : Event → Prop} (waypoints : Option Waypoints)
    (hbegun : ∀ e, Begun e) (next : Option Entry) (h : d.Indents Begun) (depth : Nat)
    (front : List Entry) :
    (addFront waypoints next d depth front).1.Indents Begun ∧
      d.rows <+: (addFront waypoints next d depth front).1.rows ∧
      Segment.Within (addFront waypoints next d depth front).2
        (addFront waypoints next d depth front).1.rows.length ∧
      (addFront waypoints next d depth front).2.length = front.length := by
  induction front generalizing d depth with
  | nil => exact ⟨h, List.prefix_refl _, fun _ hs => by (cases hs), rfl⟩
  | cons e front ih =>
    have hfirst := indents_addSegment waypoints h depth (e := e) (front.head?.or next)
      fun event _ _ => hbegun event
    have hrows := ((Draft.Extends.refl h.rows.nested).addSegment waypoints depth e
      (front.head?.or next)).rows
    have hend := end_addSegment depth e (front.head?.or next) hrows.length_le
    obtain ⟨hindents, hprefix, hwithin, hlen⟩ := ih hfirst (depth + 1)
    refine ⟨hindents, hrows.trans hprefix, fun s hs => ?_, congrArg Nat.succ hlen⟩
    rcases List.mem_cons.1 hs with heq | hs
    · rw [heq]
      exact Nat.le_trans (Nat.le_of_eq hend) hprefix.length_le
    · exact hwithin s hs

/-! ## Spans that chains share -/

section

variable {Begun : Event → Prop} {b : Draft} (hb : b.Indents Begun) (h : b.Extends d)

include h in
/-- The spans opened so far are the same in every draft that goes on from here. -/
theorem opened_iff (n : Nat) (label : String) {start : Nat} (hstart : start < b.rows.length) :
    (∃ s, d.spans.finish.span? n = some s ∧ s.label = label ∧ s.start = start) ↔
      ∃ s, b.spans.hung[n]? = some s ∧ s.label = label ∧ s.start = start := by
  rw [span?_finish]
  constructor
  · rintro ⟨t, ht, rfl, rfl⟩
    obtain ⟨u, hu, rfl⟩ := Option.map_eq_some_iff.1 ht
    cases hs : b.spans.hung[n]? with
    | none =>
      have hle : b.rows.length ≤ u.start := h.spans.opened n u hs hu
      exact absurd hstart (Nat.not_lt.2 hle)
    | some s =>
      obtain ⟨last, hlast, _⟩ := h.spans.kept n s hs
      obtain rfl := Option.some.inj (hlast.symm.trans hu)
      exact ⟨s, rfl, rfl, rfl⟩
  · rintro ⟨s, hs, rfl, rfl⟩
    obtain ⟨last, hlast, _⟩ := h.spans.kept n s hs
    rw [hlast]
    exact ⟨_, rfl, rfl, rfl⟩

include hb h in
/-- Which row so far closed a span is the same in every draft that goes on from here. -/
theorem closedBy_finish_iff {n : Nat} {s t : Span} (hs : b.spans.hung[n]? = some s)
    (ht : d.spans.finish.span? n = some t) {close : Nat} (hclose : close < b.rows.length) :
    t.ClosedBy (endsFirst d.rows) close ↔ s.ClosedBy (endsFirst b.rows) close := by
  obtain ⟨more, hrows⟩ := h.rows
  rw [span?_finish] at ht
  obtain ⟨u, hu, rfl⟩ := Option.map_eq_some_iff.1 ht
  rw [← hrows, endsFirst_append (by omega),
    ← h.spans.closedBy_iff hb.rows.mem_stack hs hu hclose]
  exact ⟨fun hclosed => ⟨hclosed.last, hclosed.void⟩, fun hclosed => ⟨hclosed.last, hclosed.void⟩⟩

end

theorem agreeUpTo_append (front : List Entry) {rest rest' : List Entry}
    (hnext : rest.head? = rest'.head?) :
    AgreeUpTo front.length (ofChain none (front ++ rest)) (ofChain none (front ++ rest')) := by
  have hempty : Draft.empty.Indents fun _ => True := ⟨indents_empty, fun _ _ => trivial⟩
  obtain ⟨hindents, _, hwithin, hlen⟩ :=
    indents_addFront none (fun _ => trivial) rest'.head? hempty 0 front
  unfold ofChain
  rw [addChain_append, addChain_append, hnext]
  generalize addFront none rest'.head? .empty 0 front = first at hindents hwithin hlen ⊢
  obtain ⟨b, segments⟩ := first
  have hextends : ∀ rest, b.Extends (addChain none b (0 + front.length) rest).1 := fun rest =>
    (Draft.Extends.refl hindents.rows.nested).addChain none (0 + front.length) rest
  have htake : ∀ more, (segments ++ more).take front.length = segments := fun more => by
    rw [← hlen, List.take_left]
  have hrows : ∀ rest, ∀ s ∈ segments,
      s.rows (addChain none b (0 + front.length) rest).1.rows = s.rows b.rows := by
    intro rest s hs
    obtain ⟨more, hmore⟩ := (hextends rest).rows
    rw [← hmore]
    exact hwithin.rows_append hs more
  refine
    { segments := by simp only [htake]
      rows := fun s hs => ?_
      opened := fun n label start hstart => ?_
      closed := fun n s t hs ht hstart close hclose => ?_ }
  · simp only [htake] at hs
    simp only [hrows _ s hs]
  · simp only [htake] at hstart
    have hlt := hwithin.lt hstart
    rw [opened_iff (hextends rest) n label hlt, opened_iff (hextends rest') n label hlt]
  · simp only [htake] at hstart hclose
    obtain ⟨u, hu, _⟩ := (opened_iff (hextends rest) n s.label (hwithin.lt hstart)).1
      ⟨s, hs, rfl, rfl⟩
    rw [closedBy_finish_iff hindents (hextends rest) hu hs (hwithin.lt hclose),
      closedBy_finish_iff hindents (hextends rest') hu ht (hwithin.lt hclose)]

theorem agreeUpTo_ofChain {chain chain' : List Entry} {k : Nat}
    (h : chain.take (k + 1) = chain'.take (k + 1)) :
    AgreeUpTo k (ofChain none chain) (ofChain none chain') := by
  rcases exists_front h with rfl | ⟨front, rest, rest', rfl, rfl, rfl, hnext⟩
  · refine ⟨rfl, fun _ _ => rfl, fun _ _ _ _ => Iff.rfl, fun n s t hs ht _ _ _ => ?_⟩
    rw [Option.some.inj (hs.symm.trans ht)]
  · exact agreeUpTo_append front hnext

end NormalizedLog

/-! ## Logs of sessions -/

/-- Sessions of an index are told by their identifiers. -/
theorem Index.eq_of_map_id {x : Index} {l l' : List Entry} (h : ∀ e ∈ l, e ∈ x.entries)
    (h' : ∀ e ∈ l', e ∈ x.entries) (hids : l.map Entry.id = l'.map Entry.id) : l = l' := by
  have hget : ∀ l : List Entry, (∀ e ∈ l, e ∈ x.entries) →
      (l.map Entry.id).filterMap x.get? = l := by
    intro l hl
    rw [List.filterMap_map]
    exact (List.filterMap_congr fun e he => get?_id (hl e he)).trans List.filterMap_some
  rw [← hget l h, ← hget l' h', hids]

def NodeLog.unmarked : NodeLog → NodeLog
  | .raw log => .raw log.unmarked
  | .normalized log => .normalized log.unmarked

/-- Whatever run is active, the log of a session is the same but for its marks. -/
theorem Explorer.map_unmarked_log {a b : Explorer} (h : a.index = b.index) (id : String)
    (raw : Bool) : (a.log id raw).map NodeLog.unmarked = (b.log id raw).map NodeLog.unmarked := by
  unfold Explorer.log
  cases raw with
  | true =>
    have hlog : (a.rawLog id).map RawLog.unmarked = (b.rawLog id).map RawLog.unmarked := by
      rw [rawLog, rawLog, RawLog.map_unmarked_assemble, RawLog.map_unmarked_assemble, h]
    have hmap : ∀ r : Except Fault RawLog, (r.map .raw).map NodeLog.unmarked =
        (r.map RawLog.unmarked).map .raw := fun r => by cases r <;> rfl
    rw [if_pos rfl, if_pos rfl, hmap, hmap, hlog]
  | false =>
    have hlog : (a.normalizedLog id).map NormalizedLog.unmarked =
        (b.normalizedLog id).map NormalizedLog.unmarked := by
      rw [normalizedLog, normalizedLog, NormalizedLog.map_unmarked_assemble,
        NormalizedLog.map_unmarked_assemble, h]
    have hmap : ∀ r : Except Fault NormalizedLog, (r.map .normalized).map NodeLog.unmarked =
        (r.map NormalizedLog.unmarked).map .normalized := fun r => by cases r <;> rfl
    rw [if_neg Bool.false_ne_true, if_neg Bool.false_ne_true, hmap, hmap, hlog]

/-- Logs of sessions whose chains have `k + 1` sessions in common agree on the first `k` of them,
    whatever goals mark them. -/
theorem Index.logs_agreeUpTo {x : Index} {id id' : String} {chain chain' : List Entry} {k : Nat}
    (h : x.chain id = .ok chain) (h' : x.chain id' = .ok chain')
    (hshared : chain.take (k + 1) = chain'.take (k + 1)) (waypoints waypoints' : Option Waypoints) :
    (∃ a b, RawLog.assemble x waypoints id = .ok a ∧ RawLog.assemble x waypoints' id' = .ok b ∧
        a.unmarked.AgreeUpTo k b.unmarked) ∧
      (∃ a b, NormalizedLog.assemble x waypoints id = .ok a ∧
        NormalizedLog.assemble x waypoints' id' = .ok b ∧ a.unmarked.AgreeUpTo k b.unmarked) ∧
      ∀ a b : Explorer, a.index = x → b.index = x → ∀ other raw,
        (a.log other raw).map NodeLog.unmarked = (b.log other raw).map NodeLog.unmarked := by
  refine ⟨⟨RawLog.ofChain waypoints chain, RawLog.ofChain waypoints' chain', ?_, ?_, ?_⟩,
    ⟨NormalizedLog.ofChain waypoints chain, NormalizedLog.ofChain waypoints' chain', ?_, ?_, ?_⟩,
    fun a b ha hb => Explorer.map_unmarked_log (ha.trans hb.symm)⟩
  · rw [RawLog.assemble, h]
    rfl
  · rw [RawLog.assemble, h']
    rfl
  · rw [RawLog.unmarked_ofChain, RawLog.unmarked_ofChain]
    exact RawLog.agreeUpTo_ofChain hshared
  · rw [NormalizedLog.assemble, h]
    rfl
  · rw [NormalizedLog.assemble, h']
    rfl
  · rw [NormalizedLog.unmarked_ofChain, NormalizedLog.unmarked_ofChain]
    exact NormalizedLog.agreeUpTo_ofChain hshared

/-- A root that opens two spans and closes the inner one, and a child that makes one session
    before it closes the outer span and another one behind. -/
def partingSessions : List Session :=
  let opening (label : String) : Event :=
    { Event.ofKind .preOp with extra := { Extra.empty with spanOpen := some (.labels [label]) } }
  let closing (label : String) : Event :=
    { Event.ofKind .preOp with extra := { Extra.empty with spanClose := some (.labels [label]) } }
  let copy (child : String) : Event :=
    { Event.ofKind .copy with extra := { Extra.empty with child } }
  let op : Event := .ofKind .postOp
  [{ Session.ofId "1(0:1)" with
      records := [opening "outer", op, opening "inner", op, closing "inner", op, copy "1(1:2)",
        op] },
    { Session.ofId "1(1:2)" with
      parentId := "1(0:1)",
      records := [copy "1(1:3)", op, closing "outer", op, copy "1(2:4)", op] },
    { Session.ofId "1(1:3)" with parentId := "1(1:2)", values := "x", records := [op] },
    { Session.ofId "1(2:4)" with parentId := "1(1:2)", values := "y", records := [op] }]

/-- The outer span is closed in one of the logs, by a row that the chains do not share. -/
theorem Index.logs_agreeUpTo_partingSessions :
    ∃ chain chain' a b, (ofTrace ⟨partingSessions, []⟩).chain "1(1:3)" = .ok chain ∧
      (ofTrace ⟨partingSessions, []⟩).chain "1(2:4)" = .ok chain' ∧
      chain.take 2 = chain'.take 2 ∧
      NormalizedLog.assemble (ofTrace ⟨partingSessions, []⟩) none "1(1:3)" = .ok a ∧
      NormalizedLog.assemble (ofTrace ⟨partingSessions, []⟩)
        (some (.ofGoals (ofTrace ⟨partingSessions, []⟩) ["1(2:4)"])) "1(2:4)" = .ok b ∧
      a.spans.spans.map (·.last) = [none, some 1] ∧ b.spans.spans.map (·.last) = [some 4, some 1] ∧
      a.unmarked.AgreeUpTo 1 b.unmarked := by
  have hids : (((ofTrace ⟨partingSessions, []⟩).chain "1(1:3)").map fun chain =>
      chain.map Entry.id).toOption = some ["1(0:1)", "1(1:2)", "1(1:3)"] := by decide +kernel
  have hids' : (((ofTrace ⟨partingSessions, []⟩).chain "1(2:4)").map fun chain =>
      chain.map Entry.id).toOption = some ["1(0:1)", "1(1:2)", "1(2:4)"] := by decide +kernel
  have hlast : ((NormalizedLog.assemble (ofTrace ⟨partingSessions, []⟩) none "1(1:3)").map
      fun log => log.spans.spans.map (·.last)).toOption = some [none, some 1] := by decide +kernel
  have hlast' : ((NormalizedLog.assemble (ofTrace ⟨partingSessions, []⟩)
      (some (.ofGoals (ofTrace ⟨partingSessions, []⟩) ["1(2:4)"])) "1(2:4)").map fun log =>
        log.spans.spans.map (·.last)).toOption = some [some 4, some 1] := by decide +kernel
  obtain ⟨chain, hchain, hids⟩ := exists_ok_of_map hids
  obtain ⟨chain', hchain', hids'⟩ := exists_ok_of_map hids'
  have hshared : chain.take (1 + 1) = chain'.take (1 + 1) := by
    refine eq_of_map_id (fun e he => mem_entries_of_chain hchain e (List.mem_of_mem_take he))
      (fun e he => mem_entries_of_chain hchain' e (List.mem_of_mem_take he)) ?_
    rw [List.map_take, List.map_take, hids, hids']
    rfl
  obtain ⟨_, ⟨a, b, ha, hb, hagree⟩, _⟩ := logs_agreeUpTo hchain hchain' hshared none
    (some (.ofGoals (ofTrace ⟨partingSessions, []⟩) ["1(2:4)"]))
  rw [ha] at hlast
  rw [hb] at hlast'
  exact ⟨chain, chain', a, b, hchain, hchain', hshared, ha, hb, Option.some.inj hlast,
    Option.some.inj hlast', hagree⟩

end TraceExplorer
