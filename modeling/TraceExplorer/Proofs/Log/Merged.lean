import TraceExplorer.Proofs.Dict
import TraceExplorer.Proofs.Log.Normalized
import TraceExplorer.Proofs.Span.Builder

/-
  What the operations of a normalized log are made of. A record that ends an operation is merged
  with the beginning and the copy that a draft has in its buffers. Those are the last ones of
  their session since the buffers were cleared: an end of a machine clears the beginning only
  (`begun?`, `copied?`), and each record keeps that (`Draft.Buffers.step`). With it, `Logged`
  says record by record which row is added and what is asked of the spans (`Draft.Logs.step`).
  A session begins with empty buffers, so nothing of it reaches the next one (`logs_addChain`).
-/

open TraceExplorer.Span TraceExplorer.Span.Builder

namespace TraceExplorer.NormalizedLog

/-! ## Buffered records -/

/-- The last record with `p` behind the last one with `stop`. -/
def lastSince? (stop p : Event → Bool) (before : List Event) : Option Event :=
  (before.reverse.takeWhile fun e => !stop e).find? p

theorem lastSince?_concat (stop p : Event → Bool) (before : List Event) (e : Event) :
    lastSince? stop p (before ++ [e]) =
      if stop e then none else if p e then some e else lastSince? stop p before := by
  rw [lastSince?, List.reverse_concat, List.takeWhile_cons]
  cases hstop : stop e with
  | true => rfl
  | false => cases hp : p e <;> simp [lastSince?, hp]

/-- The beginning of an operation that is not finished, and not given up at the end of a machine. -/
def begun? (before : List Event) : Option Event :=
  lastSince? (fun e => e.kind = .postOp || e.isEnd) (·.kind = .preOp) before

/-- The last copy since an operation finished. -/
def copied? (before : List Event) : Option Event :=
  lastSince? (·.kind = .postOp) (·.kind = .copy) before

/-! ## Merged operations -/

/-- The operation `op` is the record `post` of its end, with data of the record `pre` of its
    beginning and of the copy `copy` during it. -/
structure Merges (post : Event) (pre copy : Option Event) (op : Event) : Prop where
  kind : op.kind = post.kind
  count : op.count = post.count
  ip : op.ip = post.ip
  action : op.action = post.action
  notes : op.notes = post.notes
  labels : op.extra.labels =
    (((pre.toList ++ copy.toList ++ [post]).map (·.extra.labels)).find? (!·.isEmpty)).getD []
  spanOpen : op.extra.spanOpen =
    (pre.toList ++ copy.toList ++ [post]).findSome? (·.extra.spanOpen)
  spanClose : op.extra.spanClose =
    (pre.toList ++ copy.toList ++ [post]).findSome? (·.extra.spanClose)
  child : op.extra.child = (copy.toList ++ [post]).findSome? (·.extra.child)
  parent : op.extra.parent = (copy.toList ++ [post]).findSome? (·.extra.parent)
  rest : ∀ k, op.extra.rest.get? k = (copy.toList ++ [post]).findSome? (·.extra.rest.get? k)

theorem findSome?_cons_eq_or {α β : Type} (f : α → Option β) (a : α) (l : List α) :
    (a :: l).findSome? f = (f a).or (l.findSome? f) := by
  rw [List.findSome?_cons]
  cases f a <;> rfl

/-- The first labels of several, if there are any. -/
theorem getD_find?_cons (names : List String) (l : List (List String)) :
    ((names :: l).find? (!·.isEmpty)).getD [] =
      if names.isEmpty then (l.find? (!·.isEmpty)).getD [] else names := by
  rw [List.find?_cons]
  cases names <;> rfl

theorem merges_merge (post : Event) (pre copy : Option Event) :
    Merges post pre copy (merge post pre (copy.map Event.extra)) where
  kind := by rw [merge_eq]
  count := by rw [merge_eq]
  ip := by rw [merge_eq]
  action := by rw [merge_eq]
  notes := by rw [merge_eq]
  labels := by
    have hlast : (if post.extra.labels.isEmpty then [] else post.extra.labels) =
        post.extra.labels := by cases post.extra.labels <;> rfl
    cases pre <;> cases copy <;> simp only [merge, Extra.overlay, Option.map_none, Option.map_some,
      Option.elim_none, Option.elim_some, Option.toList_none, Option.toList_some, List.nil_append,
      List.cons_append, List.map_cons, List.map_nil, getD_find?_cons, List.find?_nil,
      Option.getD_none, hlast]
  spanOpen := by
    cases pre <;> cases copy <;> simp [merge, Extra.overlay, findSome?_cons_eq_or]
  spanClose := by
    cases pre <;> cases copy <;> simp [merge, Extra.overlay, findSome?_cons_eq_or]
  child := by cases pre <;> cases copy <;> simp [merge, Extra.overlay, findSome?_cons_eq_or]
  parent := by cases pre <;> cases copy <;> simp [merge, Extra.overlay, findSome?_cons_eq_or]
  rest k := by
    cases pre <;> cases copy <;>
      simp [merge, Extra.overlay, findSome?_cons_eq_or, Dict.get?_insertAll_entries]

/-! ## Rows and actions -/

/-- What an operation that lands on a row asks of the open spans. -/
def closings (row : Nat) (extra : Extra) : List Action :=
  (extra.spanClose.map fun m => .close (m.resolve extra.labels) row).toList

/-- The span that an operation landing on a row asks for. -/
def openings (row : Nat) (extra : Extra) : List Action :=
  (extra.spanOpen.map fun m => .enter (m.resolve extra.labels) row).toList

/-- A record that has a row, with the session it is of and the records read there before it. -/
structure Source where
  depth : Nat
  entry : Entry
  before : List Event
  record : Event

/-- The records of a session that have a row, after those `before`. -/
def sourcesFrom (depth : Nat) (e : Entry) (before : List Event) : List Event → List Source
  | [] => []
  | r :: records =>
    (if r.hasRow depth then [⟨depth, e, before, r⟩] else []) ++
      sourcesFrom depth e (before ++ [r]) records

/-- The records of consecutive sessions that have a row, the first session at `depth`. -/
def sources (depth : Nat) : List (Entry × List Event) → List Source
  | [] => []
  | (e, records) :: sessions => sourcesFrom depth e [] records ++ sources (depth + 1) sessions

/-- The row is that of an operation, with all its data. -/
structure Finishes (waypoints : Option Waypoints) (q : Source) (r : OpRow) : Prop where
  row : r.toRow = Row.ofEvent waypoints q.depth q.entry r.event
  kind : q.record.kind = .postOp
  merges : Merges q.record (begun? q.before) (copied? q.before) r.event

/-- `Lands waypoints n actions q r asked`: the record has the row `r`, numbered `n`, and asks for
    `asked` after `actions`. -/
inductive Lands (waypoints : Option Waypoints) (n : Nat) (actions : List Action) (q : Source)
    (r : OpRow) : List Action → Prop where
  | op (h : Finishes waypoints q r)
      (hindent : r.indent = (ofActions (actions ++ closings n r.event.extra)).depth) :
      Lands waypoints n actions q r (closings n r.event.extra ++ openings n r.event.extra)
  | stop (hrow : r.toRow = Row.ofEvent waypoints q.depth q.entry q.record)
      (hend : q.record.isEnd = true) (hindent : r.indent = 0) :
      Lands waypoints n actions q r
        (((begun? q.before).map fun pre => openings n pre.extra).getD [] ++ [.closeAll n])
  | plain (hrow : r.toRow = Row.ofEvent waypoints q.depth q.entry q.record)
      (hkind : q.record.kind ≠ .postOp) (hend : q.record.isEnd = false)
      (hindent : r.indent = (ofActions actions).depth) : Lands waypoints n actions q r []

/-- The rows of records, and the actions that they ask for. -/
inductive Logged (waypoints : Option Waypoints) :
    List Source → List OpRow → List Action → Prop where
  | nil : Logged waypoints [] [] []
  | snoc {qs : List Source} {rows : List OpRow} {actions asked : List Action} {q : Source}
      {r : OpRow} (h : Logged waypoints qs rows actions)
      (hlands : Lands waypoints rows.length actions q r asked) :
      Logged waypoints (qs ++ [q]) (rows ++ [r]) (actions ++ asked)

/-- Of the actions, those for the row `n` are what its markers and labels say, closes in front;
    the row is indented by the spans open between them. -/
def Performs (actions : List Action) (n : Nat) (r : OpRow) : Prop :=
  ∃ before after, actions =
      before ++ (closings n r.event.extra ++ openings n r.event.extra) ++ after ∧
    (∀ a ∈ before, a.row < n) ∧ (∀ a ∈ after, n < a.row) ∧
      r.indent = (ofActions (before ++ closings n r.event.extra)).depth

variable {waypoints : Option Waypoints} {qs : List Source} {rows : List OpRow}
  {actions : List Action}

theorem row_of_mem_closings {a : Action} {n : Nat} {extra : Extra}
    (h : a ∈ closings n extra) : a.row = n := by
  obtain ⟨m, _, rfl⟩ := Option.map_eq_some_iff.1 (Option.mem_toList.1 h)
  rfl

theorem row_of_mem_openings {a : Action} {n : Nat} {extra : Extra}
    (h : a ∈ openings n extra) : a.row = n := by
  obtain ⟨m, _, rfl⟩ := Option.map_eq_some_iff.1 (Option.mem_toList.1 h)
  rfl

theorem Lands.row_of_mem {n : Nat} {q : Source} {r : OpRow} {asked : List Action}
    (h : Lands waypoints n actions q r asked) : ∀ a ∈ asked, a.row = n := by
  intro a ha
  cases h with
  | op =>
    rcases List.mem_append.1 ha with ha | ha
    · exact row_of_mem_closings ha
    · exact row_of_mem_openings ha
  | stop =>
    rcases List.mem_append.1 ha with ha | ha
    · cases hpre : begun? q.before with
      | none =>
        rw [hpre] at ha
        cases ha
      | some pre =>
        rw [hpre] at ha
        exact row_of_mem_openings ha
    · rw [List.mem_singleton.1 ha]
      rfl
  | plain => cases ha

/-- Only an operation has a row of an operation. -/
theorem Lands.finishes {n : Nat} {q : Source} {r : OpRow} {asked : List Action}
    (h : Lands waypoints n actions q r asked) (hkind : r.event.kind = .postOp) :
    Finishes waypoints q r ∧ asked = closings n r.event.extra ++ openings n r.event.extra ∧
      r.indent = (ofActions (actions ++ closings n r.event.extra)).depth := by
  cases h with
  | op h hindent => exact ⟨h, rfl, hindent⟩
  | stop hrow hend =>
    rw [hrow] at hkind
    exact absurd hkind (Event.kind_ne_of_isEnd hend).2
  | plain hrow hne =>
    rw [hrow] at hkind
    exact absurd hkind hne

namespace Logged

theorem length_eq (h : Logged waypoints qs rows actions) : qs.length = rows.length := by
  induction h with
  | nil => rfl
  | snoc _ _ ih => rw [List.length_append, List.length_append, ih]; rfl

theorem row_lt (h : Logged waypoints qs rows actions) : ∀ a ∈ actions, a.row < rows.length := by
  induction h with
  | nil => simp
  | snoc _ hlands ih =>
    intro a ha
    rw [List.length_append]
    rcases List.mem_append.1 ha with ha | ha
    · exact Nat.lt_add_right _ (ih a ha)
    · rw [hlands.row_of_mem a ha]
      exact Nat.lt_succ_self _

/-- The row of an operation has its record, and its actions. -/
theorem exists_finishes (h : Logged waypoints qs rows actions) {n : Nat} {r : OpRow}
    (hr : rows[n]? = some r) (hkind : r.event.kind = .postOp) :
    (∃ q, qs[n]? = some q ∧ Finishes waypoints q r) ∧ Performs actions n r := by
  induction h with
  | nil => cases hr
  | @snoc qs rows actions asked q last h hlands ih =>
    rcases getElem?_concat_eq_some hr with ⟨hn, hr⟩ | ⟨rfl, rfl⟩
    · obtain ⟨⟨q', hq, hfinishes⟩, before, after, heq, hbefore, hafter, hindent⟩ := ih hr
      refine ⟨⟨q', ?_, hfinishes⟩, before, after ++ asked, ?_, hbefore, fun a ha => ?_, hindent⟩
      · rw [List.getElem?_append_left (h.length_eq ▸ hn)]
        exact hq
      · rw [heq, List.append_assoc]
      · rcases List.mem_append.1 ha with ha | ha
        · exact hafter a ha
        · rw [hlands.row_of_mem a ha]
          exact hn
    · obtain ⟨hfinishes, rfl, hindent⟩ := hlands.finishes hkind
      refine ⟨⟨q, ?_, hfinishes⟩, actions, [], ?_, h.row_lt, fun a ha => ?_, hindent⟩
      · rw [← h.length_eq, List.getElem?_concat_length]
      · rw [List.append_nil]
      · cases ha

end Logged

/-! ## Buffers -/

namespace Draft

/-- The buffers hold what was begun and copied in the records read of the session at hand. -/
structure Buffers (d : Draft) (before : List Event) : Prop where
  pre : d.pre = begun? before
  copy : d.copy = (copied? before).map Event.extra

theorem begun?_concat (before : List Event) (e : Event) : begun? (before ++ [e]) =
    if e.kind = .postOp ∨ e.isEnd = true then none
    else if e.kind = .preOp then some e else begun? before := by
  rw [begun?, lastSince?_concat]
  simp only [decide_eq_true_eq, Bool.or_eq_true]
  rfl

theorem copied?_concat (before : List Event) (e : Event) : copied? (before ++ [e]) =
    if e.kind = .postOp then none else if e.kind = .copy then some e else copied? before := by
  rw [copied?, lastSince?_concat]
  simp only [decide_eq_true_eq]
  rfl

variable {d : Draft} {before : List Event}

theorem Buffers.step (h : d.Buffers before) (depth : Nat) (row : Event → Row) (e : Event) :
    (d.step depth row e).Buffers (before ++ [e]) := by
  have htaken := taken_step depth row d e
  generalize d.step depth row e = d' at htaken
  cases htaken with
  | start hkind =>
    constructor
    · simp [begun?_concat, Event.isEnd, hkind, h.pre]
    · simp [copied?_concat, hkind, h.copy]
  | preOp hkind =>
    constructor
    · simp [begun?_concat, Event.isEnd, hkind]
    · simp [copied?_concat, hkind, dropPre_eq, h.copy]
  | copy hkind =>
    constructor
    · simp [begun?_concat, Event.isEnd, hkind, h.pre]
    · simp [copied?_concat, hkind]
  | postOp hkind =>
    rw [addOp_eq]
    constructor
    · simp [begun?_concat, hkind]
    · simp [copied?_concat, hkind]
  | stop hend =>
    have hcopy : e.kind ≠ .copy := fun hkind => by simp [Event.isEnd, hkind] at hend
    rw [addEnd_eq]
    constructor
    · simp [begun?_concat, hend, dropPre_eq]
    · simp [copied?_concat, (Event.kind_ne_of_isEnd hend).2, hcopy, dropPre_eq, h.copy]
  | plain hrow hkind hend =>
    have hpre : e.kind ≠ .preOp := fun h => by simp [Event.hasRow, h] at hrow
    have hcopy : e.kind ≠ .copy := fun h => by simp [Event.hasRow, h] at hrow
    constructor
    · simp [begun?_concat, hkind, hend, hpre, push, h.pre]
    · simp [copied?_concat, hkind, hcopy, push, h.copy]

/-! ## What records lay -/

theorem ofActions_closings (h : d.spans = ofActions actions) (extra : Extra) :
    ofActions (actions ++ closings d.rows.length extra) = (d.closeSpans extra).spans := by
  rw [ofActions_append, ← h, closeSpans, closings]
  cases extra.spanClose <;> rfl

theorem ofActions_openings (h : d.spans = ofActions actions) (extra : Extra) :
    ofActions (actions ++ openings d.rows.length extra) = (d.openSpan extra).spans := by
  rw [ofActions_append, ← h, openSpan, openings]
  cases extra.spanOpen <;> rfl

/-- Taking in records laid the rows of `qs`, with the spans that the actions make. -/
structure Logs (waypoints : Option Waypoints) (d : Draft) (qs : List Source)
    (actions : List Action) : Prop where
  rows : Logged waypoints qs d.rows actions
  spans : d.spans = ofActions actions

theorem logs_empty (waypoints : Option Waypoints) : Draft.empty.Logs waypoints [] [] where
  rows := .nil
  spans := rfl

theorem Logs.addOp (h : d.Logs waypoints qs actions) (depth : Nat) (e : Entry) {post op : Event}
    (hkind : post.kind = .postOp) (hmerges : Merges post (begun? before) (copied? before) op) :
    ∃ actions', (d.addOp (Row.ofEvent waypoints depth e) op).Logs waypoints
      (qs ++ [Source.mk depth e before post]) actions' := by
  have hclosed := ofActions_closings h.spans op.extra
  have hrows : (d.closeSpans op.extra).rows = d.rows := by rw [closeSpans_eq]
  have hopened := ofActions_openings hclosed.symm op.extra
  rw [hrows] at hopened
  rw [addOp_eq]
  rw [List.append_assoc] at hopened
  refine ⟨_, h.rows.snoc (.op ⟨rfl, hkind, hmerges⟩ ?_), hopened.symm⟩
  exact (congrArg Builder.depth hclosed).symm

theorem Logs.addEnd (h : d.Logs waypoints qs actions) (depth : Nat) (e : Entry) {stop : Event}
    (hend : stop.isEnd = true) (hpre : d.pre = begun? before) :
    ∃ actions', (d.addEnd (Row.ofEvent waypoints depth e) stop).Logs waypoints
      (qs ++ [Source.mk depth e before stop]) actions' := by
  have hopened : ofActions (actions ++
      ((begun? before).map fun pre => openings d.rows.length pre.extra).getD []) =
        d.openPre.spans := by
    rw [← hpre, openPre]
    cases d.pre with
    | none => exact (List.append_nil actions ▸ h.spans).symm
    | some pre => exact ofActions_openings h.spans pre.extra
  rw [addEnd_eq, dropPre_eq]
  refine ⟨_, h.rows.snoc (.stop rfl hend rfl), ?_⟩
  rw [← List.append_assoc, ofActions_concat, hopened]
  rfl

theorem Logs.step (h : d.Logs waypoints qs actions) (hbuffers : d.Buffers before) (depth : Nat)
    (e : Entry) (record : Event) :
    ∃ actions', (d.step depth (Row.ofEvent waypoints depth e) record).Logs waypoints
      (qs ++ sourcesFrom depth e before [record]) actions' := by
  have htaken := taken_step depth (Row.ofEvent waypoints depth e) d record
  generalize d.step depth (Row.ofEvent waypoints depth e) record = d' at htaken
  rw [sourcesFrom, sourcesFrom, List.append_nil]
  cases htaken with
  | start hkind hdepth =>
    rw [if_neg (by simp [Event.hasRow, hkind, hdepth]), List.append_nil]
    exact ⟨actions, h⟩
  | preOp hkind =>
    rw [if_neg (by simp [Event.hasRow, hkind]), List.append_nil, dropPre_eq]
    exact ⟨actions, h.rows, h.spans⟩
  | copy hkind =>
    rw [if_neg (by simp [Event.hasRow, hkind]), List.append_nil]
    exact ⟨actions, h.rows, h.spans⟩
  | postOp hkind =>
    have hmerges := merges_merge record (begun? before) (copied? before)
    have hcleared : Logs waypoints { d with pre := none, copy := none } qs actions :=
      ⟨h.rows, h.spans⟩
    rw [if_pos (by simp [Event.hasRow, hkind]), hbuffers.pre, hbuffers.copy]
    exact hcleared.addOp depth e hkind hmerges
  | stop hend =>
    rw [if_pos (Event.hasRow_of_isEnd hend depth)]
    exact h.addEnd depth e hend hbuffers.pre
  | plain hrow hkind hend =>
    rw [if_pos hrow]
    have hspans := h.spans
    rw [← List.append_nil actions] at hspans
    exact ⟨_, h.rows.snoc (.plain rfl hkind hend (congrArg Builder.depth h.spans)), hspans⟩

theorem logs_foldl (hlogs : d.Logs waypoints qs actions) (hbuffers : d.Buffers before)
    (depth : Nat) (e : Entry) (records : List Event) :
    ∃ actions', (records.foldl (step depth (Row.ofEvent waypoints depth e)) d).Logs waypoints
      (qs ++ sourcesFrom depth e before records) actions' := by
  induction records generalizing d qs before actions with
  | nil => exact ⟨actions, by rwa [sourcesFrom, List.append_nil]⟩
  | cons record records ih =>
    obtain ⟨actions', hlogs'⟩ := hlogs.step hbuffers depth e record
    obtain ⟨actions'', hlogs''⟩ := ih hlogs' (hbuffers.step depth _ record)
    rw [sourcesFrom, sourcesFrom, List.append_nil, List.append_assoc] at hlogs''
    exact ⟨actions'', hlogs''⟩

end Draft

/-! ## Chains -/

/-- A session begins with empty buffers, and so does the next. -/
theorem addSegment_logs {d : Draft} (hlogs : d.Logs waypoints qs actions) (hbuffers : d.Buffers [])
    (depth : Nat) (e : Entry) (next : Option Entry) :
    ∃ actions', (addSegment waypoints d depth e next).1.Logs waypoints
        (qs ++ sourcesFrom depth e [] (cutBefore next e.session.records).1) actions' ∧
      (addSegment waypoints d depth e next).1.Buffers [] := by
  obtain ⟨actions', hlogs'⟩ :=
    Draft.logs_foldl hlogs hbuffers depth e (cutBefore next e.session.records).1
  rw [addSegment]
  simp only [Draft.dropPre_eq]
  exact ⟨actions', ⟨hlogs'.rows, hlogs'.spans⟩, rfl, rfl⟩

theorem logs_addChain {d : Draft} (hlogs : d.Logs waypoints qs actions) (hbuffers : d.Buffers [])
    (depth : Nat) (chain : List Entry) :
    ∃ actions', (addChain waypoints d depth chain).1.Logs waypoints
      (qs ++ sources depth (chain.zip (takenOf chain))) actions' := by
  induction chain generalizing d qs actions depth with
  | nil => exact ⟨actions, by rwa [takenOf, List.zip_nil_left, sources, List.append_nil]⟩
  | cons e chain ih =>
    obtain ⟨actions', hlogs', hbuffers'⟩ := addSegment_logs hlogs hbuffers depth e chain.head?
    obtain ⟨actions'', hlogs''⟩ := ih hlogs' hbuffers' (depth + 1)
    rw [List.append_assoc] at hlogs''
    exact ⟨actions'', hlogs''⟩

/-- The record and those before it are the first ones of the session at its depth. -/
structure Source.ReadIn (chain : List Entry) (q : Source) : Prop where
  entry : chain[q.depth]? = some q.entry
  front : q.before ++ [q.record] <+: q.entry.session.records

theorem of_mem_sourcesFrom {depth : Nat} {e : Entry} {before records : List Event} {q : Source}
    (h : q ∈ sourcesFrom depth e before records) :
    q.depth = depth ∧ q.entry = e ∧ q.before ++ [q.record] <+: before ++ records := by
  induction records generalizing before with
  | nil => cases h
  | cons record records ih =>
    rcases List.mem_append.1 h with h | h
    · split at h
      · rw [List.mem_singleton.1 h]
        exact ⟨rfl, rfl, records, List.append_assoc _ _ _⟩
      · cases h
    · obtain ⟨hdepth, hentry, hfront⟩ := ih h
      rw [List.append_assoc] at hfront
      exact ⟨hdepth, hentry, hfront⟩

theorem exists_of_mem_sources {depth : Nat} {sessions : List (Entry × List Event)} {q : Source}
    (h : q ∈ sources depth sessions) : ∃ i records, q.depth = depth + i ∧
      sessions[i]? = some (q.entry, records) ∧ q.before ++ [q.record] <+: records := by
  induction sessions generalizing depth with
  | nil => cases h
  | cons session sessions ih =>
    rcases List.mem_append.1 h with h | h
    · obtain ⟨hdepth, hentry, hfront⟩ := of_mem_sourcesFrom h
      exact ⟨0, session.2, hdepth, by rw [hentry]; rfl, hfront⟩
    · obtain ⟨i, records, hdepth, hget, hfront⟩ := ih h
      exact ⟨i + 1, records, by omega, hget, hfront⟩

/-- The operations of the log are merged from the records `taken` of each session of the chain. -/
structure MergesOperations (waypoints : Option Waypoints) (chain : List Entry)
    (taken : List (List Event)) (actions : List Action) (log : NormalizedLog) : Prop where
  length_taken : taken.length = chain.length
  consumed : ∀ (depth : Nat) (e : Entry) (records : List Event), chain[depth]? = some e →
    taken[depth]? = some records →
      ∃ rest, Consumed chain[depth + 1]? e.session.records records rest
  readIn : ∀ q ∈ sources 0 (chain.zip taken), q.ReadIn chain
  logged : Logged waypoints (sources 0 (chain.zip taken)) log.rows actions
  spans : log.spans = (ofActions actions).finish
  operation : ∀ (n : Nat) (r : OpRow), log.rows[n]? = some r → r.event.kind = .postOp →
    (∃ q, (sources 0 (chain.zip taken))[n]? = some q ∧ Finishes waypoints q r) ∧
      Performs actions n r

theorem consumed_takenOf {chain : List Entry} {depth : Nat} {e : Entry} {records : List Event}
    (he : chain[depth]? = some e) (hrecords : (takenOf chain)[depth]? = some records) :
    ∃ rest, Consumed chain[depth + 1]? e.session.records records rest := by
  rw [getElem?_takenOf, he] at hrecords
  obtain rfl := Option.some.inj hrecords
  exact ⟨_, consumed_cutBefore _ _⟩

theorem readIn_of_mem_sources {chain : List Entry} {q : Source}
    (h : q ∈ sources 0 (chain.zip (takenOf chain))) : q.ReadIn chain := by
  obtain ⟨i, records, hdepth, hget, hfront⟩ := exists_of_mem_sources h
  rw [Nat.zero_add] at hdepth
  obtain ⟨hentry, hrecords⟩ := List.getElem?_zip_eq_some.1 hget
  obtain ⟨rest, hconsumed⟩ := consumed_takenOf hentry hrecords
  refine ⟨hdepth ▸ hentry, ?_⟩
  rw [hconsumed.append_eq]
  exact hfront.trans (List.prefix_append _ _)

theorem assemble_mergesOperations {x : Index} {id : String} {chain : List Entry}
    (waypoints : Option Waypoints) (h : x.chain id = .ok chain) :
    ∃ log taken actions, assemble x waypoints id = .ok log ∧
      log.MergesOperations waypoints chain taken actions := by
  obtain ⟨actions, hlogs⟩ :=
    logs_addChain (Draft.logs_empty waypoints) ⟨rfl, rfl⟩ 0 chain
  rw [List.nil_append] at hlogs
  refine ⟨ofChain waypoints chain, takenOf chain, actions, by rw [assemble, h]; rfl, ?_⟩
  exact
    { length_taken := length_takenOf chain
      consumed := fun _ _ _ => consumed_takenOf
      readIn := fun _ => readIn_of_mem_sources
      logged := hlogs.rows
      spans := congrArg finish hlogs.spans
      operation := fun _ _ hr hkind => hlogs.rows.exists_finishes hr hkind }

/-- A root that begins an operation twice before it finishes it; of another one, whose beginning is
    lost at an end of the machine, the copy stays. The other session finishes an operation that it
    did not begin, and one that it began during a copy. -/
def bufferedSessions : List Session :=
  let labelled (kind : EventKind) (label : String) : Event :=
    { Event.ofKind kind with extra := { Extra.empty with labels := [label] } }
  let copy : Event := { Event.ofKind .copy with
    extra := { Extra.empty with
      child := "1(1:2)", labels := ["copy"], rest := .ofList [("seen", .bool true)] } }
  let stop : Event := { Event.ofKind .stop with action := "End" }
  [{ Session.ofId "1(0:1)" with
      records := [labelled .preOp "first", labelled .preOp "begun", .ofKind .postOp,
        labelled .preOp "lost", copy, stop, labelled .postOp "end"] },
    { Session.ofId "1(1:2)" with
      parentId := "1(0:1)", values := "done",
      records := [labelled .postOp "alone", copy, labelled .preOp "begun", .ofKind .postOp] }]

theorem assemble_mergesOperations_bufferedSessions :
    ∃ chain log taken actions, (Index.ofTrace ⟨bufferedSessions, []⟩).chain "1(1:2)" = .ok chain ∧
      chain.map Entry.id = ["1(0:1)", "1(1:2)"] ∧
      assemble (Index.ofTrace ⟨bufferedSessions, []⟩) none "1(1:2)" = .ok log ∧
      log.rows.map (·.event.extra.labels) = [["begun"], [], ["copy"], ["alone"], ["begun"]] ∧
      log.MergesOperations none chain taken actions := by
  have hids : (((Index.ofTrace ⟨bufferedSessions, []⟩).chain "1(1:2)").map fun chain =>
      chain.map Entry.id).toOption = some ["1(0:1)", "1(1:2)"] := by decide +kernel
  have hlabels : ((assemble (Index.ofTrace ⟨bufferedSessions, []⟩) none "1(1:2)").map fun log =>
      log.rows.map (·.event.extra.labels)).toOption =
        some [["begun"], [], ["copy"], ["alone"], ["begun"]] := by decide +kernel
  obtain ⟨chain, hchain, hids⟩ := exists_ok_of_map hids
  obtain ⟨log, taken, actions, hlog, hmerges⟩ := assemble_mergesOperations none hchain
  rw [hlog] at hlabels
  exact ⟨chain, log, taken, actions, hchain, hids, hlog, Option.some.inj hlabels, hmerges⟩

end TraceExplorer.NormalizedLog
