import TraceExplorer.Proofs.Log.Normalized
import TraceExplorer.Proofs.Span.Around

/-
  The indents of a normalized log and its spans agree. A row notes how many spans are open when
  it comes, their ends being unknown then; `Indents` says that this is the number of spans around
  the row, whatever is closed later. A record that is taken in closes spans before its row
  (`Indents.iterate_pop`), adds the row (`Indents.add`), and may open a span there
  (`Indents.append`); the end of a machine closes them all. So each record keeps `Indents`
  (`Draft.Indents.step`), each session, and the chain (`assemble_indented`).
-/

open TraceExplorer.Span TraceExplorer.Span.Builder

namespace TraceExplorer.NormalizedLog

/-- A machine ends on the first row. -/
def endsFirst (rows : List OpRow) : Bool := rows.head?.any (·.event.isEnd)

theorem endsFirst_append {rows : List OpRow} (h : 0 < rows.length) (more : List OpRow) :
    endsFirst (rows ++ more) = endsFirst rows := by
  rw [endsFirst, List.head?_append_of_ne_nil _ (List.length_pos_iff.1 h), endsFirst]

theorem endsFirst_eq {rows : List OpRow} {row : OpRow} (h : rows[0]? = some row) :
    endsFirst rows = row.event.isEnd := by
  rw [endsFirst, List.head?_eq_getElem?, h, Option.any_some]

/-- The row is where the span numbered `n` was opened: by an operation, with what surrounds the
    span around the row, or by the end of a machine, and closed at once. -/
inductive Heads (spans : List Span) (n : Nat) (s : Span) (row : OpRow) : Prop
  | op (hop : row.event.isEnd = false) (hdepth : Span.Depth spans n row.indent)
  | stop (hend : row.event.isEnd = true) (hlast : s.last = rowBefore? s.start)

/-- An operation that was begun opens a span with the label. -/
def Opens (Begun : Event → Prop) (label : String) : Prop :=
  ∃ pre m, Begun pre ∧ pre.extra.spanOpen = some m ∧ label = (m.resolve pre.extra.labels).headD ""

/-- The indents of the rows are those that the spans of the builder make, `Begun` being true of
    the operations begun so far. -/
structure Indents (Begun : Event → Prop) (rows : List OpRow) (b : Builder) : Prop where
  nested : b.Nested rows.length
  started : ∀ s ∈ b.hung, s.start < rows.length
  mem_stack : ∀ n s, b.hung[n]? = some s →
    (n ∈ b.stack ↔ s.last = none ∧ s.isVoid (endsFirst rows) = false)
  indent : ∀ r row, rows[r]? = some row →
    row.indent = b.hung.countP (surrounds (endsFirst rows) r)
  stop : ∀ row ∈ rows, row.event.isEnd = true → row.indent = 0
  header : ∀ n s row, b.hung[n]? = some s → rows[s.start]? = some row → Heads b.hung n s row
  void : ∀ n s, b.hung[n]? = some s → s.isVoid (endsFirst rows) = true →
    n = 0 ∧ Opens Begun s.label

variable {Begun : Event → Prop} {rows : List OpRow} {b : Builder}

theorem indents_empty : Indents Begun [] .empty where
  nested := nested_empty 0
  started _ h := by cases h
  mem_stack _ _ h := by cases h
  indent _ _ h := by cases h
  stop _ h := by cases h
  header _ _ _ h := by cases h
  void _ _ h := by cases h

/-- An open span was not closed where it was opened. -/
theorem Indents.last_ne (h : Indents Begun rows b) {n : Nat} {s : Span} {row : OpRow}
    (hs : b.hung[n]? = some s) (hn : n ∈ b.stack) (hrow : rows[s.start]? = some row)
    (hend : row.event.isEnd = true) : s.last ≠ rowBefore? s.start := by
  obtain ⟨hlast, hvoid⟩ := (h.mem_stack n s hs).1 hn
  intro heq
  have hstart : s.start = 0 := rowBefore?_eq_none.1 (heq.symm.trans hlast)
  rw [hstart] at hrow
  simp [isVoid, hstart, endsFirst_eq hrow, hend] at hvoid

theorem Indents.last_eq_none (h : Indents Begun rows b) {n : Nat} {s : Span}
    (hs : b.hung[n]? = some s) (hvoid : s.isVoid (endsFirst rows) = true) : s.last = none := by
  obtain ⟨hends, hstart⟩ : endsFirst rows = true ∧ s.start = 0 := by simpa [isVoid] using hvoid
  obtain ⟨row, hrow⟩ : ∃ row, rows[s.start]? = some row :=
    ⟨_, List.getElem?_eq_getElem (h.started s (List.mem_of_getElem? hs))⟩
  cases h.header n s row hs hrow with
  | op hop =>
    rw [hstart] at hrow
    rw [endsFirst_eq hrow, hop] at hends
    cases hends
  | stop _ hlast => rw [hlast, rowBefore?_eq_none, hstart]

/-- Closing spans for the row that comes next changes no indent. -/
theorem Indents.iterate_pop (h : Indents Begun rows b) (k : Nat) :
    Indents Begun rows ((Builder.pop rows.length)^[k] b) where
  nested := h.nested.iterate_pop (Nat.le_refl _) k
  started t ht := by
    obtain ⟨n, hn⟩ := List.mem_iff_getElem?.1 ht
    obtain ⟨s, hs, rfl⟩ := exists_of_hung_iterate_pop hn
    have hstart := h.started s (List.mem_of_getElem? hs)
    split <;> exact hstart
  mem_stack n t ht := by
    obtain ⟨s, hs, rfl⟩ := exists_of_hung_iterate_pop ht
    rw [h.nested.mem_stack_iterate_pop]
    by_cases hn : n ∈ b.stack.take k
    · -- The span ends before the row that comes next, which is not the first.
      have hstart := h.started s (List.mem_of_getElem? hs)
      have hlast : rowBefore? rows.length ≠ none := fun hnone => by
        have := rowBefore?_eq_none.1 hnone
        omega
      simp [hn, hlast]
    · simpa [hn] using h.mem_stack n s hs
  indent r row hrow := by
    have hr := (List.getElem?_eq_some_iff.1 hrow).1
    rw [countP_hung_iterate_pop h.nested hr]
    exact h.indent r row hrow
  stop := h.stop
  header n t row ht hrow := by
    obtain ⟨s, hs, rfl⟩ := exists_of_hung_iterate_pop ht
    have hstart : (if n ∈ b.stack.take k then { s with last := rowBefore? rows.length }
        else s).start = s.start := by split <;> rfl
    rw [hstart] at hrow
    cases h.header n s row hs hrow with
    | op hop hdepth =>
      refine .op hop (hdepth.mono fun m r hr => ?_)
      rw [getElem?_hung_iterate_pop, hr]
      refine ⟨_, rfl, ?_⟩
      split <;> rfl
    | stop hend hlast =>
      have hn : n ∉ b.stack.take k := fun hn =>
        h.last_ne hs (List.mem_of_mem_take hn) hrow hend hlast
      rw [if_neg hn]
      exact .stop hend hlast
  void n t ht hvoid := by
    obtain ⟨s, hs, rfl⟩ := exists_of_hung_iterate_pop ht
    by_cases hn : n ∈ b.stack.take k
    · rw [if_pos hn] at hvoid ⊢
      exact h.void n s hs hvoid
    · rw [if_neg hn] at hvoid ⊢
      exact h.void n s hs hvoid

theorem Indents.isVoid_append (h : Indents Begun rows b) {n : Nat} {s : Span}
    (hs : b.hung[n]? = some s) (more : List OpRow) :
    s.isVoid (endsFirst (rows ++ more)) = s.isVoid (endsFirst rows) := by
  have hstart := h.started s (List.mem_of_getElem? hs)
  rw [endsFirst_append (by omega)]

/-- Adds a row, which is surrounded by the open spans. -/
theorem Indents.add (h : Indents Begun rows b) {row : OpRow} (hindent : row.indent = b.depth)
    (hstop : row.event.isEnd = true → row.indent = 0) : Indents Begun (rows ++ [row]) b := by
  have hlen : (rows ++ [row]).length = rows.length + 1 := List.length_append
  have hstart : ∀ (n : Nat) (s : Span), b.hung[n]? = some s → s.start < rows.length :=
    fun n s hs => h.started s (List.mem_of_getElem? hs)
  have hmem : ∀ n s, b.hung[n]? = some s →
      (n ∈ b.stack ↔ s.last = none ∧ s.isVoid (endsFirst (rows ++ [row])) = false) := by
    intro n s hs
    rw [h.isVoid_append hs]
    exact h.mem_stack n s hs
  refine
    { nested := h.nested.mono (by omega)
      started := fun s hs => by
        have := h.started s hs
        omega
      mem_stack := hmem
      indent := fun r row' hrow => ?_
      stop := fun row' hrow => ?_
      header := fun n s row' hs hrow => ?_
      void := fun n s hs => by
        rw [h.isVoid_append hs]
        exact h.void n s hs }
  · rcases Nat.lt_or_ge r rows.length with hr | hr
    · rw [List.getElem?_append_left hr] at hrow
      rw [endsFirst_append (by omega)]
      exact h.indent r row' hrow
    · have hr' := (List.getElem?_eq_some_iff.1 hrow).1
      obtain rfl : r = rows.length := by omega
      rw [List.getElem?_concat_length] at hrow
      obtain rfl := Option.some.inj hrow
      have hcount : b.hung.countP (surrounds (endsFirst (rows ++ [row])) rows.length) = b.depth :=
        h.nested.countP_hung fun n s hs => by simp [hstart n s hs, hmem n s hs]
      rw [hindent, hcount]
  · rcases List.mem_append.1 hrow with hrow | hrow
    · exact h.stop row' hrow
    · rw [List.mem_singleton.1 hrow]
      exact hstop
  · rw [List.getElem?_append_left (hstart n s hs)] at hrow
    exact h.header n s row' hs hrow

/-- A span that starts on the last row changes no indent. -/
theorem Indents.append {row : OpRow} {s : Span} {c : Builder}
    (h : Indents Begun (rows ++ [row]) b) (hnested : c.Nested (rows ++ [row]).length)
    (hhung : c.hung = b.hung ++ [s]) (hstart : s.start = rows.length)
    (hmem : ∀ n, n ∈ c.stack ↔ n ∈ b.stack ∨ n = b.hung.length ∧ s.last = none ∧
      s.isVoid (endsFirst (rows ++ [row])) = false)
    (hheads : Heads c.hung b.hung.length s row)
    (hvoid : s.isVoid (endsFirst (rows ++ [row])) = true →
      b.hung.length = 0 ∧ Opens Begun s.label) : Indents Begun (rows ++ [row]) c := by
  have hlen : (rows ++ [row]).length = rows.length + 1 := List.length_append
  have hspan : ∀ (n : Nat) (t : Span), c.hung[n]? = some t →
      n < b.hung.length ∧ b.hung[n]? = some t ∨ n = b.hung.length ∧ t = s :=
    fun n t ht => getElem?_concat_eq_some (hhung ▸ ht)
  refine
    { nested := hnested
      started := fun t ht => ?_
      mem_stack := fun n t ht => ?_
      indent := fun r row' hrow => ?_
      stop := h.stop
      header := fun n t row' ht hrow => ?_
      void := fun n t ht hv => ?_ }
  · rw [hhung] at ht
    rcases List.mem_append.1 ht with ht | ht
    · exact h.started t ht
    · rw [List.mem_singleton.1 ht]
      omega
  · rcases hspan n t ht with ⟨hn, ht⟩ | ⟨rfl, rfl⟩
    · have hne : n ≠ b.hung.length := Nat.ne_of_lt hn
      rw [hmem, ← h.mem_stack n t ht]
      simp [hne]
    · have hnot : b.hung.length ∉ b.stack := fun hn => by
        have := h.nested.stack_lt _ hn
        rw [length_hung] at this
        omega
      rw [hmem]
      simp [hnot]
  · have hr := (List.getElem?_eq_some_iff.1 hrow).1
    have hnot : ¬ s.start < r := by omega
    rw [hhung, List.countP_append, List.countP_singleton, h.indent r row' hrow]
    simp [surrounds, hnot]
  · rcases hspan n t ht with ⟨hn, ht⟩ | ⟨rfl, rfl⟩
    · cases h.header n t row' ht hrow with
      | op hop hdepth =>
        rw [hhung]
        exact .op hop (hdepth.append _)
      | stop hend hlast => exact .stop hend hlast
    · rw [hstart, List.getElem?_concat_length] at hrow
      obtain rfl := Option.some.inj hrow
      exact hheads
  · rcases hspan n t ht with ⟨hn, ht⟩ | ⟨rfl, rfl⟩
    · exact h.void n t ht hv
    · exact hvoid hv

/-! ## Adding rows -/

theorem endsFirst_concat_of_eq_zero (h : rows.length = 0) (row : OpRow) :
    endsFirst (rows ++ [row]) = row.event.isEnd := by
  rw [List.length_eq_zero_iff.1 h]
  rfl

theorem Indents.addRow (h : Indents Begun rows b) {row : OpRow} (hindent : row.indent = b.depth)
    (hop : row.event.isEnd = false) : Indents Begun (rows ++ [row]) b :=
  h.add hindent fun hend => absurd hend (Bool.eq_false_iff.1 hop)

/-- Adds the row of an operation that opens a span. -/
theorem Indents.addOpening (h : Indents Begun rows b) {row : OpRow}
    (hindent : row.indent = b.depth) (hop : row.event.isEnd = false) (labels : List String) :
    Indents Begun (rows ++ [row]) (b.push labels rows.length) := by
  have hnested := h.nested.push (Nat.le_refl _) labels
  have hvoid : Span.isVoid (endsFirst (rows ++ [row]))
      ⟨labels.headD "", rows.length, none, b.stack.head?, []⟩ = false := by
    by_cases hzero : rows.length = 0
    · simp [isVoid, endsFirst_concat_of_eq_zero hzero, hop]
    · simp [isVoid, hzero]
  refine (h.addRow hindent hop).append (hnested.mono (by simp)) (hung_push h.nested.stack_lt _ _)
    rfl (fun n => ?_) (.op hop ?_) fun hv => ?_
  · rw [length_hung, hvoid]
    simp [Builder.push, or_comm]
  · rw [hindent, length_hung]
    exact hnested.hangs.depth fun n hn => length_hung _ ▸ hnested.stack_lt n hn
  · rw [hvoid] at hv
    cases hv

/-- Adds the end of a machine, which closes every span. -/
theorem Indents.addEnd (h : Indents Begun rows b) {row : OpRow} (hindent : row.indent = 0) :
    Indents Begun (rows ++ [row]) (b.closeAll rows.length) := by
  have hclosed := h.iterate_pop b.stack.length
  rw [← closeAll_eq] at hclosed
  exact hclosed.add hindent fun _ => hindent

/-- Adds the end of a machine, which closes every span and one about to be opened. -/
theorem Indents.addEndOpening (h : Indents Begun rows b) {row : OpRow} (hindent : row.indent = 0)
    (hend : row.event.isEnd = true) {labels : List String}
    (hopens : Opens Begun (labels.headD "")) :
    Indents Begun (rows ++ [row]) ((b.push labels rows.length).closeAll rows.length) := by
  have hnested := (h.nested.push (Nat.le_refl _) labels).iterate_pop (Nat.le_refl _)
    (b.push labels rows.length).stack.length
  rw [← closeAll_eq] at hnested
  refine (h.addEnd hindent).append (hnested.mono (by simp)) (hung_closeAll_push h.nested _ _) rfl
    (fun n => ?_) (.stop hend rfl) fun hv => ⟨?_, hopens⟩
  · -- Only a span closed on the first row has no end then, and that one is void.
    refine ⟨fun hn => absurd hn List.not_mem_nil, ?_⟩
    rintro (hn | ⟨_, hlast, hvoid⟩)
    · exact absurd hn List.not_mem_nil
    · have hzero := rowBefore?_eq_none.1 hlast
      simp [isVoid, endsFirst_concat_of_eq_zero hzero, hend, hzero] at hvoid
  · have hzero : rows.length = 0 := by
      simp only [isVoid, Bool.and_eq_true, decide_eq_true_eq] at hv
      exact hv.2
    rw [closeAll_eq, length_hung_iterate_pop, List.length_eq_zero_iff]
    refine List.eq_nil_iff_forall_not_mem.2 fun s hs => ?_
    have := h.started s hs
    omega

/-! ## Records -/

namespace Draft

/-- The draft is one of a log whose indents and spans agree. -/
structure Indents (Begun : Event → Prop) (d : Draft) : Prop where
  rows : NormalizedLog.Indents Begun d.rows d.spans
  pre : ∀ e, d.pre = some e → Begun e

theorem exists_spans_closeSpans (d : Draft) (extra : Extra) :
    ∃ k, (d.closeSpans extra).spans = (Builder.pop d.rows.length)^[k] d.spans := by
  unfold closeSpans
  split
  · exact ⟨_, close_eq _ _ _⟩
  · exact ⟨0, rfl⟩

theorem spans_openSpan (d : Draft) (extra : Extra) : (d.openSpan extra).spans = d.spans ∨
    ∃ m, extra.spanOpen = some m ∧
      (d.openSpan extra).spans = d.spans.push (m.resolve extra.labels) d.rows.length := by
  unfold openSpan
  split
  · rename_i m hm
    exact (enter_eq d.spans _ d.rows.length).imp_right fun h => ⟨m, hm, h⟩
  · exact .inl rfl

variable {Begun : Event → Prop} {d : Draft} {row : Event → Row}

theorem Indents.addOp (h : d.Indents Begun) {op : Event} (hop : (row op).event.isEnd = false) :
    NormalizedLog.Indents Begun (d.addOp row op).rows (d.addOp row op).spans := by
  obtain ⟨k, hk⟩ := d.exists_spans_closeSpans op.extra
  have hclosed := h.rows.iterate_pop k
  rw [← hk] at hclosed
  rw [addOp_eq]
  rcases (d.closeSpans op.extra).spans_openSpan op.extra with hopen | ⟨m, _, hopen⟩
  · rw [hopen]
    exact hclosed.addRow rfl hop
  · rw [hopen, closeSpans_eq]
    exact hclosed.addOpening rfl hop _

theorem Indents.addEnd (h : d.Indents Begun) {stop : Event}
    (hend : (row stop).event.isEnd = true) :
    NormalizedLog.Indents Begun (d.addEnd row stop).rows (d.addEnd row stop).spans := by
  rw [addEnd_eq]
  unfold openPre
  cases hpre : d.pre with
  | none => exact h.rows.addEnd rfl
  | some pre =>
    rw [Option.elim_some]
    rcases d.spans_openSpan pre.extra with hopen | ⟨m, hm, hopen⟩
    · rw [hopen]
      exact h.rows.addEnd rfl
    · rw [hopen]
      exact h.rows.addEndOpening rfl hend ⟨pre, m, h.pre pre hpre, hm, rfl⟩

/-- Every record keeps the indents and the spans in agreement. -/
theorem Indents.step (h : d.Indents Begun) (hrow : ∀ event, (row event).event = event)
    (depth : Nat) {e : Event} (hbegun : e.kind = .preOp → Begun e) :
    (d.step depth row e).Indents Begun := by
  have htaken := taken_step depth row d e
  generalize d.step depth row e = d' at htaken
  cases htaken with
  | start => exact h
  | preOp hkind =>
    rw [dropPre_eq]
    refine ⟨h.rows, fun pre hpre => ?_⟩
    obtain rfl := Option.some.inj hpre
    exact hbegun hkind
  | copy => exact ⟨h.rows, h.pre⟩
  | postOp hkind =>
    have hop : (row (merge e d.pre d.copy)).event.isEnd = false := by
      rw [hrow, merge_eq]
      simp [Event.isEnd, hkind]
    have hd : ({ d with pre := none, copy := none } : Draft).Indents Begun :=
      ⟨h.rows, fun _ hpre => by cases hpre⟩
    refine ⟨hd.addOp hop, fun pre hpre => ?_⟩
    rw [addOp_eq] at hpre
    cases hpre
  | stop hend =>
    refine ⟨h.addEnd (by rw [hrow, hend]), fun pre hpre => ?_⟩
    rw [addEnd_eq, dropPre_eq] at hpre
    cases hpre
  | plain _ _ hend => exact ⟨h.rows.addRow rfl (by rw [hrow, hend]), h.pre⟩

theorem Indents.foldl (h : d.Indents Begun) (hrow : ∀ event, (row event).event = event)
    (depth : Nat) {records : List Event}
    (hbegun : ∀ e ∈ records, e.kind = .preOp → Begun e) :
    (records.foldl (Draft.step depth row) d).Indents Begun := by
  induction records generalizing d with
  | nil => exact h
  | cons e records ih =>
    exact ih (h.step hrow depth (hbegun e List.mem_cons_self))
      fun f hf => hbegun f (List.mem_cons_of_mem _ hf)

end Draft

/-! ## Sessions -/

variable {d : Draft}

theorem indents_addSegment (waypoints : Option Waypoints) (h : d.Indents Begun) (depth : Nat)
    {e : Entry} (next : Option Entry)
    (hbegun : ∀ event ∈ e.session.records, event.kind = .preOp → Begun event) :
    (addSegment waypoints d depth e next).1.Indents Begun := by
  have hsplit := (consumed_cutBefore next e.session.records).append_eq
  have hfold : ((cutBefore next e.session.records).1.foldl
      (Draft.step depth (Row.ofEvent waypoints depth e)) d).Indents Begun :=
    h.foldl (fun _ => rfl) depth fun event hevent =>
      hbegun event (hsplit ▸ List.mem_append_left _ hevent)
  unfold addSegment
  simp only
  rw [Draft.dropPre_eq]
  exact ⟨hfold.rows, fun _ hpre => by cases hpre⟩

theorem indents_addChain (waypoints : Option Waypoints) (h : d.Indents Begun) (depth : Nat)
    {chain : List Entry} (hbegun : ∀ e ∈ chain, ∀ event ∈ e.session.records,
      event.kind = .preOp → Begun event) :
    (addChain waypoints d depth chain).1.Indents Begun := by
  induction chain generalizing d depth with
  | nil => exact h
  | cons e chain ih =>
    have hfirst := indents_addSegment waypoints h depth chain.head? (hbegun e List.mem_cons_self)
    exact ih hfirst (depth + 1) fun f hf => hbegun f (List.mem_cons_of_mem _ hf)

/-- The indent of each row is the number of the spans around it. -/
structure Indented (chain : List Entry) (log : NormalizedLog) : Prop where
  indent : ∀ r row, log.rows[r]? = some row →
    row.indent = log.spans.spans.countP (surrounds (endsFirst log.rows) r)
  /-- The end of a machine is inside no span. -/
  stop : ∀ row ∈ log.rows, row.event.isEnd = true → row.indent = 0
  /-- The row that opens a span is inside the spans that this one lies below. -/
  header : ∀ n s, log.spans.span? n = some s →
    ∃ row, log.rows[s.start]? = some row ∧ Heads log.spans.spans n s row
  /-- At most the first span is not counted: one about to be opened, by an operation of the chain,
      when a machine ended on the first row. -/
  void : ∀ n s, log.spans.span? n = some s → s.isVoid (endsFirst log.rows) = true →
    n = 0 ∧ s.last = none ∧
      Opens (fun pre => pre.kind = .preOp ∧ ∃ e ∈ chain, pre ∈ e.session.records) s.label

/-- What holds of the spans of the builder holds of those of the finished forest. -/
theorem Indents.indented {chain : List Entry} {segments : List Segment} {dropped : Nat}
    (h : Indents (fun pre => pre.kind = .preOp ∧ ∃ e ∈ chain, pre ∈ e.session.records) rows b) :
    Indented chain ⟨rows, b.finish, segments, dropped⟩ where
  indent r row hrow := by
    rw [countP_finish]
    exact h.indent r row hrow
  stop := h.stop
  header n t ht := by
    rw [span?_finish] at ht
    obtain ⟨s, hs, rfl⟩ := Option.map_eq_some_iff.1 ht
    have hrow := List.getElem?_eq_getElem (h.started s (List.mem_of_getElem? hs))
    refine ⟨_, hrow, ?_⟩
    cases h.header n s _ hs hrow with
    | op hop hdepth =>
      refine .op hop (hdepth.mono fun m r hr => ?_)
      obtain ⟨q, hq, _, _, hparent⟩ := exists_span?_finish hr
      exact ⟨q, hq, hparent⟩
    | stop hend hlast => exact .stop hend hlast
  void n t ht hvoid := by
    rw [span?_finish] at ht
    obtain ⟨s, hs, rfl⟩ := Option.map_eq_some_iff.1 ht
    obtain ⟨hfirst, hopens⟩ := h.void n s hs hvoid
    have hlast : s.last = none := h.last_eq_none hs hvoid
    exact ⟨hfirst, hlast, hopens⟩

/-- Every session whose chain exists has a normalized log with the indents of its spans, also of
    those that one session of the chain leaves open to the next. -/
theorem assemble_indented {x : Index} (waypoints : Option Waypoints) {id : String}
    {chain : List Entry} (h : x.chain id = .ok chain) :
    ∃ log, assemble x waypoints id = .ok log ∧ log.Indented chain := by
  refine ⟨ofChain waypoints chain, by rw [assemble, h]; rfl, ?_⟩
  have hempty : Draft.empty.Indents fun pre =>
      pre.kind = .preOp ∧ ∃ e ∈ chain, pre ∈ e.session.records :=
    ⟨indents_empty, fun _ hpre => by cases hpre⟩
  exact (indents_addChain waypoints hempty 0 fun e he event hevent hkind =>
    ⟨hkind, e, he, hevent⟩).rows.indented

/-- A root with an end on the first row, just when a span begins, and with a span around the other
    session; that one has a span inside, and ends just when another begins. -/
def spanningSessions : List Session :=
  let opening (label : String) : Event :=
    { Event.ofKind .preOp with extra := { Extra.empty with spanOpen := some (.labels [label]) } }
  let closing (label : String) : Event :=
    { Event.ofKind .postOp with extra := { Extra.empty with spanClose := some (.labels [label]) } }
  let copy : Event := { Event.ofKind .copy with extra := { Extra.empty with child := "1(1:2)" } }
  let stop : Event := { Event.ofKind .stop with action := "End" }
  [{ Session.ofId "1(0:1)" with
      records := [opening "void", stop, opening "outer", copy, .ofKind .postOp,
        closing "outer"] },
    { Session.ofId "1(1:2)" with
      parentId := "1(0:1)", values := "done",
      records := [.ofKind .start, opening "inner", .ofKind .postOp, .ofKind .other,
        closing "main.inner", opening "late", stop] }]

theorem assemble_indented_spanningSessions :
    ∃ chain log, (Index.ofTrace ⟨spanningSessions, []⟩).chain "1(1:2)" = .ok chain ∧
      chain.map Entry.id = ["1(0:1)", "1(1:2)"] ∧
      assemble (Index.ofTrace ⟨spanningSessions, []⟩) none "1(1:2)" = .ok log ∧
      log.rows.map OpRow.indent = [0, 0, 1, 2, 1, 0] ∧ log.Indented chain := by
  have hids : (((Index.ofTrace ⟨spanningSessions, []⟩).chain "1(1:2)").map fun chain =>
      chain.map Entry.id).toOption = some ["1(0:1)", "1(1:2)"] := by decide +kernel
  have hindents : ((assemble (Index.ofTrace ⟨spanningSessions, []⟩) none "1(1:2)").map fun log =>
      log.rows.map OpRow.indent).toOption = some [0, 0, 1, 2, 1, 0] := by decide +kernel
  obtain ⟨chain, hchain, hids⟩ := exists_ok_of_map hids
  obtain ⟨log, hlog, hindented⟩ := assemble_indented none hchain
  rw [hlog] at hindents
  exact ⟨chain, log, hchain, hids, hlog, Option.some.inj hindents, hindented⟩

end TraceExplorer.NormalizedLog
