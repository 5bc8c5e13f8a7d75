import TraceExplorer.Trace.Load
import TraceExplorer.Proofs.Dict
import TraceExplorer.Proofs.Fallible
import TraceExplorer.Proofs.Index.Build
import TraceExplorer.Proofs.Index.Walk
import TraceExplorer.Proofs.Log.Raw
import TraceExplorer.Proofs.Session.Extra
import TraceExplorer.Proofs.Trace.Sessions

/-
  The links between the sessions of a text. The child of a copy is kept as a canonical text
  (`copiesTo_text`), so a copy is found in the session that made it under the identifier of the
  session made; that one has the last session that copied it as its parent (`parentId_story`).
  So every parent is there and has a copy for each of its children (`linked_of_tells`), also in
  an index of the sessions, where a raw log passes from a parent to a child at a copy.
-/

namespace TraceExplorer

/-! ## The child of a copy -/

namespace KeyValue

theorem str_of_scalar {s : List Char} {t : String} (h : scalar s = .str t) :
    t = String.ofList s := by
  unfold scalar at h
  split at h
  · cases h
  · split at h
    · cases h
    · split at h
      · cases h
      · exact (Json.str.inj h).symm

/-- A value that means a string means itself. -/
theorem str_of_value? {s : List Char} {t : String} (h : value? s = some (.str t)) :
    t = String.ofList s := by
  rw [value?] at h
  split at h
  · exact str_of_scalar (Option.some.inj h)
  · split at h
    · cases h
    · obtain ⟨_, _, hlist⟩ := Option.map_eq_some_iff.1 h
      cases hlist

end KeyValue

namespace Trace

theorem exists_tailValue? {tail : String} {x : Extra} {s : String} (h : tailExtra? tail = some x)
    (hs : x.child = some s) : ∃ v, tailValue? "child" v = some (.str s) := by
  obtain ⟨l, hl, rfl⟩ := Option.map_eq_some_iff.1 h
  rw [Extra.child_ofDict] at hs
  obtain ⟨w, hw, hs⟩ := Option.bind_eq_some_iff.1 hs
  obtain rfl := Json.string?_eq_some hs
  rcases Dict.mem_insertAll (Dict.get?_eq_some_iff.1 hw) with hmem | hmem
  · obtain ⟨e, _, he⟩ := exists_some_of_mem_mapM hl hmem
    obtain ⟨v, hv, heq⟩ := Option.map_eq_some_iff.1 he
    obtain ⟨hkey, rfl⟩ := Prod.mk.inj heq
    rw [hkey] at hv
    exact ⟨e.2, hv⟩
  · cases hmem

/-- A child under which an identifier is found is written canonically: it was replaced by that
    identifier, since a string is kept as it is only where none is found. -/
theorem eq_text_of_tailValue? {v s : String} {m : MachineId}
    (h : tailValue? "child" v = some (.str s)) (hfind : MachineId.find? s.toList = some m) :
    s = m.text := by
  unfold tailValue? at h
  rw [if_pos rfl] at h
  cases hv : MachineId.find? v.toList with
  | some id =>
    rw [hv] at h
    obtain rfl := Json.str.inj (Option.some.inj h)
    rw [MachineId.toList_text, MachineId.find?_chars] at hfind
    rw [Option.some.inj hfind]
  | none =>
    rw [hv] at h
    have hs := KeyValue.str_of_value? h
    rw [String.ofList_toList] at hs
    rw [hs, hv] at hfind
    cases hfind

theorem child?_eq_some_iff {e : Event} {m : MachineId} : Draft.child? e = some m ↔
    e.kind = .copy ∧ ∃ s, e.extra.child = some s ∧ MachineId.find? s.toList = some m := by
  unfold Draft.child?
  by_cases hkind : e.kind = .copy
  · rw [if_pos hkind, Option.bind_eq_some_iff]
    simp only [hkind, true_and]
  · rw [if_neg hkind]
    simp [hkind]

/-- A record that copies `m` names it by its canonical text. -/
theorem copiesTo_text {r : Record} {e : Event} {m : MachineId} (hr : r.event? = some e)
    (h : Draft.child? e = some m) : e.kind = .copy ∧ e.extra.child = some m.text := by
  obtain ⟨hkind, s, hs, hfind⟩ := child?_eq_some_iff.1 h
  obtain ⟨x, hx, rfl⟩ := Option.map_eq_some_iff.1 hr
  obtain ⟨v, hv⟩ := exists_tailValue? hx hs
  rw [eq_text_of_tailValue? hv hfind] at hs
  exact ⟨hkind, hs⟩

/-! ## The parent of a session -/

/-- The machine that copies `m` in the line. -/
def Line.copier? (m : MachineId) : Line → Option MachineId
  | .stray _ | .note .. => none
  | .record id r => if r.event?.bind Draft.child? = some m then some id else none

def Part.parent? : Part → Option MachineId
  | .link parent _ => some parent
  | .event _ | .note _ | .report _ | .stray _ => none

theorem Part.tell_parentId (s : Session) (p : Part) :
    (p.tell s).parentId = (p.parent?.map MachineId.text).or s.parentId := by
  cases p with
  | event | link | stray => rfl
  | note text =>
    obtain ⟨records, h⟩ := addNote_eq text s
    rw [tell, h]
    rfl
  | report r =>
    obtain ⟨error, extra, h⟩ := r.report_eq s
    rw [tell, h]
    rfl

theorem parentId_foldl (parts : List Part) (s : Session) : (parts.foldl Part.tell s).parentId =
    ((parts.filterMap Part.parent?).getLast?.map MachineId.text).or s.parentId := by
  induction parts using List.reverseRecOn with
  | nil => rfl
  | append_singleton parts p ih =>
    rw [List.foldl_append, List.foldl_cons, List.foldl_nil, Part.tell_parentId, ih,
      List.filterMap_append, List.filterMap_cons, List.filterMap_nil]
    cases p.parent? with
    | none => rw [List.append_nil, Option.map_none, Option.none_or]
    | some parent =>
      rw [List.getLast?_concat]
      rfl

theorem filterMap_parent?_parts (m : MachineId) (last : Option MachineId) (l : Line) :
    (l.parts m last).filterMap Part.parent? = (l.copier? m).toList := by
  cases l with
  | stray text | note id text =>
    rw [Line.parts]
    split <;> rfl
  | record id r =>
    rw [Line.parts, Line.copier?]
    cases r.event? with
    | none => rfl
    | some e =>
      have hreport : (if e.kind = .stop ∧ id = m then [Part.report r] else []).filterMap
          Part.parent? = [] := by split <;> rfl
      have hevent : (if id = m then [Part.event e] else []).filterMap Part.parent? = [] := by
        split <;> rfl
      rw [Option.elim_some, Option.bind_some, List.filterMap_append, List.filterMap_append,
        hreport, hevent, List.nil_append, List.append_nil]
      split <;> rfl

/-- The parent of a session is the last machine that copied it. -/
theorem parentId_story (m : MachineId) (lines : List Line) :
    (ofStory m (story m (script none lines))).parentId =
      (lines.filterMap (Line.copier? m)).getLast?.map MachineId.text := by
  unfold ofStory
  rw [Session.fillValues_parentId, parentId_foldl, filterMap_story (filterMap_parent?_parts m),
    ← List.filterMap_eq_flatMap_toList]
  exact Option.or_none

/-! ## Both ends of a link -/

/-- A record that items tell is there, with notes of its own. -/
theorem Told.exists_record {items : List Item} {records : List Event} (h : Told items records)
    {e : Event} (he : .record e ∈ items) : ∃ notes, { e with notes } ∈ records := by
  obtain ⟨early, blocks, rfl, rfl⟩ := h
  rcases List.mem_append.1 he with he | he
  · obtain ⟨_, _, heq⟩ := List.mem_map.1 he
    cases heq
  · obtain ⟨b, hb, he⟩ := List.mem_flatMap.1 he
    rcases List.mem_cons.1 he with heq | he
    · obtain rfl := Item.record.inj heq
      exact ⟨b.2, List.mem_append_right _ (List.mem_map.2 ⟨b, hb, rfl⟩)⟩
    · obtain ⟨_, _, heq⟩ := List.mem_map.1 he
      cases heq

theorem exists_copy_of_copier? {m parent : MachineId} {l : Line} (h : l.copier? m = some parent) :
    ∃ r e, l = .record parent r ∧ r.event? = some e ∧ Draft.child? e = some m := by
  cases l with
  | stray text | note id text => cases h
  | record id r =>
    unfold Line.copier? at h
    simp only at h
    split at h
    · rename_i hchild
      obtain ⟨e, he, hchild⟩ := Option.bind_eq_some_iff.1 hchild
      obtain rfl := Option.some.inj h
      exact ⟨r, e, rfl, he, hchild⟩
    · cases h

theorem isSome_firstCopyTo?_iff {s : Session} {child : String} :
    (s.firstCopyTo? child).isSome ↔ ∃ e ∈ s.records, e.copiesTo child = true := by
  unfold Session.firstCopyTo?
  rw [List.findIdx?_isSome, List.any_eq_true]

theorem isSome_lastCopyCountTo?_iff {s : Session} {child : String} :
    (s.lastCopyCountTo? child).isSome ↔ ∃ e ∈ s.records, e.copiesTo child = true := by
  unfold Session.lastCopyCountTo?
  rw [Option.isSome_map, List.find?_isSome]
  simp only [List.mem_reverse]

/-- The link between a session and its parent: the parent is there, it has a copy for the
    session, and the session has a record of that copy. -/
structure LinkedTo (sessions : List Session) (c : Session) (p : String) : Prop where
  canonical : ∃ parent : MachineId, p = parent.text
  copy : ∃ s ∈ sessions, s.id = p ∧
    (∃ e ∈ s.records, e.kind = .copy ∧ e.extra.child = some c.id) ∧
    (s.firstCopyTo? c.id).isSome ∧ (s.lastCopyCountTo? c.id).isSome
  linkBack : ∃ e ∈ c.records, e.kind = .copy ∧ e.extra.child = none ∧ e.extra.parent = some p

/-- The session that a record copies has a record of that, which names the one that did. -/
theorem exists_linkBack_of_record {lines : List Line} {parent m : MachineId} {r : Record}
    {e : Event} (hl : .record parent r ∈ lines) (he : r.event? = some e)
    (hchild : Draft.child? e = some m) :
    ∃ f ∈ (ofStory m (story m (script none lines))).records,
      f.kind = .copy ∧ f.extra.child = none ∧ f.extra.parent = some parent.text := by
  have hback : Item.record (linkBack parent e) ∈ lines.flatMap (Line.items m) := by
    refine List.mem_flatMap.2 ⟨_, hl, ?_⟩
    rw [Line.items, he]
    simp [hchild]
  obtain ⟨notes, hmem⟩ := (told_story m lines).exists_record hback
  exact ⟨_, hmem, rfl, rfl, rfl⟩

section

variable {lines : List Line} {sessions : List Session}
  (htells : Tells (script none lines) sessions)
include htells

theorem parentId_eq {c : Session} {m : MachineId} (hc : c ∈ sessions) (hid : c.id = m.text) :
    c.parentId = (lines.filterMap (Line.copier? m)).getLast?.map MachineId.text := by
  rw [(htells.of_id_eq hc hid).2]
  exact parentId_story m lines

/-- The session of a record that copies `m` is there, and has the copy. -/
theorem exists_copy_of_record {parent m : MachineId} {r : Record} {e : Event}
    (hl : .record parent r ∈ lines) (he : r.event? = some e) (hchild : Draft.child? e = some m) :
    ∃ s ∈ sessions, s.id = parent.text ∧
      ∃ f ∈ s.records, f.kind = .copy ∧ f.extra.child = some m.text := by
  have hmade : (parent, Part.event e) ∈ script none lines := by
    refine mem_script_of_mem hl fun before => ?_
    exact Line.mem_writes.2 (Or.inr (Or.inr ⟨parent, r, e, rfl, he,
      Line.mem_recordWrites.2 (Or.inr (Or.inr rfl))⟩))
  have hparent := (htells.mem_iff (ofStory parent (story parent (script none lines)))).2
    ⟨parent, List.mem_map_of_mem hmade, rfl⟩
  have hitem : Item.record e ∈ lines.flatMap (Line.items parent) := by
    refine List.mem_flatMap.2 ⟨_, hl, ?_⟩
    rw [Line.items, he]
    simp
  obtain ⟨notes, hmem⟩ := (told_story parent lines).exists_record hitem
  obtain ⟨hkind, htext⟩ := copiesTo_text he hchild
  exact ⟨_, hparent, ofStory_id parent _, _, hmem, hkind, htext⟩

/-- The last copy of a session leaves a record in both sessions. -/
theorem linkedTo_of_parentId {c : Session} {p : String} (hc : c ∈ sessions)
    (hp : c.parentId = some p) : LinkedTo sessions c p := by
  obtain ⟨m, _, rfl⟩ := (htells.mem_iff c).1 hc
  rw [parentId_eq htells hc (ofStory_id m _)] at hp
  obtain ⟨parent, hlast, rfl⟩ := Option.map_eq_some_iff.1 hp
  obtain ⟨l, hl, hcopier⟩ := List.mem_filterMap.1 (List.mem_of_getLast? hlast)
  obtain ⟨r, e, rfl, he, hchild⟩ := exists_copy_of_copier? hcopier
  obtain ⟨s, hs, hid, f, hf, hkind, htext⟩ := exists_copy_of_record htells hl he hchild
  rw [← ofStory_id m (story m (script none lines))] at htext
  have hcopies : ∃ f ∈ s.records,
      f.copiesTo (ofStory m (story m (script none lines))).id = true := by
    refine ⟨f, hf, ?_⟩
    simp [Event.copiesTo, hkind, htext]
  exact
    { canonical := ⟨parent, rfl⟩
      copy := ⟨s, hs, hid, ⟨f, hf, hkind, htext⟩, isSome_firstCopyTo?_iff.2 hcopies,
        isSome_lastCopyCountTo?_iff.2 hcopies⟩
      linkBack := exists_linkBack_of_record hl he hchild }

theorem decodes_of_tells {s : Session} (hs : s ∈ sessions) : s.Decodes := by
  obtain ⟨m, _, rfl⟩ := (htells.mem_iff s).1 hs
  constructor
  · exact ⟨m, by rw [ofStory_id, MachineId.decode_text]⟩
  · intro p hp
    obtain ⟨parent, rfl⟩ := (linkedTo_of_parentId htells hs hp).canonical
    exact ⟨parent, MachineId.decode_text parent⟩

/-- In a chain of the index every session has a copy for the next one. -/
theorem exists_copy_of_chain {id : String} {chain : List Entry}
    (hchain : (Index.ofTrace ⟨sessions, []⟩).chain id = .ok chain) {depth : Nat} {e next : Entry}
    (he : chain[depth]? = some e) (hnext : chain[depth + 1]? = some next) :
    ∃ f ∈ e.session.records, f.copiesTo next.id = true := by
  obtain ⟨hlt, rfl⟩ := List.getElem?_eq_some_iff.1 hnext
  have hparent := List.isChain_iff_getElem.1 (Index.chain_linked hchain) depth hlt
  obtain ⟨hmem, hid⟩ := Index.parent?_eq_some_iff.1 hparent
  obtain rfl : chain[depth] = e := Option.some.inj
    ((List.getElem?_eq_getElem (Nat.lt_of_succ_lt hlt)).symm.trans he)
  have hnextMem := Index.mem_entries_of_chain hchain _ (List.getElem_mem hlt)
  obtain ⟨s, hs, hsid, ⟨f, hf, hkind, hchild⟩, _⟩ :=
    (linkedTo_of_parentId htells (Index.session_mem_of_mem_entries hnextMem) hid).copy
  have hsame : s = chain[depth].session :=
    List.inj_on_of_nodup_map htells.nodup_ids hs (Index.session_mem_of_mem_entries hmem) hsid
  refine ⟨f, hsame ▸ hf, ?_⟩
  unfold Event.copiesTo
  rw [hkind, hchild]
  simp [Entry.id]

/-- Every segment of a raw log but the last ends at a copy of the session of the next one. -/
theorem exists_copy_of_rawLog {waypoints : Option Waypoints} {id : String} {log : RawLog}
    (hlog : RawLog.assemble (Index.ofTrace ⟨sessions, []⟩) waypoints id = .ok log) {depth : Nat}
    {next : Segment} (hnext : log.segments[depth + 1]? = some next) :
    ∃ row, (log.segmentRows depth).getLast? = some row ∧
      row.event.copiesTo next.nodeId = true := by
  obtain ⟨chain, hchain, rfl⟩ := exists_ok_of_map_ok hlog
  obtain ⟨segments, rows, heq, hlaid⟩ := RawLog.laid_ofChain waypoints chain
  rw [heq] at hnext ⊢
  have hlen := hlaid.length_eq
  have hlt : depth + 1 < segments.length := (List.getElem?_eq_some_iff.1 hnext).1
  have hs : segments[depth]? = some segments[depth] := List.getElem?_eq_getElem (by omega)
  have he : chain[depth]? = some chain[depth] := List.getElem?_eq_getElem (by omega)
  have he' : chain[depth + 1]? = some chain[depth + 1] := List.getElem?_eq_getElem (by omega)
  obtain ⟨f, hf, hcopies⟩ := exists_copy_of_chain htells hchain he he'
  have hlays := hlaid.part he hs
  rw [he'] at hlays
  simp only [RawLog.segmentRows, hs, Option.elim_some]
  rw [(hlaid.isOf he' hnext).nodeId]
  exact hlays.getLast?_copiesTo ⟨f, hf, hcopies⟩

end

/-! ## The sessions of a text -/

/-- The links between sessions are sound, `lines` being the lines that they come from. -/
structure Linked (lines : List Line) (sessions : List Session) : Prop where
  ids : ∃ ms : List MachineId, ms.Nodup ∧ sessions.map (·.id) = ms.map MachineId.text
  nodup_ids : (sessions.map (·.id)).Nodup
  malformed : (Index.ofTrace ⟨sessions, []⟩).malformed = []
  /-- The parent is the last machine that copied the session, and there is none if no machine
      did. -/
  parentId : ∀ c ∈ sessions, ∀ m : MachineId, c.id = m.text →
    c.parentId = (lines.filterMap (Line.copier? m)).getLast?.map MachineId.text
  linkedTo : ∀ c ∈ sessions, ∀ p, c.parentId = some p → LinkedTo sessions c p
  rawLog : ∀ (waypoints : Option Waypoints) (id : String) (log : RawLog),
    RawLog.assemble (Index.ofTrace ⟨sessions, []⟩) waypoints id = .ok log →
    ∀ (depth : Nat) (next : Segment), log.segments[depth + 1]? = some next →
      ∃ row, (log.segmentRows depth).getLast? = some row ∧ row.event.copiesTo next.nodeId = true

theorem linked_of_tells {lines : List Line} {sessions : List Session}
    (h : Tells (script none lines) sessions) : Linked lines sessions where
  ids := h.ids
  nodup_ids := h.nodup_ids
  malformed := Index.malformed_ofTrace fun _ => decodes_of_tells h
  parentId _ hc _ hid := parentId_eq h hc hid
  linkedTo _ hc _ hp := linkedTo_of_parentId h hc hp
  rawLog _ _ _ hlog _ _ hnext := exists_copy_of_rawLog h hlog hnext

/-- The bytes are the text of a line that reads as `l`. -/
def Line.ReadsBytes (bytes : List UInt8) (l : Line) : Prop :=
  ∃ line, String.fromUTF8? ⟨bytes.toArray⟩ = some line ∧ Line.Reads line l

theorem readLines_eq_ok {n : Nat} {d d' : Draft} {bytes : List (List UInt8)}
    (h : readLines n d bytes = .ok d') :
    ∃ lines, List.Forall₂ Line.ReadsBytes bytes lines ∧ lines.foldlM Draft.step d = some d' := by
  induction bytes generalizing n d with
  | nil =>
    obtain rfl := Except.ok.inj h
    exact ⟨[], .nil, rfl⟩
  | cons first bytes ih =>
    unfold readLines at h
    cases htext : String.fromUTF8? ⟨first.toArray⟩ with
    | none =>
      simp only [htext] at h
      cases h
    | some line =>
      simp only [htext] at h
      cases hstep : d.step (Line.ofString line) with
      | none =>
        simp only [hstep] at h
        cases h
      | some next =>
        simp only [hstep] at h
        obtain ⟨lines, hreads, hlines⟩ := ih h
        have hfirst : Line.ReadsBytes first (Line.ofString line) :=
          ⟨line, htext, Line.reads_ofString line⟩
        refine ⟨Line.ofString line :: lines, .cons hfirst hreads, ?_⟩
        rw [List.foldlM_cons, hstep]
        exact hlines

/-- The sessions of a text that can be read are linked soundly. -/
theorem ofText_linked (bytes : List UInt8) (t : Trace) (h : ofText bytes = .ok t) :
    ∃ lines, List.Forall₂ Line.ReadsBytes (splitLines bytes) lines ∧ t.rejected = [] ∧
      Linked lines t.sessions := by
  obtain ⟨d, hd, rfl⟩ := exists_ok_of_map_ok h
  obtain ⟨lines, hreads, hlines⟩ := readLines_eq_ok hd
  exact ⟨lines, hreads, rfl, linked_of_tells (tells_foldlM hlines)⟩

/-- Two sessions that copy each other and one that copies itself, the copies of which come in
    between; leading zeros, a number that is no word, and a child that is given twice. -/
def mutualCopies : List UInt8 :=
  (["1(0:1) # 1 +++ Copy @0x1 child=1(01:02)", "1(1:2) # 2 +++ Copy @0x2 child=<1(0:1)>",
    "5(5:5) # 3 +++ Copy @0x3 child=5(5:5)", "1(0:1) # 4 +++ Copy @0x4 child=5(5:5) child=1(1:2)",
    "5(5:5) # 5 +++ Copy @0x5 child=1(1:99999999999999999999)"].map fun line =>
      line.toList.map (fun c => UInt8.ofNat c.toNat) ++ [10]).flatten

theorem ofText_linked_mutualCopies :
    ∃ t, ofText mutualCopies = .ok t ∧ t.sessions.map (·.parentId) =
        [some "1(0:1)", some "1(1:2)", some "5(5:5)"] ∧
      ∃ lines, List.Forall₂ Line.ReadsBytes (splitLines mutualCopies) lines ∧ t.rejected = [] ∧
        Linked lines t.sessions := by
  have hparents : ((ofText mutualCopies).map fun t => t.sessions.map (·.parentId)).toOption =
      some [some "1(0:1)", some "1(1:2)", some "5(5:5)"] := by decide +kernel
  obtain ⟨t, ht, hparents⟩ := exists_ok_of_map hparents
  exact ⟨t, ht, hparents, ofText_linked mutualCopies t ht⟩

end Trace

end TraceExplorer
