import TraceExplorer.Proofs.CommandLine.Dump
import TraceExplorer.Proofs.Session.Reread
import TraceExplorer.Proofs.Trace.Fates
import TraceExplorer.Proofs.Trace.Links

/-
  A dump that is loaded again. The events of every loaded session have tidy data, be they from
  lines or from JSON, and its values are filled in (`stable_of_ofBytes`); so a session of the
  dump is read as it was written, but for what is kept twice in the data of its events. Its
  identifiers and its error are the same, so all sessions of the dump are indexed again, and in
  the order of the dump (`dumpOrder_reload`). So the dump is written again as it was
  (`reloads_load`).
-/

namespace TraceExplorer

/-! ## Sessions that are written alike -/

/-- The session is one that is loaded: reading it again loses nothing that is written. -/
structure Session.Stable (s : Session) : Prop where
  tidy : ∀ e ∈ s.records, e.extra.Tidy
  filled : s.fillValues = s

namespace Trace

/-! ## Sessions of a text -/

theorem tidy_of_event? {r : Record} {e : Event} (h : r.event? = some e) : e.extra.Tidy := by
  obtain ⟨extra, hextra, rfl⟩ := Option.map_eq_some_iff.1 h
  obtain ⟨l, _, rfl⟩ := Option.map_eq_some_iff.1 hextra
  exact Extra.tidy_ofDict _

theorem tidy_of_mem_items {m : MachineId} {l : Line} {e : Event} (h : .record e ∈ l.items m) :
    e.extra.Tidy := by
  cases l with
  | stray => cases h
  | note id text =>
    rw [Line.items] at h
    split at h
    · cases List.mem_singleton.1 h
    · cases h
  | record id r =>
    rw [Line.items] at h
    cases hr : r.event? with
    | none =>
      rw [hr] at h
      cases h
    | some made =>
      have htidy := tidy_of_event? hr
      rw [hr, Option.elim_some, List.mem_append] at h
      rcases h with h | h
      · split at h
        · obtain rfl := Item.record.inj (List.mem_singleton.1 h)
          exact htidy
        · cases h
      · split at h
        · obtain rfl := Item.record.inj (List.mem_singleton.1 h)
          exact htidy
        · cases h

/-- The data of a record are those of an item, or there are none. -/
theorem Told.extra_of_mem {items : List Item} {records : List Event} (h : Told items records)
    {e : Event} (he : e ∈ records) :
    e.extra = .empty ∨ ∃ made, .record made ∈ items ∧ e.extra = made.extra := by
  obtain ⟨early, blocks, rfl, rfl⟩ := h
  rcases List.mem_append.1 he with he | he
  · split at he
    · cases he
    · rw [List.mem_singleton.1 he]
      exact Or.inl rfl
  · obtain ⟨b, hb, rfl⟩ := List.mem_map.1 he
    refine Or.inr ⟨b.1, List.mem_append_right _ (List.mem_flatMap.2 ⟨b, hb, ?_⟩), rfl⟩
    exact List.mem_cons_self

theorem Told.tidy {m : MachineId} {lines : List Line} {records : List Event}
    (h : Told (lines.flatMap (Line.items m)) records) : ∀ e ∈ records, e.extra.Tidy := by
  intro e he
  rcases h.extra_of_mem he with hnone | ⟨made, hmade, hextra⟩
  · rw [hnone]
    intro k v hk
    cases hk
  · obtain ⟨l, _, hl⟩ := List.mem_flatMap.1 hmade
    rw [hextra]
    exact tidy_of_mem_items hl

theorem stable_of_ofText {bytes : List UInt8} {t : Trace} (h : ofText bytes = .ok t) :
    ∀ s ∈ t.sessions, s.Stable := by
  obtain ⟨d, hd, rfl⟩ := exists_ok_of_map_ok h
  obtain ⟨lines, _, hlines⟩ := readLines_eq_ok hd
  intro s hs
  obtain ⟨m, _, rfl⟩ := ((tells_foldlM hlines).mem_iff s).1 hs
  exact ⟨(told_story m lines).tidy, Session.fillValues_fillValues _⟩

/-! ## Sessions of an array -/

theorem stable_of_decode {v : Json} {s : Session} (h : Session.decode v = .ok s) :
    s.fillValues.Stable where
  tidy := by
    rw [Session.fillValues_records]
    exact Session.tidy_of_decode h
  filled := Session.fillValues_fillValues s

theorem stable_of_ofElements (elements : List Json) :
    ∀ s ∈ (ofElements elements).sessions, s.Stable := by
  induction elements using List.reverseRecOn with
  | nil => exact fun s hs => by cases hs
  | append_singleton elements element ih =>
    rw [ofElements_concat, addElement]
    cases h : Session.decode element with
    | error fault => exact ih
    | ok s =>
      intro a ha
      rcases List.mem_append.1 ha with ha | ha
      · exact ih a ha
      · rw [List.mem_singleton.1 ha]
        exact stable_of_decode h

theorem stable_of_ofBytes {bytes : List UInt8} {t : Trace} (h : ofBytes bytes = .ok t) :
    ∀ s ∈ t.sessions, s.Stable := by
  unfold ofBytes at h
  split at h
  · unfold ofJson at h
    split at h
    · obtain rfl := Except.ok.inj h
      exact stable_of_ofElements _
    · cases h
  · exact stable_of_ofText h

theorem ofElements_toJson {sessions : List Session} (h : ∀ s ∈ sessions, s.Stable) :
    ofElements (sessions.map Session.toJson) = ⟨sessions.map Session.reread, []⟩ := by
  induction sessions using List.reverseRecOn with
  | nil => rfl
  | append_singleton sessions s ih =>
    have hs : s.reread.fillValues = s.reread := by
      rw [Session.fillValues_reread, (h s (by simp)).filled]
    rw [List.map_append, List.map_singleton, ofElements_concat,
      ih fun a ha => h a (List.mem_append_left _ ha), addElement, s.decode_toJson]
    simp only [hs, List.map_append, List.map_singleton]

end Trace

/-! ## The dump loaded again -/

namespace Index

theorem decodes_of_mem_entries {t : Trace} {e : Entry} (h : e ∈ (ofTrace t).entries) :
    e.session.Decodes := by
  have hmem := List.mem_map_of_mem (f := Entry.session) h
  rw [show t = ⟨t.sessions, t.rejected⟩ from rfl, entries_ofTrace] at hmem
  obtain ⟨p, hp, hsession⟩ := List.mem_map.1 hmem
  have hnew := of_decide_eq_true (List.mem_filter.1 hp).2
  exact hsession ▸ hnew.decodes

/-- The identifiers of entries are those of their sessions, read again or not. -/
theorem map_mid_eq {l l' : List Entry}
    (h : l.map Entry.session = l'.map fun e => e.session.reread) :
    l.map Entry.mid = l'.map Entry.mid := by
  rw [← List.forall₂_eq_eq_eq, List.forall₂_map_left_iff, List.forall₂_map_right_iff] at h ⊢
  refine h.imp fun e e' hsession => ?_
  have hid : e.session.id = e'.session.id := by
    rw [hsession]
    rfl
  exact Except.ok.inj (e.decoded.symm.trans (hid ▸ e'.decoded))

end Index

namespace CommandLine

open Report (dumpOrder dumpOrder_perm dumpOrder_ascends)

/-- The sessions of a dump, as JSON. -/
def dumpValues (x : Index) : List Json := (dumpOrder x).map fun e => e.session.toJson

/-- What a dump is read as. -/
def reload (ignored : List UInt64) (x : Index) : Index :=
  Index.ofTrace (Trace.ofArray ignored (dumpValues x))

/-- The sessions of an index can be loaded again. -/
structure Loadable (ignored : List UInt64) (x : Index) : Prop where
  stable : ∀ e ∈ x.entries, e.session.Stable
  decodes : ∀ e ∈ x.entries, e.session.Decodes
  kept : ∀ e ∈ x.entries, ¬ Trace.Halted ignored e.session

theorem loadable_load {ignored again : List UInt64} (hagain : again ⊆ ignored)
    {bytes : List UInt8} {t : Trace} (h : Trace.load ignored bytes = .ok t) :
    Loadable again (Index.ofTrace t) := by
  obtain ⟨read, hread, rfl⟩ := exists_ok_of_map_ok h
  have hmem : ∀ e ∈ (Index.ofTrace { read with
      sessions := Trace.dropHalted ignored read.sessions }).entries,
      e.session ∈ read.sessions ∧ ¬ Trace.Halted ignored e.session := by
    intro e he
    have hsession := Index.session_mem_of_mem_entries he
    rw [Trace.dropHalted_eq_filter, List.mem_filter, decide_eq_true_iff] at hsession
    exact hsession
  exact
    { stable := fun e he => Trace.stable_of_ofBytes hread _ (hmem e he).1
      decodes := fun e he => Index.decodes_of_mem_entries he
      kept := fun e he ⟨code, hcode, hhalt⟩ => (hmem e he).2 ⟨code, hagain hcode, hhalt⟩ }

namespace Loadable

variable {ignored : List UInt64} {x : Index} (h : Loadable ignored x)
include h

theorem ofArray_dumpValues : Trace.ofArray ignored (dumpValues x) =
    ⟨(dumpOrder x).map fun e => e.session.reread, []⟩ := by
  have hmem : ∀ e ∈ dumpOrder x, e ∈ x.entries := fun e => (dumpOrder_perm x).mem_iff.1
  have hall : ∀ s ∈ (dumpOrder x).map Entry.session, s.Stable := by
    intro s hs
    obtain ⟨e, he, rfl⟩ := List.mem_map.1 hs
    exact h.stable e (hmem e he)
  have helements := Trace.ofElements_toJson hall
  rw [List.map_map, List.map_map] at helements
  unfold Trace.ofArray dumpValues
  rw [show (fun e : Entry => e.session.toJson) = Session.toJson ∘ Entry.session from rfl,
    helements, Trace.dropHalted_eq_filter]
  refine congrArg (Trace.mk · []) (List.filter_eq_self.2 fun s hs => ?_)
  obtain ⟨e, he, rfl⟩ := List.mem_map.1 hs
  exact decide_eq_true (h.kept e (hmem e he))

/-- The sessions of the dump have identifiers that decode, and machines of their own. -/
theorem distinct : Session.Distinct ((dumpOrder x).map fun e => e.session.reread) where
  decodes s hs := by
    obtain ⟨e, he, rfl⟩ := List.mem_map.1 hs
    have hdecodes := h.decodes e ((dumpOrder_perm x).mem_iff.1 he)
    exact ⟨hdecodes.id, hdecodes.parent⟩
  machs := by
    have hmachs := (dumpOrder_perm x).symm.pairwise x.distinct fun hne => Ne.symm hne
    refine List.pairwise_map.2 (hmachs.imp fun {e e'} hne a b ha hb => ?_)
    obtain rfl := Except.ok.inj (e.decoded.symm.trans ha)
    obtain rfl := Except.ok.inj (e'.decoded.symm.trans hb)
    exact hne

theorem map_session_reload : (reload ignored x).entries.map Entry.session =
    (dumpOrder x).map fun e => e.session.reread := by
  unfold reload
  rw [h.ofArray_dumpValues, Index.entries_ofTrace, Index.newSessions_eq h.distinct]

/-- The sessions are loaded in the order of the dump. -/
theorem dumpOrder_reload : dumpOrder (reload ignored x) = (reload ignored x).entries := by
  refine List.mergeSort_of_pairwise ?_
  have hmids := Index.map_mid_eq h.map_session_reload
  have hascend := List.pairwise_map.2 (dumpOrder_ascends x)
  rw [← hmids, List.pairwise_map] at hascend
  refine hascend.imp fun {a b} hbefore => ?_
  rw [MachineId.compare_eq_lt_iff.2 hbefore]
  rfl

theorem dumpValues_reload : dumpValues (reload ignored x) = dumpValues x := by
  unfold dumpValues
  rw [h.dumpOrder_reload]
  have hvalues := congrArg (List.map Session.toJson) h.map_session_reload
  rw [List.map_map, List.map_map] at hvalues
  refine hvalues.trans (List.map_congr_left fun e he => ?_)
  exact Session.toJson_reread (h.stable e ((dumpOrder_perm x).mem_iff.1 he)).tidy

theorem reported_reload : (reload ignored x).unparsed = [] ∧ (reload ignored x).malformed = [] ∧
    (reload ignored x).duplicates = [] := by
  have hlength := congrArg List.length h.map_session_reload
  have htaken := Index.taken_ofTrace ((dumpOrder x).map fun e => e.session.reread) []
  unfold reload at hlength ⊢
  rw [h.ofArray_dumpValues] at hlength ⊢
  rw [List.length_map, List.length_map] at hlength
  rw [Index.taken, hlength, List.length_map] at htaken
  refine ⟨Index.unparsed_ofTrace _ _, ?_, ?_⟩
  · exact List.length_eq_zero_iff.1 (by omega)
  · exact List.length_eq_zero_iff.1 (by omega)

end Loadable

/-- The dump of the index, loaded again, is whole and makes the same dump. -/
structure Reloads (ignored : List UInt64) (x : Index) : Prop where
  dump : ∀ terse, dumpAnswer terse true x = .json (.arr (dumpValues x))
  again : ∀ terse, dumpAnswer terse true (reload ignored x) = dumpAnswer terse true x
  unparsed : (reload ignored x).unparsed = []
  malformed : (reload ignored x).malformed = []
  duplicates : (reload ignored x).duplicates = []
  values : dumpValues (reload ignored x) = dumpValues x

/-- Sessions and the data of their events are written as they were after they were written and
    read, and so is the dump of any trace. -/
theorem reloads_load :
    (∀ v s, Session.decode v = .ok s → Session.decode s.toJson = .ok s ∧
      Session.decode s.fillValues.toJson = .ok s.fillValues ∧
      s.fillValues.fillValues = s.fillValues) ∧
    (∀ bytes t, Trace.ofText bytes = .ok t → ∀ s ∈ t.sessions,
      ∃ r, Session.decode s.toJson = .ok r ∧ r.toJson = s.toJson) ∧
    (∀ x, Extra.Merged x → ∃ y, Extra.decode x.toJson = .ok y ∧ y.toJson = x.toJson) ∧
    ∀ ignored bytes t, Trace.load ignored bytes = .ok t → ∀ again, again ⊆ ignored →
      Reloads again (Index.ofTrace t) := by
  refine ⟨fun v s h => ?_, fun bytes t h s hs => ?_, fun x h => ?_,
    fun ignored bytes t h again hagain => ?_⟩
  · have hreread := Session.reread_of_decode h
    refine ⟨?_, ?_, s.fillValues_fillValues⟩
    · rw [Session.decode_toJson, hreread]
    · rw [Session.decode_toJson, ← Session.fillValues_reread, hreread]
  · exact ⟨s.reread, s.decode_toJson, Session.toJson_reread (Trace.stable_of_ofText h s hs).tidy⟩
  · refine ⟨x.reread, x.decode_toJson, ?_⟩
    unfold Extra.toJson
    rw [h.tidy.toDict_reread]
  · have hload := loadable_load hagain h
    obtain ⟨hunparsed, hmalformed, hduplicates⟩ := hload.reported_reload
    have hvalues := hload.dumpValues_reload
    exact
      { dump := fun _ => rfl
        again := fun _ => congrArg (fun values => Answer.json (.arr values)) hvalues
        unparsed := hunparsed
        malformed := hmalformed
        duplicates := hduplicates
        values := hvalues }

/-- A session that reported something at its end; its event has a child that is no text. -/
def storedSession : Json :=
  .obj [("id", .str "1(1:2)"), ("extra", .obj [("n", .str "4")]),
    ("records", .arr [.obj [("kind", .str "postOp"), ("extra", .obj [("child", .int 7)])]])]

/-- The session, and one that halted. -/
def storedBytes : List UInt8 :=
  let halted := Json.obj [("id", .str "4(0:4)"), ("error", .str "HALT(2)")]
  (Json.arr [storedSession, halted]).compact.toList.map fun c => UInt8.ofNat c.toNat

/-- A copy that names its child twice, and has a quoted value. -/
def storedLine : List UInt8 :=
  "1(0:1) # 4 +++ Copy @0x4 child=5(5:5) child=1(01:02) s=\"a b\"".toList.map
    fun c => UInt8.ofNat c.toNat

theorem reloads_load_storedSessions :
    (∃ s, Session.decode storedSession = .ok s ∧ s.records.map (·.kind) = [.postOp] ∧
      Session.decode s.toJson = .ok s ∧ Session.decode s.fillValues.toJson = .ok s.fillValues ∧
      s.fillValues.fillValues = s.fillValues) ∧
    (∃ t, Trace.ofText storedLine = .ok t ∧ t.sessions.map (·.id) = ["1(1:2)", "1(0:1)"] ∧
      ∀ s ∈ t.sessions, ∃ r, Session.decode s.toJson = .ok r ∧ r.toJson = s.toJson) ∧
    (∃ x, Extra.Merged x ∧ x.child = some "1(1:2)" ∧
      ∃ y, Extra.decode x.toJson = .ok y ∧ y.toJson = x.toJson) ∧
    ∃ t, Trace.load [2] storedBytes = .ok t ∧
      (Index.ofTrace t).entries.map (·.id) = ["1(1:2)"] ∧ Reloads [2] (Index.ofTrace t) := by
  obtain ⟨hsessions, hlines, hmerged, hload⟩ := reloads_load
  refine ⟨?_, ?_, ?_, ?_⟩
  · have hkinds : ((Session.decode storedSession).map fun s => s.records.map (·.kind)).toOption =
        some [.postOp] := by decide +kernel
    obtain ⟨s, hs, hkinds⟩ := exists_ok_of_map hkinds
    exact ⟨s, hs, hkinds, hsessions storedSession s hs⟩
  · have hids : ((Trace.ofText storedLine).map fun t => t.sessions.map (·.id)).toOption =
        some ["1(1:2)", "1(0:1)"] := by decide +kernel
    obtain ⟨t, ht, hids⟩ := exists_ok_of_map hids
    exact ⟨t, ht, hids, hlines storedLine t ht⟩
  · have hlower : Extra.decode (.obj [("child", .str "1(1:2)"), ("n", .int 1)]) = .ok _ := rfl
    have hupper : Extra.decode (.obj [("child", .int 7)]) = .ok _ := rfl
    have hx := Extra.Merged.overlay (.decoded hlower) (.decoded hupper)
    exact ⟨_, hx, by decide +kernel, hmerged _ hx⟩
  · have hids : ((Trace.load [2] storedBytes).map fun t =>
        (Index.ofTrace t).entries.map (·.id)).toOption = some ["1(1:2)"] := by decide +kernel
    obtain ⟨t, ht, hids⟩ := exists_ok_of_map hids
    exact ⟨t, ht, hids, hload [2] storedBytes t ht [2] (List.Subset.refl _)⟩

end CommandLine

end TraceExplorer
