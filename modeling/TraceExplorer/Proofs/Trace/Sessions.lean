import TraceExplorer.Proofs.Trace.Line
import TraceExplorer.Proofs.Trace.Story
import Mathlib.Data.List.Forall2
import Mathlib.Data.List.Range

/-
  The session that lines give to a machine, told from the lines alone. `Line.items` says what a
  line adds to its records, `Told` how records and notes go together, and `Belongs` which stray
  lines are its own. Each is read off the story of the machine (`told_story`,
  `unknown_story`), and together they are what reading the lines gives (`ofLines?_describes`).
-/

namespace TraceExplorer.Trace

/-! ## Records and notes -/

/-- What a session says of the copy that made it: the same, with the parent and without the
    child. -/
def linkBack (parent : MachineId) (copy : Event) : Event where
  kind := .copy
  count := copy.count
  ip := copy.ip
  action := copy.action
  extra := { copy.extra with child := none, parent := some parent.text }
  notes := []

/-- A record of a session, or a note to the record before it. -/
inductive Item where
  | record (e : Event)
  | note (text : String)

def Part.item? : Part → Option Item
  | .event e => some (.record e)
  | .link parent copy => some (.record (linkBack parent copy))
  | .note text => some (.note text)
  | .report _ | .stray _ => none

/-- What a line adds to the records of `m`. A machine that copies itself has the link first. -/
def Line.items (m : MachineId) : Line → List Item
  | .stray _ => []
  | .note id text => if id = m then [.note text] else []
  | .record id r => r.event?.elim [] fun e =>
    (if Draft.child? e = some m then [.record (linkBack id e)] else [])
      ++ (if id = m then [.record e] else [])

/-- The records that items give: each record has the notes up to the next one as its own, and
    notes before any record stand in a record of their own that says nothing else. -/
def Told (items : List Item) (records : List Event) : Prop :=
  ∃ (early : List String) (blocks : List (Event × List String)),
    items = early.map .note ++ blocks.flatMap (fun b => .record b.1 :: b.2.map .note) ∧
    records = (if early = [] then [] else [{ Event.ofKind .other with notes := early }])
      ++ blocks.map fun b => { b.1 with notes := b.2 }

theorem told_nil : Told [] [] := ⟨[], [], rfl, rfl⟩

theorem Told.record {items : List Item} {records : List Event} (h : Told items records)
    {e : Event} (he : e.notes = []) : Told (items ++ [.record e]) (records ++ [e]) := by
  obtain ⟨early, blocks, rfl, rfl⟩ := h
  refine ⟨early, blocks ++ [(e, [])], ?_, ?_⟩
  · rw [List.flatMap_append, List.append_assoc]
    rfl
  · have hbare : ({ e with notes := [] } : Event) = e := by rw [← he]
    rw [List.map_append, List.map_singleton, hbare, List.append_assoc]

theorem addNote_concat {s : Session} {before : List Event} {e : Event} (text : String)
    (h : s.records = before ++ [e]) :
    (addNote text s).records = before ++ [{ e with notes := e.notes ++ [text] }] := by
  have hlast : s.records.getLast? = some e := by rw [h, List.getLast?_concat]
  unfold addNote
  simp only [hlast]
  rw [h, List.dropLast_concat]

theorem addNote_of_nil {s : Session} (text : String) (h : s.records = []) :
    (addNote text s).records = [{ Event.ofKind .other with notes := [text] }] := by
  have hlast : s.records.getLast? = none := by rw [h, List.getLast?_nil]
  unfold addNote
  simp only [hlast]

theorem Told.note {items : List Item} {s : Session} (h : Told items s.records) (text : String) :
    Told (items ++ [.note text]) (addNote text s).records := by
  obtain ⟨early, blocks, rfl, hrecords⟩ := h
  rcases List.eq_nil_or_concat blocks with rfl | ⟨before, last, rfl⟩
  · refine ⟨early ++ [text], [], by simp, ?_⟩
    rw [List.map_nil, List.append_nil] at hrecords ⊢
    by_cases hearly : early = []
    · rw [if_pos hearly] at hrecords
      rw [addNote_of_nil text hrecords, hearly]
      rfl
    · rw [if_neg hearly] at hrecords
      have hone : s.records = [] ++ [{ Event.ofKind .other with notes := early }] := hrecords
      rw [addNote_concat text hone, if_neg (by simp)]
      rfl
  · rw [List.concat_eq_append] at hrecords ⊢
    rw [List.map_append, List.map_singleton, ← List.append_assoc] at hrecords
    refine ⟨early, before ++ [(last.1, last.2 ++ [text])], by simp, ?_⟩
    rw [addNote_concat text hrecords, List.map_append, List.map_singleton, List.append_assoc]

theorem notes_event? {r : Record} {e : Event} (h : r.event? = some e) : e.notes = [] := by
  obtain ⟨extra, _, rfl⟩ := Option.map_eq_some_iff.1 h
  rfl

/-- A part that adds a record adds it without notes. -/
def Part.Bare (p : Part) : Prop := ∀ e, p = .event e → e.notes = []

theorem told_foldl {parts : List Part} (h : ∀ p ∈ parts, p.Bare) {s : Session}
    (hs : s.records = []) :
    Told (parts.filterMap Part.item?) (parts.foldl Part.tell s).records := by
  induction parts using List.reverseRecOn with
  | nil =>
    rw [List.foldl_nil, hs]
    exact told_nil
  | append_singleton parts p ih =>
    have ih := ih fun q hq => h q (List.mem_append_left _ hq)
    rw [List.foldl_append, List.foldl_cons, List.foldl_nil, List.filterMap_append]
    cases p with
    | event e => exact ih.record (h _ (by simp) e rfl)
    | link parent copy => exact ih.record (e := linkBack parent copy) rfl
    | note text => exact ih.note text
    | report r =>
      obtain ⟨error, extra, hreport⟩ := r.report_eq (parts.foldl Part.tell s)
      rw [show [Part.report r].filterMap Part.item? = [] from rfl, List.append_nil, Part.tell,
        hreport]
      exact ih
    | stray text =>
      rw [show [Part.stray text].filterMap Part.item? = [] from rfl, List.append_nil]
      exact ih

theorem bare_of_mem_story {m : MachineId} {last : Option MachineId} {lines : List Line}
    {p : Part} (h : p ∈ story m (script last lines)) : p.Bare := by
  rintro e rfl
  obtain ⟨l, _, before, hw⟩ := exists_line_of_mem_script (mem_story.1 h)
  rcases Line.mem_writes.1 hw with ⟨_, _, _, _, h⟩ | ⟨_, _, _, h⟩ | ⟨id, r, e', _, hr, hw⟩
  · cases h
  · cases h
  · rcases Line.mem_recordWrites.1 hw with ⟨_, h⟩ | ⟨_, _, h⟩ | h
    · cases h
    · cases h
    · cases h
      exact notes_event? hr

theorem filterMap_item?_parts (m : MachineId) (last : Option MachineId) (l : Line) :
    (l.parts m last).filterMap Part.item? = l.items m := by
  cases l with
  | stray text =>
    rw [Line.parts, Line.items]
    split <;> rfl
  | note id text =>
    rw [Line.parts, Line.items]
    split <;> rfl
  | record id r =>
    rw [Line.parts, Line.items]
    cases r.event? with
    | none => rfl
    | some e =>
      have hreport : (if e.kind = .stop ∧ id = m then [Part.report r] else []).filterMap
          Part.item? = [] := by split <;> rfl
      rw [Option.elim_some, Option.elim_some, List.filterMap_append, List.filterMap_append,
        hreport, List.nil_append]
      congr 1 <;> split <;> rfl

/-- The records that lines tell a machine. -/
theorem told_story (m : MachineId) (lines : List Line) :
    Told (lines.flatMap (Line.items m)) (ofStory m (story m (script none lines))).records := by
  unfold ofStory
  rw [Session.fillValues_records, ← filterMap_story (filterMap_item?_parts m) none]
  exact told_foldl (fun _ => bare_of_mem_story) rfl

/-! ## Stray lines -/

namespace Line

def stray? : Line → Option String
  | .stray text => some text
  | .note .. | .record .. => none

/-- Stray lines behind the line are those of `m`. -/
def speaksFor (m : MachineId) : Line → Bool
  | .stray _ => false
  | .note id _ => id = m
  | .record id r => id = m && r.action ≠ "Handle"

theorem speaker_eq_some_iff (m : MachineId) (last : Option MachineId) (l : Line) :
    l.speaker last = some m ↔ l.speaksFor m = true ∨ (l.stray?.isSome ∧ last = some m) := by
  cases l with
  | stray text => simp [speaker, speaksFor, stray?]
  | note id text => simp [speaker, speaksFor, stray?]
  | record id r => by_cases h : r.action = "Handle" <;> simp [speaker, speaksFor, stray?, h]

end Line

/-- Line `n` belongs to `m`: it is stray, and so are all lines between it and a line that speaks
    for `m`. -/
def Belongs (m : MachineId) (lines : List Line) (n : Nat) : Prop :=
  lines[n]?.any (·.stray?.isSome) = true ∧ ∃ k < n, lines[k]?.any (Line.speaksFor m) = true ∧
    ∀ j < n, k < j → lines[j]?.any (·.stray?.isSome) = true

instance (m : MachineId) (lines : List Line) : DecidablePred (Belongs m lines) := fun n => by
  unfold Belongs
  infer_instance

/-- The machine that spoke last before line `n`. -/
theorem foldl_speaker_eq_some_iff (m : MachineId) (lines : List Line) {n : Nat}
    (hn : n ≤ lines.length) :
    (lines.take n).foldl (fun last l => l.speaker last) none = some m ↔
      ∃ k < n, lines[k]?.any (Line.speaksFor m) = true ∧
        ∀ j < n, k < j → lines[j]?.any (·.stray?.isSome) = true := by
  induction n with
  | zero => simp
  | succ n ih =>
    have hlt : n < lines.length := hn
    have hget : lines[n]? = some lines[n] := List.getElem?_eq_getElem hlt
    rw [List.take_succ_eq_append_getElem hlt, List.foldl_append, List.foldl_cons, List.foldl_nil,
      Line.speaker_eq_some_iff, ih (Nat.le_of_lt hlt)]
    constructor
    · rintro (hspeaks | ⟨hstray, k, hk, hspeaks, hrest⟩)
      · refine ⟨n, Nat.lt_succ_self n, by rw [hget]; exact hspeaks, fun j hj hnj => ?_⟩
        omega
      · refine ⟨k, by omega, hspeaks, fun j hj hkj => ?_⟩
        rcases Nat.lt_succ_iff_lt_or_eq.1 hj with hj | rfl
        · exact hrest j hj hkj
        · rw [hget]
          exact hstray
    · rintro ⟨k, hk, hspeaks, hrest⟩
      rcases Nat.lt_succ_iff_lt_or_eq.1 hk with hk | rfl
      · have hstray := hrest n (Nat.lt_succ_self n) hk
        rw [hget] at hstray
        exact Or.inr ⟨hstray, k, hk, hspeaks, fun j hj => hrest j (by omega)⟩
      · rw [hget] at hspeaks
        exact Or.inl hspeaks

def Part.stray? : Part → Option String
  | .stray text => some text
  | .event _ | .link .. | .note _ | .report _ => none

theorem Part.tell_unknown (s : Session) (p : Part) :
    (p.tell s).unknown = s.unknown ++ p.stray?.toList := by
  cases p with
  | event | link => exact (List.append_nil _).symm
  | note text =>
    obtain ⟨records, h⟩ := addNote_eq text s
    rw [tell, h]
    exact (List.append_nil _).symm
  | report r =>
    obtain ⟨error, extra, h⟩ := r.report_eq s
    rw [tell, h]
    exact (List.append_nil _).symm
  | stray text => rfl

theorem unknown_foldl (parts : List Part) (s : Session) :
    (parts.foldl Part.tell s).unknown = s.unknown ++ parts.filterMap Part.stray? := by
  induction parts generalizing s with
  | nil => rw [List.foldl_nil, List.filterMap_nil, List.append_nil]
  | cons p parts ih =>
    rw [List.foldl_cons, ih, Part.tell_unknown, List.append_assoc, List.filterMap_cons]
    cases p.stray? <;> rfl

theorem filterMap_stray?_parts (m : MachineId) (last : Option MachineId) (l : Line) :
    (l.parts m last).filterMap Part.stray? = if last = some m then l.stray?.toList else [] := by
  cases l with
  | stray text =>
    rw [Line.parts]
    split <;> rfl
  | note id text =>
    rw [Line.parts]
    split <;> split <;> rfl
  | record id r =>
    have hnone : ((Line.record id r).parts m last).filterMap Part.stray? = [] := by
      rw [Line.parts]
      cases r.event? with
      | none => rfl
      | some e =>
        rw [Option.elim_some, List.filterMap_append, List.filterMap_append]
        split <;> split <;> split <;> rfl
    rw [hnone]
    split <;> rfl

theorem filterMap_stray?_story (m : MachineId) (lines : List Line) {n : Nat}
    (hn : n ≤ lines.length) :
    (story m (script none (lines.take n))).filterMap Part.stray? =
      ((List.range n).filter (Belongs m lines)).filterMap fun k => lines[k]?.bind Line.stray? := by
  induction n with
  | zero => rfl
  | succ n ih =>
    have hlt : n < lines.length := hn
    have hget : lines[n]? = some lines[n] := List.getElem?_eq_getElem hlt
    have hlast := foldl_speaker_eq_some_iff m lines (Nat.le_of_lt hlt)
    have hone : script ((lines.take n).foldl (fun last l => l.speaker last) none) [lines[n]] =
        lines[n].writes ((lines.take n).foldl (fun last l => l.speaker last) none) :=
      List.append_nil _
    rw [List.take_succ_eq_append_getElem hlt, script_append, story_append, List.filterMap_append,
      ih (Nat.le_of_lt hlt), hone, story_writes, filterMap_stray?_parts,
      List.range_succ, List.filter_append,
      List.filterMap_append]
    congr 1
    by_cases hbelongs : Belongs m lines n
    · rw [if_pos (hlast.2 hbelongs.2), List.filter_cons_of_pos (by simpa using hbelongs),
        List.filter_nil, List.filterMap_cons, hget, Option.bind_some]
      cases lines[n].stray? <;> rfl
    · rw [List.filter_cons_of_neg (by simpa using hbelongs), List.filter_nil, List.filterMap_nil]
      split
      · rename_i hm
        cases hstray : lines[n].stray? with
        | none => rfl
        | some text =>
          refine absurd ⟨?_, hlast.1 hm⟩ hbelongs
          rw [hget, Option.any_some, hstray, Option.isSome_some]
      · rfl

/-- The stray lines of a machine. -/
theorem unknown_story (m : MachineId) (lines : List Line) :
    (ofStory m (story m (script none lines))).unknown =
      ((List.range lines.length).filter (Belongs m lines)).filterMap fun n =>
        lines[n]?.bind Line.stray? := by
  have hstray := filterMap_stray?_story m lines (Nat.le_refl lines.length)
  rw [List.take_length] at hstray
  unfold ofStory
  rw [Session.fillValues_unknown, unknown_foldl, hstray]
  rfl

/-! ## The session of a machine -/

namespace Line

/-- The line carries `m`, or it is a copy that made it. -/
def Mentions (m : MachineId) (l : Line) : Prop :=
  (∃ text, l = .note m text) ∨ (∃ r, l = .record m r) ∨
    ∃ id r e, l = .record id r ∧ r.event? = some e ∧ Draft.child? e = some m

end Line

theorem mentions_of_mem_script {m : MachineId} {last : Option MachineId} {lines : List Line}
    (h : m ∈ (script last lines).map Prod.fst) : last = some m ∨ ∃ l ∈ lines, l.Mentions m := by
  induction lines generalizing last with
  | nil => cases h
  | cons l lines ih =>
    rw [script, List.map_append, List.mem_append] at h
    have hline : (∃ l' ∈ l :: lines, l'.Mentions m) ↔
        l.Mentions m ∨ ∃ l' ∈ lines, l'.Mentions m := by simp
    rw [hline]
    rcases h with h | h
    · obtain ⟨⟨_, p⟩, hw, rfl⟩ := List.mem_map.1 h
      rcases Line.mem_writes.1 hw with ⟨id, text, _, hlast, hp⟩ | ⟨id, text, hl, hp⟩ |
        ⟨id, r, e, hl, hr, hw⟩
      · cases hp
        exact Or.inl hlast
      · cases hp
        exact Or.inr (Or.inl (Or.inl ⟨text, hl⟩))
      · rcases Line.mem_recordWrites.1 hw with ⟨_, hp⟩ | ⟨child, hchild, hp⟩ | hp
        · cases hp
          exact Or.inr (Or.inl (Or.inr (Or.inl ⟨r, hl⟩)))
        · cases hp
          exact Or.inr (Or.inl (Or.inr (Or.inr ⟨id, r, e, hl, hr, hchild⟩)))
        · cases hp
          exact Or.inr (Or.inl (Or.inr (Or.inl ⟨r, hl⟩)))
    · rcases ih h with hlast | h
      · -- Behind the line the machine is the last that spoke: the line spoke for it or is stray.
        cases l with
        | stray text => exact Or.inl hlast
        | note id text =>
          obtain rfl := Option.some.inj hlast
          exact Or.inr (Or.inl (Or.inl ⟨text, rfl⟩))
        | record id r =>
          have hid : id = m := by
            unfold Line.speaker at hlast
            simp only at hlast
            split at hlast
            · cases hlast
            · exact Option.some.inj hlast
          exact Or.inr (Or.inl (Or.inr (Or.inl ⟨r, by rw [hid]⟩)))
      · exact Or.inr (Or.inr h)

theorem mem_script_iff {lines : List Line} (h : ∀ l ∈ lines, l.Readable) (m : MachineId) :
    m ∈ (script none lines).map Prod.fst ↔ ∃ l ∈ lines, l.Mentions m := by
  constructor
  · intro hm
    rcases mentions_of_mem_script hm with hlast | hm
    · cases hlast
    · exact hm
  · rintro ⟨l, hl, ⟨text, rfl⟩ | ⟨r, rfl⟩ | ⟨id, r, e, rfl, hr, hchild⟩⟩
    · refine List.mem_map.2 ⟨(m, .note text), mem_script_of_mem hl fun before => ?_, rfl⟩
      exact Line.mem_writes.2 (Or.inr (Or.inl ⟨m, text, rfl, rfl⟩))
    · obtain ⟨e, he⟩ := Option.isSome_iff_exists.1 (h _ hl m r rfl)
      refine List.mem_map.2 ⟨(m, .event e), mem_script_of_mem hl fun before => ?_, rfl⟩
      exact Line.mem_writes.2 (Or.inr (Or.inr ⟨m, r, e, rfl, he,
        Line.mem_recordWrites.2 (Or.inr (Or.inr rfl))⟩))
    · refine List.mem_map.2 ⟨(m, .link id e), mem_script_of_mem hl fun before => ?_, rfl⟩
      exact Line.mem_writes.2 (Or.inr (Or.inr ⟨id, r, e, rfl, hr,
        Line.mem_recordWrites.2 (Or.inr (Or.inl ⟨m, hchild, rfl⟩))⟩))

/-- What the sessions of a trace say of one machine, told from what the lines are. -/
structure Describes (lines : List Line) (m : MachineId) (sessions : List Session) : Prop where
  exists_iff : (∃ s ∈ sessions, s.id = m.text) ↔ ∃ l ∈ lines, l.Mentions m
  records : ∀ s ∈ sessions, s.id = m.text → Told (lines.flatMap (Line.items m)) s.records
  unknown : ∀ s ∈ sessions, s.id = m.text →
    s.unknown = ((List.range lines.length).filter (Belongs m lines)).filterMap fun n =>
      lines[n]?.bind Line.stray?

theorem describes_of_tells {lines : List Line} (h : ∀ l ∈ lines, l.Readable)
    {sessions : List Session} (htells : Tells (script none lines) sessions) (m : MachineId) :
    Describes lines m sessions where
  exists_iff := (htells.exists_iff m).trans (mem_script_iff h m)
  records s hs hid := by
    rw [(htells.of_id_eq hs hid).2]
    exact told_story m lines
  unknown s hs hid := by
    rw [(htells.of_id_eq hs hid).2]
    exact unknown_story m lines

/-- Lines in which every list has a reading give each machine the one session that they
    describe. -/
theorem ofLines?_describes (lines : List String)
    (h : ∀ line ∈ lines, (Line.ofString line).Readable) :
    ∃ read sessions, List.Forall₂ Line.Reads lines read ∧ ofLines? lines = some sessions ∧
      (sessions.map (·.id)).Nodup ∧ ∀ m, Describes read m sessions := by
  have hread : ∀ l ∈ lines.map Line.ofString, l.Readable := by
    intro l hl
    obtain ⟨line, hline, rfl⟩ := List.mem_map.1 hl
    exact h line hline
  obtain ⟨d, hd⟩ := Draft.exists_foldlM hread .empty
  have htells := tells_foldlM hd
  refine ⟨lines.map Line.ofString, d.finish, ?_, ?_, htells.nodup_ids,
    describes_of_tells hread htells⟩
  · exact List.forall₂_map_right_iff.2 (List.forall₂_same.2 fun line _ => Line.reads_ofString line)
  · rw [List.foldlM_map] at hd
    unfold ofLines?
    rw [hd]
    rfl

/-- A session with a note before any record, which is copied by another one and by itself; then
    a stray line, a number that is no word, and a line behind a handle. -/
def tangledLines : List String :=
  ["main.c:3: 1(0:1) #    1 === Begin @0x10 depth=[1 2]", "1(1:2) >>> early",
    "1(0:1) #    2 +++ Copy @0x14 child=<01(1:2)>", "1(1:2) #    3 +++ Copy @0x18 child=1(1:2)",
    "1(1:2) a note", "a stray line  ", "1(1:99999999999999999999) #    1 ... op @0x1",
    "1(0:1) #    4 === Handle @0x1c", "lost"]

theorem ofLines?_describes_tangledLines :
    (∀ line ∈ tangledLines, (Line.ofString line).Readable) ∧
    ∃ read sessions, List.Forall₂ Line.Reads tangledLines read ∧
      ofLines? tangledLines = some sessions ∧ (sessions.map (·.id)).Nodup ∧
      ∀ m, Describes read m sessions := by
  have h : ∀ line ∈ tangledLines, (Line.ofString line).Readable := by decide +kernel
  exact ⟨h, ofLines?_describes tangledLines h⟩

end TraceExplorer.Trace
