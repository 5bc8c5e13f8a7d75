import TraceExplorer.Proofs.Index.Lookup
import TraceExplorer.Proofs.MachineId

/-
  What the lines of a trace say of one machine. Lines of many machines are interleaved, a copy
  writes into two sessions, and a stray line goes to the machine that spoke last. `script` lists
  for a whole trace which machine is told what, and reading the trace tells just that
  (`sessions_foldlM`). So the session of a machine is put together from its own parts of the
  script (`sessionOf?_foldl_write`), as if no other machine were in the trace.
-/

namespace TraceExplorer

@[simp] theorem Session.fillValues_id (s : Session) : s.fillValues.id = s.id := by
  unfold fillValues
  split <;> rfl

@[simp] theorem Session.fillValues_parentId (s : Session) :
    s.fillValues.parentId = s.parentId := by
  unfold fillValues
  split <;> rfl

@[simp] theorem Session.fillValues_records (s : Session) : s.fillValues.records = s.records := by
  unfold fillValues
  split <;> rfl

@[simp] theorem Session.fillValues_unknown (s : Session) : s.fillValues.unknown = s.unknown := by
  unfold fillValues
  split <;> rfl

namespace Trace

/-! ## Parts of a session -/

/-- What a line brings to one session. -/
inductive Part where
  | event (e : Event)
  /-- The session was made by a copy of `parent`. -/
  | link (parent : MachineId) (copy : Event)
  | note (text : String)
  /-- What an end reports. -/
  | report (r : Record)
  | stray (text : String)

def Part.tell (s : Session) : Part → Session
  | .event e => { s with records := s.records ++ [e] }
  | .link parent copy => backLink parent copy s
  | .note text => addNote text s
  | .report r => r.report s
  | .stray text => { s with unknown := s.unknown ++ [text] }

theorem Record.report_eq (r : Record) (s : Session) :
    ∃ error extra, r.report s = { s with error, extra } := by
  unfold report
  generalize KeyValue.pairs r.tail = l
  induction l generalizing s with
  | nil => exact ⟨s.error, s.extra, rfl⟩
  | cons e l ih =>
    rw [List.foldl_cons]
    obtain ⟨error, extra, h⟩ := ih (if e.1 = "err" then
      { s with error := KeyValue.unquote e.2 } else { s with extra := s.extra.insert e.1 e.2 })
    rw [h]
    split <;> exact ⟨error, extra, rfl⟩

theorem addNote_eq (text : String) (s : Session) :
    ∃ records, addNote text s = { s with records } := by
  unfold addNote
  split <;> exact ⟨_, rfl⟩

theorem Part.tell_id (s : Session) (p : Part) : (p.tell s).id = s.id := by
  cases p with
  | event | stray | link => rfl
  | note text =>
    obtain ⟨records, h⟩ := addNote_eq text s
    rw [tell, h]
  | report r =>
    obtain ⟨error, extra, h⟩ := r.report_eq s
    rw [tell, h]

theorem foldl_tell_id (s : Session) (parts : List Part) : (parts.foldl Part.tell s).id = s.id := by
  induction parts generalizing s with
  | nil => rfl
  | cons p parts ih => rw [List.foldl_cons, ih, Part.tell_id]

/-- The session of a machine with one more part; a part makes the session that is not there. -/
def tellTo (m : MachineId) (found : Option Session) (p : Part) : Option Session :=
  some (p.tell (found.getD (Session.ofId m.text)))

theorem foldl_tellTo_some (m : MachineId) (s : Session) (parts : List Part) :
    parts.foldl (tellTo m) (some s) = some (parts.foldl Part.tell s) := by
  induction parts generalizing s with
  | nil => rfl
  | cons p parts ih => exact ih (p.tell s)

theorem foldl_tellTo_none (m : MachineId) (parts : List Part) :
    parts.foldl (tellTo m) none =
      if parts = [] then none else some (parts.foldl Part.tell (Session.ofId m.text)) := by
  cases parts with
  | nil => rfl
  | cons p parts =>
    rw [if_neg (List.cons_ne_nil p parts)]
    exact foldl_tellTo_some m _ parts

/-! ## The script of a trace -/

namespace Line

/-- The machine that stray lines belong to behind a line, given the one before it. -/
def speaker (last : Option MachineId) : Line → Option MachineId
  | .stray _ => last
  | .note id _ => some id
  | .record id r => if r.action = "Handle" then none else some id

/-- Who is told what by a record. A machine that copies itself has the link first. -/
def recordWrites (id : MachineId) (r : Record) (e : Event) : List (MachineId × Part) :=
  (if e.kind = .stop then [(id, .report r)] else [])
    ++ ((Draft.child? e).map fun child => (child, Part.link id e)).toList ++ [(id, .event e)]

/-- Who is told what by a line, given the machine that spoke last. -/
def writes (last : Option MachineId) : Line → List (MachineId × Part)
  | .stray text => (last.map fun id => (id, Part.stray text)).toList
  | .note id text => [(id, .note text)]
  | .record id r => r.event?.elim [] (recordWrites id r)

theorem mem_recordWrites {id : MachineId} {r : Record} {e : Event} {w : MachineId × Part} :
    w ∈ recordWrites id r e ↔ (e.kind = .stop ∧ w = (id, .report r)) ∨
      (∃ child, Draft.child? e = some child ∧ w = (child, .link id e)) ∨ w = (id, .event e) := by
  unfold recordWrites
  rw [List.append_assoc, List.mem_append, List.mem_append, List.mem_singleton]
  refine or_congr ?_ (or_congr ?_ Iff.rfl)
  · split
    · rename_i hstop
      simp [hstop]
    · rename_i hstop
      simp [hstop]
  · rw [Option.mem_toList, Option.map_eq_some_iff]
    simp only [eq_comm]

/-- All that a line tells, and to whom. -/
theorem mem_writes {l : Line} {last : Option MachineId} {w : MachineId × Part} :
    w ∈ l.writes last ↔
      (∃ id text, l = .stray text ∧ last = some id ∧ w = (id, .stray text)) ∨
      (∃ id text, l = .note id text ∧ w = (id, .note text)) ∨
      ∃ id r e, l = .record id r ∧ r.event? = some e ∧ w ∈ recordWrites id r e := by
  cases l with
  | stray text => cases last <;> simp [writes]
  | note id text => simp [writes]
  | record id r => cases h : r.event? <;> simp [writes, h]

/-- The lists in the line have a reading. -/
def Readable (l : Line) : Prop := ∀ id r, l = .record id r → r.event?.isSome

instance : DecidablePred Readable
  | .stray _ | .note .. => .isTrue fun _ _ h => by cases h
  | .record _ r => decidable_of_iff (r.event?.isSome = true)
    ⟨fun h _ _ heq => by cases heq; exact h, fun h => h _ _ rfl⟩

end Line

/-- Who is told what by lines, given the machine that spoke last before them. -/
def script : Option MachineId → List Line → List (MachineId × Part)
  | _, [] => []
  | last, l :: lines => l.writes last ++ script (l.speaker last) lines

theorem exists_line_of_mem_script {last : Option MachineId} {lines : List Line}
    {w : MachineId × Part} (h : w ∈ script last lines) :
    ∃ l ∈ lines, ∃ before, w ∈ l.writes before := by
  induction lines generalizing last with
  | nil => cases h
  | cons l lines ih =>
    rcases List.mem_append.1 h with h | h
    · exact ⟨l, List.mem_cons_self, last, h⟩
    · obtain ⟨l', hl', before, hw⟩ := ih h
      exact ⟨l', List.mem_cons_of_mem _ hl', before, hw⟩

theorem mem_script_of_mem {last : Option MachineId} {lines : List Line} {l : Line}
    {w : MachineId × Part} (hl : l ∈ lines) (hw : ∀ before, w ∈ l.writes before) :
    w ∈ script last lines := by
  induction lines generalizing last with
  | nil => cases hl
  | cons l' lines ih =>
    rcases List.mem_cons.1 hl with rfl | hl
    · exact List.mem_append_left _ (hw last)
    · exact List.mem_append_right _ (ih hl)

theorem script_append (last : Option MachineId) (lines more : List Line) :
    script last (lines ++ more) = script last lines
      ++ script (lines.foldl (fun last l => l.speaker last) last) more := by
  induction lines generalizing last with
  | nil => rfl
  | cons l lines ih =>
    rw [List.cons_append, script, script, ih, List.append_assoc]
    rfl

/-- The parts of a script that one machine is told. -/
def story (m : MachineId) (ws : List (MachineId × Part)) : List Part :=
  (ws.filter (·.1 == m)).map Prod.snd

theorem story_append (m : MachineId) (v w : List (MachineId × Part)) :
    story m (v ++ w) = story m v ++ story m w := by
  unfold story
  rw [List.filter_append, List.map_append]

theorem story_eq_nil_iff {m : MachineId} {ws : List (MachineId × Part)} :
    story m ws = [] ↔ m ∉ ws.map Prod.fst := by
  unfold story
  rw [List.map_eq_nil_iff, List.filter_eq_nil_iff, List.mem_map]
  constructor
  · rintro h ⟨w, hw, hm⟩
    exact h w hw (by simpa using hm)
  · intro h w hw hm
    exact h ⟨w, hw, by simpa using hm⟩

theorem story_singleton (m id : MachineId) (p : Part) :
    story m [(id, p)] = if id = m then [p] else [] := by
  by_cases hid : id = m <;> simp [story, hid]

/-- What a line tells `m`, given the machine that spoke last. -/
def Line.parts (m : MachineId) (last : Option MachineId) : Line → List Part
  | .stray text => if last = some m then [.stray text] else []
  | .note id text => if id = m then [.note text] else []
  | .record id r => r.event?.elim [] fun e =>
    (if e.kind = .stop ∧ id = m then [.report r] else [])
      ++ (if Draft.child? e = some m then [.link id e] else [])
      ++ (if id = m then [.event e] else [])

theorem story_recordWrites (m id : MachineId) (r : Record) (e : Event) :
    story m (Line.recordWrites id r e) =
      (if e.kind = .stop ∧ id = m then [.report r] else [])
        ++ (if Draft.child? e = some m then [.link id e] else [])
        ++ (if id = m then [.event e] else []) := by
  unfold Line.recordWrites
  rw [story_append, story_append, story_singleton]
  congr 2
  · by_cases hstop : e.kind = .stop
    · rw [if_pos hstop, story_singleton]
      simp [hstop]
    · rw [if_neg hstop, if_neg fun h => hstop h.1]
      rfl
  · cases Draft.child? e with
    | none => rfl
    | some child =>
      rw [Option.map_some, Option.toList_some, story_singleton]
      simp

theorem story_writes (m : MachineId) (last : Option MachineId) (l : Line) :
    story m (l.writes last) = l.parts m last := by
  cases l with
  | stray text =>
    rw [Line.writes, Line.parts]
    cases last with
    | none => rfl
    | some id =>
      rw [Option.map_some, Option.toList_some, story_singleton]
      simp
  | note id text => rw [Line.writes, Line.parts, story_singleton]
  | record id r =>
    rw [Line.writes, Line.parts]
    cases r.event? with
    | none => rfl
    | some e => exact story_recordWrites m id r e

/-- What is read off the story of a machine is read off its lines one by one, if it does not
    matter which machine spoke last. -/
theorem filterMap_story {β : Type} {m : MachineId} {f : Part → Option β} {g : Line → List β}
    (h : ∀ last l, (Line.parts m last l).filterMap f = g l) (last : Option MachineId)
    (lines : List Line) : (story m (script last lines)).filterMap f = lines.flatMap g := by
  induction lines generalizing last with
  | nil => rfl
  | cons l lines ih =>
    rw [script, story_append, List.filterMap_append, List.flatMap_cons, story_writes, h, ih]

theorem mem_story {m : MachineId} {ws : List (MachineId × Part)} {p : Part} :
    p ∈ story m ws ↔ (m, p) ∈ ws := by
  unfold story
  rw [List.mem_map]
  constructor
  · rintro ⟨w, hw, rfl⟩
    have hm : w.1 = m := by simpa using (List.mem_filter.1 hw).2
    exact hm ▸ (List.mem_filter.1 hw).1
  · intro h
    exact ⟨(m, p), List.mem_filter.2 ⟨h, by simp⟩, rfl⟩

def write (sessions : List (MachineId × Session)) (w : MachineId × Part) :
    List (MachineId × Session) :=
  change w.1 (fun s => w.2.tell s) sessions

namespace Draft

theorem sessions_addEvent (d : Draft) (id : MachineId) (r : Record) (e : Event) :
    (d.addEvent id r e).sessions = (Line.recordWrites id r e).foldl write d.sessions := by
  unfold addEvent Line.recordWrites
  by_cases hstop : e.kind = .stop
  · cases hchild : child? e <;> simp only [hstop, if_true] <;> rfl
  · cases hchild : child? e <;> simp only [hstop, if_false] <;> rfl

theorem step_eq_some {d d' : Draft} {l : Line} (h : d.step l = some d') :
    d'.sessions = (l.writes d.current).foldl write d.sessions ∧
      d'.current = l.speaker d.current := by
  cases l with
  | stray text =>
    unfold step at h
    cases hlast : d.current with
    | none =>
      simp only [hlast] at h
      obtain rfl := Option.some.inj h
      exact ⟨rfl, hlast⟩
    | some id =>
      simp only [hlast] at h
      obtain rfl := Option.some.inj h
      exact ⟨rfl, hlast⟩
  | note id text =>
    obtain rfl := Option.some.inj h
    exact ⟨rfl, rfl⟩
  | record id r =>
    obtain ⟨e, he, rfl⟩ := Option.map_eq_some_iff.1 h
    refine ⟨?_, rfl⟩
    rw [sessions_addEvent, Line.writes, he]
    rfl

/-- Reading lines tells what stands in their script. -/
theorem sessions_foldlM {d d' : Draft} {lines : List Line} (h : lines.foldlM step d = some d') :
    d'.sessions = (script d.current lines).foldl write d.sessions := by
  induction lines generalizing d with
  | nil =>
    obtain rfl := Option.some.inj h
    rfl
  | cons l lines ih =>
    rw [List.foldlM_cons] at h
    obtain ⟨between, hstep, h⟩ := Option.bind_eq_some_iff.1 h
    obtain ⟨hsessions, hlast⟩ := step_eq_some hstep
    rw [script, List.foldl_append, ← hsessions, ← hlast, ih h]

theorem exists_step {l : Line} (h : l.Readable) (d : Draft) : ∃ d', d.step l = some d' := by
  cases l with
  | stray text =>
    unfold step
    cases d.current <;> exact ⟨_, rfl⟩
  | note id text => exact ⟨_, rfl⟩
  | record id r =>
    obtain ⟨e, he⟩ := Option.isSome_iff_exists.1 (h id r rfl)
    exact ⟨d.addEvent id r e, by rw [step, he]; rfl⟩

theorem exists_foldlM {lines : List Line} (h : ∀ l ∈ lines, l.Readable) (d : Draft) :
    ∃ d', lines.foldlM step d = some d' := by
  induction lines generalizing d with
  | nil => exact ⟨d, rfl⟩
  | cons l lines ih =>
    obtain ⟨between, hstep⟩ := exists_step (h l List.mem_cons_self) d
    obtain ⟨d', hlines⟩ := ih (fun a ha => h a (List.mem_cons_of_mem _ ha)) between
    refine ⟨d', ?_⟩
    rw [List.foldlM_cons, hstep]
    exact hlines

end Draft

/-! ## Sessions by machine -/

/-- The session of a machine, if there is one yet. -/
def sessionOf? (sessions : List (MachineId × Session)) (m : MachineId) : Option Session :=
  (sessions.find? (·.1 == m)).map (·.2)

theorem sessionOf?_change (sessions : List (MachineId × Session)) (id m : MachineId)
    (f : Session → Session) : sessionOf? (change id f sessions) m =
      if id = m then some (f ((sessionOf? sessions m).getD (Session.ofId m.text)))
      else sessionOf? sessions m := by
  unfold sessionOf?
  induction sessions with
  | nil =>
    by_cases hid : id = m
    · subst hid
      simp [change]
    · simp [change, hid]
  | cons e l ih =>
    by_cases he : e.1 = id
    · by_cases hid : id = m
      · simp [change, he, hid]
      · simp [change, he, hid]
    · rw [change, if_neg he]
      by_cases hm : e.1 = m
      · have hid : id ≠ m := fun h => he (hm.trans h.symm)
        simp [hm, hid]
      · have hm' : (e.1 == m) = false := beq_eq_false_iff_ne.2 hm
        simpa only [List.find?_cons, hm'] using ih

/-- A machine is told its own story. -/
theorem sessionOf?_foldl_write (sessions : List (MachineId × Session))
    (ws : List (MachineId × Part)) (m : MachineId) :
    sessionOf? (ws.foldl write sessions) m =
      (story m ws).foldl (tellTo m) (sessionOf? sessions m) := by
  induction ws generalizing sessions with
  | nil => rfl
  | cons w ws ih =>
    rw [List.foldl_cons, ih, write, sessionOf?_change]
    by_cases hw : w.1 = m
    · have hstory : story m (w :: ws) = w.2 :: story m ws := by
        unfold story
        rw [List.filter_cons_of_pos (by simpa using hw), List.map_cons]
      rw [hstory, if_pos hw, List.foldl_cons]
      rfl
    · have hstory : story m (w :: ws) = story m ws := by
        unfold story
        rw [List.filter_cons_of_neg (by simpa using hw)]
      rw [hstory, if_neg hw]

theorem map_fst_change (id : MachineId) (f : Session → Session)
    (sessions : List (MachineId × Session)) : (change id f sessions).map Prod.fst =
      if id ∈ sessions.map Prod.fst then sessions.map Prod.fst
      else sessions.map Prod.fst ++ [id] := by
  induction sessions with
  | nil => rfl
  | cons e l ih =>
    by_cases he : e.1 = id
    · simp [change, he]
    · simp only [change, if_neg he, List.map_cons, List.mem_cons, Ne.symm he, false_or, ih]
      split <;> rfl

/-- No machine gets two sessions. -/
theorem nodup_foldl_write {sessions : List (MachineId × Session)}
    (h : (sessions.map Prod.fst).Nodup) (ws : List (MachineId × Part)) :
    ((ws.foldl write sessions).map Prod.fst).Nodup := by
  induction ws generalizing sessions with
  | nil => exact h
  | cons w ws ih =>
    refine ih ?_
    rw [write, map_fst_change]
    split
    · exact h
    · rename_i hnew
      refine List.nodup_append.2 ⟨h, List.nodup_singleton _, fun a ha b hb hab => hnew ?_⟩
      rw [← List.mem_singleton.1 hb, ← hab]
      exact ha

theorem sessionOf?_eq_some_iff {sessions : List (MachineId × Session)}
    (h : (sessions.map Prod.fst).Nodup) {m : MachineId} {s : Session} :
    sessionOf? sessions m = some s ↔ (m, s) ∈ sessions := by
  unfold sessionOf?
  rw [Option.map_eq_some_iff]
  constructor
  · rintro ⟨e, he, rfl⟩
    have hkey : e.1 = m := by simpa using List.find?_some he
    exact hkey ▸ List.mem_of_find?_eq_some he
  · intro hmem
    have hinj : ∀ a ∈ sessions, ∀ b ∈ sessions, a.1 = b.1 → a = b :=
      fun a ha b hb => List.inj_on_of_nodup_map h ha hb
    exact ⟨(m, s), (find?_key_eq_some_iff hinj).2 ⟨hmem, rfl⟩, rfl⟩

/-! ## The sessions of a script -/

/-- The session of a machine with a story. -/
def ofStory (m : MachineId) (parts : List Part) : Session :=
  (parts.foldl Part.tell (Session.ofId m.text)).fillValues

theorem ofStory_id (m : MachineId) (parts : List Part) : (ofStory m parts).id = m.text := by
  unfold ofStory
  rw [Session.fillValues_id, foldl_tell_id]
  rfl

/-- There is one session for each machine of the script, and it has the story of the machine. -/
structure Tells (ws : List (MachineId × Part)) (sessions : List Session) : Prop where
  ids : ∃ ms : List MachineId, ms.Nodup ∧ sessions.map (·.id) = ms.map MachineId.text
  mem_iff : ∀ s, s ∈ sessions ↔ ∃ m ∈ ws.map Prod.fst, s = ofStory m (story m ws)

namespace Tells

variable {ws : List (MachineId × Part)} {sessions : List Session}

theorem nodup_ids (h : Tells ws sessions) : (sessions.map (·.id)).Nodup := by
  obtain ⟨ms, hms, hids⟩ := h.ids
  rw [hids]
  exact hms.map MachineId.text_injective

theorem of_id_eq (h : Tells ws sessions) {s : Session} {m : MachineId} (hs : s ∈ sessions)
    (hid : s.id = m.text) : m ∈ ws.map Prod.fst ∧ s = ofStory m (story m ws) := by
  obtain ⟨m', hm', rfl⟩ := (h.mem_iff s).1 hs
  rw [ofStory_id] at hid
  rw [← MachineId.text_injective hid]
  exact ⟨hm', rfl⟩

theorem exists_iff (h : Tells ws sessions) (m : MachineId) :
    (∃ s ∈ sessions, s.id = m.text) ↔ m ∈ ws.map Prod.fst := by
  constructor
  · rintro ⟨s, hs, hid⟩
    exact (h.of_id_eq hs hid).1
  · intro hm
    exact ⟨_, (h.mem_iff _).2 ⟨m, hm, rfl⟩, ofStory_id m _⟩

end Tells

theorem nodup_foldl_write_nil (ws : List (MachineId × Part)) :
    ((ws.foldl write []).map Prod.fst).Nodup := by
  have hempty : (([] : List (MachineId × Session)).map Prod.fst).Nodup := List.nodup_nil
  exact nodup_foldl_write hempty ws

theorem mem_foldl_write_iff {ws : List (MachineId × Part)} {m : MachineId} {s : Session} :
    (m, s) ∈ ws.foldl write [] ↔
      m ∈ ws.map Prod.fst ∧ s = (story m ws).foldl Part.tell (Session.ofId m.text) := by
  rw [← sessionOf?_eq_some_iff (nodup_foldl_write_nil ws), sessionOf?_foldl_write,
    show sessionOf? [] m = none from rfl, foldl_tellTo_none]
  by_cases hm : m ∈ ws.map Prod.fst
  · have hne : story m ws ≠ [] := fun hnil => story_eq_nil_iff.1 hnil hm
    rw [if_neg hne]
    simp only [Option.some.injEq, hm, true_and]
    exact eq_comm
  · rw [if_pos (story_eq_nil_iff.2 hm)]
    simp [hm]

theorem map_id_finish {d : Draft} {ws : List (MachineId × Part)}
    (h : d.sessions = ws.foldl write []) :
    d.finish.map (·.id) = (d.sessions.map Prod.fst).map MachineId.text := by
  unfold Draft.finish
  rw [List.map_map, List.map_map]
  refine List.map_congr_left fun e he => ?_
  obtain ⟨_, htold⟩ := mem_foldl_write_iff.1 (h ▸ he : (e.1, e.2) ∈ _)
  rw [Function.comp, Session.fillValues_id, htold, foldl_tell_id]
  rfl

theorem tells_finish {d : Draft} {ws : List (MachineId × Part)}
    (h : d.sessions = ws.foldl write []) : Tells ws d.finish := by
  constructor
  · refine ⟨d.sessions.map Prod.fst, ?_, map_id_finish h⟩
    rw [h]
    exact nodup_foldl_write_nil ws
  · intro s
    unfold Draft.finish
    rw [List.mem_map, h]
    constructor
    · rintro ⟨e, he, rfl⟩
      obtain ⟨hm, htold⟩ := mem_foldl_write_iff.1 (show (e.1, e.2) ∈ _ from he)
      refine ⟨e.1, hm, ?_⟩
      rw [htold]
      rfl
    · rintro ⟨m, hm, rfl⟩
      exact ⟨(m, _), mem_foldl_write_iff.2 ⟨hm, rfl⟩, rfl⟩

/-- What lines read as tells their script. -/
theorem tells_foldlM {d : Draft} {lines : List Line}
    (h : lines.foldlM Draft.step .empty = some d) : Tells (script none lines) d.finish :=
  tells_finish (Draft.sessions_foldlM h)

end Trace

end TraceExplorer
