import TraceExplorer.Proofs.Trace.Links

/-
  The order of the sessions of a text. A session stands where its machine was first told something
  (`map_fst_foldl_write`), and a stray line tells none that is not there (`eraseDups_writes`). So
  the sessions come in the order in which the lines make them (`map_fst_foldlM`). A copy makes the
  session that it copies to before the one that it stands in; so this is the order in which they
  appear unless both appear with one copy (`eraseDups_made_eq_iff`).
-/

namespace TraceExplorer.Trace

/-! ## The first of each -/

section

variable {α : Type} [BEq α] [LawfulBEq α] {l l' : List α} {a b : α}

theorem eraseDups_concat_of_mem (h : a ∈ l) : (l ++ [a]).eraseDups = l.eraseDups := by
  rw [List.eraseDups_append]
  simp [List.removeAll, h]

theorem eraseDups_concat_of_not_mem (h : a ∉ l) :
    (l ++ [a]).eraseDups = l.eraseDups ++ [a] := by
  rw [List.eraseDups_append]
  simp [List.removeAll, h, List.eraseDups_cons]

/-- What comes first in a longer list is settled by what comes first in its front. -/
theorem eraseDups_append_congr (h : l.eraseDups = l'.eraseDups) (more : List α) :
    (l ++ more).eraseDups = (l' ++ more).eraseDups := by
  have hmem : ∀ a, a ∈ l ↔ a ∈ l' := fun a => by
    rw [← List.mem_eraseDups, h, List.mem_eraseDups]
  have hrest : more.removeAll l = more.removeAll l' := by
    unfold List.removeAll
    exact List.filter_congr fun a _ => by simp [hmem]
  rw [List.eraseDups_append, List.eraseDups_append, h, hrest]

/-- The order of two does not matter where one of them is not the first, or they are the same. -/
theorem eraseDups_swap (h : a = b ∨ a ∈ l ∨ b ∈ l) :
    (l ++ [a, b]).eraseDups = (l ++ [b, a]).eraseDups := by
  have hskip : ∀ {a b : α}, a ∈ l → (l ++ [a, b]).eraseDups = (l ++ [b, a]).eraseDups := by
    intro a b ha
    rw [List.append_cons, List.append_cons l b,
      eraseDups_append_congr (eraseDups_concat_of_mem ha),
      eraseDups_concat_of_mem (List.mem_append_left _ ha)]
  rcases h with rfl | ha | hb
  · rfl
  · exact hskip ha
  · exact (hskip hb).symm

/-- Two that come first where the lists differ are the same. -/
theorem eq_of_eraseDups_eq {more more' : List α} (ha : a ∉ l) (hb : b ∉ l)
    (h : (l ++ a :: more).eraseDups = (l ++ b :: more').eraseDups) : a = b := by
  rw [List.append_cons, List.append_cons l b, @List.eraseDups_append _ _ _ (l ++ [a]),
    @List.eraseDups_append _ _ _ (l ++ [b]), eraseDups_concat_of_not_mem ha,
    eraseDups_concat_of_not_mem hb, List.append_assoc, List.append_assoc] at h
  exact (List.cons.inj (List.append_cancel_left h)).1

end

/-- The sessions stand in the order in which their machines were first told something. -/
theorem map_fst_foldl_write {sessions : List (MachineId × Session)} {ids : List MachineId}
    (h : sessions.map Prod.fst = ids.eraseDups) (ws : List (MachineId × Part)) :
    (ws.foldl write sessions).map Prod.fst = (ids ++ ws.map Prod.fst).eraseDups := by
  induction ws generalizing sessions ids with
  | nil => rw [List.map_nil, List.append_nil, List.foldl_nil, h]
  | cons w ws ih =>
    rw [List.foldl_cons, List.map_cons, List.append_cons]
    refine ih ?_
    rw [write, map_fst_change, h]
    by_cases hw : w.1 ∈ ids
    · rw [if_pos (List.mem_eraseDups.2 hw), eraseDups_concat_of_mem hw]
    · rw [if_neg (mt List.mem_eraseDups.1 hw), eraseDups_concat_of_not_mem hw]

/-! ## The machines of a line -/

namespace Line

/-- The machines of a line in the order of its text: the one that it carries, and the one that it
    copies to. -/
def machines : Line → List MachineId
  | .stray _ => []
  | .note id _ => [id]
  | .record id r => id :: (r.event?.bind Draft.child?).toList

/-- The machines of a line in the order in which it makes their sessions. -/
def made : Line → List MachineId
  | .stray _ => []
  | .note id _ => [id]
  | .record id r => (r.event?.bind Draft.child?).toList ++ [id]

theorem mem_made {m : MachineId} {l : Line} : m ∈ l.made ↔ l.Mentions m := by
  unfold Mentions
  cases l with
  | stray text => simp [made]
  | note id text => simp [made, eq_comm]
  | record id r =>
    simp only [made, List.mem_append, Option.mem_toList, Option.bind_eq_some_iff,
      List.mem_singleton]
    constructor
    · rintro (⟨e, he, hchild⟩ | rfl)
      · exact .inr (.inr ⟨id, r, e, rfl, he, hchild⟩)
      · exact .inr (.inl ⟨r, rfl⟩)
    · rintro (⟨_, heq⟩ | ⟨_, heq⟩ | ⟨_, _, e, heq, he, hchild⟩)
      · cases heq
      · cases heq
        exact .inr rfl
      · cases heq
        exact .inl ⟨e, he, hchild⟩

theorem mem_flatMap_made {m : MachineId} {lines : List Line} :
    m ∈ lines.flatMap made ↔ ∃ l ∈ lines, l.Mentions m := by
  simp only [List.mem_flatMap, mem_made]

/-- The line is a copy between two machines, and none of the lines before mentions either. -/
def MakesBoth (before : List Line) (l : Line) : Prop :=
  ∃ id r e child, l = .record id r ∧ r.event? = some e ∧ Draft.child? e = some child ∧
    child ≠ id ∧ ∀ b ∈ before, ¬ b.Mentions id ∧ ¬ b.Mentions child

/-- A line makes the sessions that are new in the order of its text, if they are not both new. -/
theorem eraseDups_made_eq {before : List Line} {l : Line} (h : ¬ l.MakesBoth before) :
    (before.flatMap made ++ l.made).eraseDups =
      (before.flatMap made ++ l.machines).eraseDups := by
  cases l with
  | stray text | note id text => rfl
  | record id r =>
    rw [made, machines]
    cases hchild : r.event?.bind Draft.child? with
    | none => rfl
    | some child =>
      refine eraseDups_swap (Classical.by_contradiction fun hnew => h ?_)
      obtain ⟨e, he, hchild⟩ := Option.bind_eq_some_iff.1 hchild
      rw [mem_flatMap_made, mem_flatMap_made, not_or, not_or] at hnew
      obtain ⟨hne, hchildNew, hidNew⟩ := hnew
      exact ⟨id, r, e, child, rfl, he, hchild, hne, fun b hb =>
        ⟨fun hm => hidNew ⟨b, hb, hm⟩, fun hm => hchildNew ⟨b, hb, hm⟩⟩⟩

theorem eraseDups_made_ne {before after : List Line} {l : Line} (h : l.MakesBoth before) :
    (before.flatMap made ++ (l :: after).flatMap made).eraseDups ≠
      (before.flatMap made ++ (l :: after).flatMap machines).eraseDups := by
  obtain ⟨id, r, e, child, rfl, he, hchild, hne, hnew⟩ := h
  have hid : id ∉ before.flatMap made := fun hm => by
    obtain ⟨b, hb, hm⟩ := mem_flatMap_made.1 hm
    exact (hnew b hb).1 hm
  have hchildNew : child ∉ before.flatMap made := fun hm => by
    obtain ⟨b, hb, hm⟩ := mem_flatMap_made.1 hm
    exact (hnew b hb).2 hm
  rw [List.flatMap_cons, List.flatMap_cons, made, machines, he, Option.bind_some, hchild]
  exact fun heq => hne (eq_of_eraseDups_eq hchildNew hid heq)

end Line

/-- The order in which the lines make the sessions is the order of the text just if no copy makes
    both its sessions. -/
theorem eraseDups_made_eq_iff (front lines : List Line) :
    (front.flatMap Line.made ++ lines.flatMap Line.made).eraseDups =
        (front.flatMap Line.made ++ lines.flatMap Line.machines).eraseDups ↔
      ∀ before l after, lines = before ++ l :: after → ¬ l.MakesBoth (front ++ before) := by
  induction lines generalizing front with
  | nil => simp
  | cons l lines ih =>
    by_cases hl : l.MakesBoth front
    · refine iff_of_false (Line.eraseDups_made_ne hl) fun h => ?_
      exact h [] l lines rfl (by rwa [List.append_nil])
    · have hfront := eraseDups_append_congr (Line.eraseDups_made_eq hl)
        (lines.flatMap Line.machines)
      have hih := ih (front ++ [l])
      rw [List.flatMap_append, List.flatMap_singleton, hfront] at hih
      rw [List.flatMap_cons, List.flatMap_cons, ← List.append_assoc, ← List.append_assoc, hih]
      constructor
      · intro h before k after heq
        cases before with
        | nil =>
          obtain ⟨rfl, _⟩ := List.cons.inj heq
          rwa [List.append_nil]
        | cons first before =>
          obtain ⟨rfl, rfl⟩ := List.cons.inj heq
          rw [List.append_cons]
          exact h before k after rfl
      · rintro h before k after rfl
        rw [← List.append_cons]
        exact h (l :: before) k after rfl

/-! ## Reading lines -/

theorem Line.readable_of_step {d d' : Draft} {l : Line} (h : d.step l = some d') :
    l.Readable := by
  rintro id r rfl
  obtain ⟨e, he, _⟩ := Option.map_eq_some_iff.1 h
  exact Option.isSome_iff_exists.2 ⟨e, he⟩

/-- A line tells something to machines that it makes, and to one that spoke before. -/
theorem Line.eraseDups_writes {ids : List MachineId} {last : Option MachineId} {l : Line}
    (hl : l.Readable) (hlast : ∀ m, last = some m → m ∈ ids) :
    (ids ++ (l.writes last).map Prod.fst).eraseDups = (ids ++ l.made).eraseDups := by
  cases l with
  | stray text =>
    cases last with
    | none => rfl
    | some id =>
      rw [made, List.append_nil]
      exact eraseDups_concat_of_mem (hlast id rfl)
  | note id text => rfl
  | record id r =>
    obtain ⟨e, he⟩ := Option.isSome_iff_exists.1 (hl id r rfl)
    rw [writes, made, he, Option.elim_some, Option.bind_some, recordWrites]
    by_cases hstop : e.kind = .stop
    · have hchild : Draft.child? e = none := by
        rw [Draft.child?, hstop]
        rfl
      rw [if_pos hstop, hchild]
      show (ids ++ [id, id]).eraseDups = (ids ++ [id]).eraseDups
      rw [List.append_cons, eraseDups_concat_of_mem (by simp)]
    · rw [if_neg hstop]
      cases Draft.child? e <;> rfl

theorem Line.speaker_mem {ids : List MachineId} {last : Option MachineId} {l : Line}
    (hlast : ∀ m, last = some m → m ∈ ids) :
    ∀ m, l.speaker last = some m → m ∈ ids ++ l.made := by
  intro m hm
  cases l with
  | stray text => exact List.mem_append_left _ (hlast m hm)
  | note id text =>
    obtain rfl := Option.some.inj hm
    exact List.mem_append_right _ List.mem_cons_self
  | record id r =>
    rw [speaker] at hm
    split at hm
    · cases hm
    · obtain rfl := Option.some.inj hm
      simp [made]

/-- The sessions stand in the order in which the lines make them. -/
theorem map_fst_foldlM {d d' : Draft} {lines : List Line} {ids : List MachineId}
    (h : lines.foldlM Draft.step d = some d') (hids : d.sessions.map Prod.fst = ids.eraseDups)
    (hlast : ∀ m, d.current = some m → m ∈ ids) :
    d'.sessions.map Prod.fst = (ids ++ lines.flatMap Line.made).eraseDups := by
  induction lines generalizing d ids with
  | nil =>
    obtain rfl := Option.some.inj h
    rw [List.flatMap_nil, List.append_nil, hids]
  | cons l lines ih =>
    rw [List.foldlM_cons] at h
    obtain ⟨between, hstep, h⟩ := Option.bind_eq_some_iff.1 h
    obtain ⟨hsessions, hcurrent⟩ := Draft.step_eq_some hstep
    rw [List.flatMap_cons, ← List.append_assoc]
    refine ih h ?_ ?_
    · rw [hsessions, map_fst_foldl_write hids,
        Line.eraseDups_writes (Line.readable_of_step hstep) hlast]
    · rw [hcurrent]
      exact Line.speaker_mem hlast

/-- The sessions come in the order in which their machines appear in the lines. -/
def InOrder (lines : List Line) (sessions : List Session) : Prop :=
  sessions.map (·.id) = (lines.flatMap Line.machines).eraseDups.map MachineId.text

/-- The order of sessions, `lines` being the lines that they come from. -/
structure Ordered (lines : List Line) (sessions : List Session) : Prop where
  made : sessions.map (·.id) = (lines.flatMap Line.made).eraseDups.map MachineId.text
  /-- They come in the order of the text just if no copy makes both its sessions. -/
  inOrder_iff : InOrder lines sessions ↔
    ∀ before l after, lines = before ++ l :: after → ¬ l.MakesBoth before

theorem ordered_finish {d : Draft} {lines : List Line}
    (h : lines.foldlM Draft.step .empty = some d) : Ordered lines d.finish := by
  have hids : d.finish.map (·.id) = (lines.flatMap Line.made).eraseDups.map MachineId.text := by
    have hempty : Draft.empty.sessions.map Prod.fst = ([] : List MachineId).eraseDups :=
      List.eraseDups_nil.symm
    rw [map_id_finish (Draft.sessions_foldlM h), map_fst_foldlM h hempty fun _ => nofun,
      List.nil_append]
  refine ⟨hids, ?_⟩
  rw [InOrder, hids, MachineId.text_injective.list_map.eq_iff]
  exact eraseDups_made_eq_iff [] lines

/-- The sessions of a text that can be read come in the order in which its lines make them. -/
theorem ofText_ordered (bytes : List UInt8) (t : Trace) (h : ofText bytes = .ok t) :
    ∃ lines, List.Forall₂ Line.ReadsBytes (splitLines bytes) lines ∧ t.rejected = [] ∧
      Ordered lines t.sessions := by
  obtain ⟨d, hd, rfl⟩ := exists_ok_of_map_ok h
  obtain ⟨lines, hreads, hlines⟩ := readLines_eq_ok hd
  exact ⟨lines, hreads, rfl, ordered_finish hlines⟩

def bytesOf (lines : List String) : List UInt8 :=
  (lines.map fun line => line.toList.map (fun c => UInt8.ofNat c.toNat) ++ [10]).flatten

/-- A root that is there before it copies itself to a child. -/
def notedCopy : List UInt8 := bytesOf ["1(0:1) here", "1(0:1) # 0 +++ Copy @0x1 child=1(1:2)"]

theorem ofText_ordered_notedCopy :
    ∃ t, ofText notedCopy = .ok t ∧ t.sessions.map (·.id) = ["1(0:1)", "1(1:2)"] ∧
      ∃ lines, List.Forall₂ Line.ReadsBytes (splitLines notedCopy) lines ∧ t.rejected = [] ∧
        Ordered lines t.sessions := by
  have hids : ((ofText notedCopy).map fun t => t.sessions.map (·.id)).toOption =
      some ["1(0:1)", "1(1:2)"] := by decide +kernel
  obtain ⟨t, ht, hids⟩ := exists_ok_of_map hids
  exact ⟨t, ht, hids, ofText_ordered notedCopy t ht⟩

/-- A root copies itself to a child, and neither was there before. -/
def firstCopy : String := "1(0:1) # 0 +++ Copy @0x1 child=1(1:2)"

/-- The child comes before the root, although the line starts with the root. -/
theorem not_inOrder_firstCopy :
    ∃ t lines, ofText (bytesOf [firstCopy]) = .ok t ∧
      List.Forall₂ Line.ReadsBytes (splitLines (bytesOf [firstCopy])) lines ∧
      t.sessions.map (·.id) = ["1(1:2)", "1(0:1)"] ∧ ¬ InOrder lines t.sessions := by
  have hids : ((ofText (bytesOf [firstCopy])).map fun t => t.sessions.map (·.id)).toOption =
      some ["1(1:2)", "1(0:1)"] := by decide +kernel
  obtain ⟨t, ht, hids⟩ := exists_ok_of_map hids
  have hlines : splitLines (bytesOf [firstCopy]) =
      [firstCopy.toList.map fun c => UInt8.ofNat c.toNat] := by decide +kernel
  refine ⟨t, [Line.ofString firstCopy], ht, ?_, hids, ?_⟩
  · rw [hlines]
    exact .cons ⟨firstCopy, by decide +kernel, Line.reads_ofString firstCopy⟩ .nil
  · have horder : ([Line.ofString firstCopy].flatMap Line.machines).eraseDups.map MachineId.text =
        ["1(0:1)", "1(1:2)"] := by decide +kernel
    rw [InOrder, hids, horder]
    decide

end TraceExplorer.Trace
