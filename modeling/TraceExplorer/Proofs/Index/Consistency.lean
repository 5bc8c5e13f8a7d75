import TraceExplorer.Proofs.Dict
import TraceExplorer.Proofs.Index.Build
import TraceExplorer.Proofs.Index.Lookup
import Mathlib.Data.List.Induction

/-
  What an index holds of its trace. A session is new if its identifiers decode and its machine is
  none of an earlier session whose identifiers decode; the entries are the new sessions in load
  order (`entries_ofTrace`), and every session is an entry or reported once (`taken_ofTrace`).

  The look-ups are read off the entries. They could as well be tables that are filled while the
  sessions come in: a session is entered in all of them or in none, so after every session they
  agree with the entries (`Tables.Agrees.add`). `ofTrace_consistent` joins it all.
-/

namespace TraceExplorer

/-! ## New sessions -/

namespace Session

/-- The entry of a session whose identifiers decode. -/
def entry? (s : Session) : Option Entry :=
  match hid : MachineId.decode s.id with
  | .error _ => none
  | .ok mid => if (Index.parentFault? s).isNone then some ⟨mid, s, hid⟩ else none

theorem entry?_eq_some_iff {s : Session} {e : Entry} :
    s.entry? = some e ↔ s.Decodes ∧ e.session = s := by
  unfold entry?
  constructor
  · intro h
    split at h
    · cases h
    · rename_i mid hid
      split at h
      · rename_i hparent
        have hnone := Option.isNone_iff_eq_none.1 hparent
        rw [← Option.some.inj h]
        exact ⟨⟨⟨mid, hid⟩, fun _ => Index.parentFault?_eq_none hnone⟩, rfl⟩
      · cases h
  · rintro ⟨hs, rfl⟩
    have hnone : (Index.parentFault? e.session).isNone = true := by
      cases hp : Index.parentFault? e.session with
      | none => rfl
      | some fault =>
        obtain ⟨p, hparent, hfault⟩ := Index.parentFault?_eq_some hp
        obtain ⟨mid, hmid⟩ := hs.parent p hparent
        rw [hmid] at hfault
        cases hfault
    split
    · rename_i fault hid
      rw [e.decoded] at hid
      cases hid
    · rename_i mid hid
      have hmid : e.mid = mid := Except.ok.inj (e.decoded.symm.trans hid)
      subst hmid
      rw [if_pos hnone]

/-- After the sessions `before`, the session is one to be indexed. -/
structure IsNew (before : List Session) (s : Session) : Prop where
  decodes : s.Decodes
  /-- No earlier session whose identifiers decode has its machine. -/
  fresh : ∀ r ∈ before, r.Decodes → ∀ a b, MachineId.decode r.id = .ok a →
    MachineId.decode s.id = .ok b → a.mach ≠ b.mach

theorem isNew_iff {before : List Session} {s : Session} : s.IsNew before ↔
    ∃ e, s.entry? = some e ∧ ∀ r ∈ before, ∀ a, r.entry? = some a → a.mach ≠ e.mach := by
  constructor
  · rintro ⟨hs, hfresh⟩
    obtain ⟨mid, hid⟩ := hs.id
    refine ⟨⟨mid, s, hid⟩, entry?_eq_some_iff.2 ⟨hs, rfl⟩, fun r hr a ha => ?_⟩
    obtain ⟨hdecodes, rfl⟩ := entry?_eq_some_iff.1 ha
    exact hfresh a.session hr hdecodes a.mid mid a.decoded hid
  · rintro ⟨e, he, hfresh⟩
    obtain ⟨hs, rfl⟩ := entry?_eq_some_iff.1 he
    refine ⟨hs, fun r hr hdecodes a b ha hb => ?_⟩
    have hne := hfresh r hr ⟨a, r, ha⟩ (entry?_eq_some_iff.2 ⟨hdecodes, rfl⟩)
    rw [← Except.ok.inj (e.decoded.symm.trans hb)]
    exact hne

instance (before : List Session) (s : Session) : Decidable (s.IsNew before) :=
  decidable_of_iff
    ((s.entry?.any fun e => before.all fun r => r.entry?.all (·.mach != e.mach)) = true) <| by
      rw [isNew_iff, Option.any_eq_true]
      simp only [List.all_eq_true, Option.all_eq_true, bne_iff_ne]

end Session

namespace Index

/-- The entry that the session becomes in the index. -/
def newcomer? (x : Index) (s : Session) : Option Entry :=
  s.entry?.filter fun e => x.entries.all (·.mach != e.mach)

theorem newcomer?_eq_some_iff {x : Index} {s : Session} {e : Entry} :
    x.newcomer? s = some e ↔ s.entry? = some e ∧ ∀ a ∈ x.entries, a.mach ≠ e.mach := by
  unfold newcomer?
  rw [Option.filter_eq_some_iff, List.all_eq_true]
  simp only [bne_iff_ne]

theorem newcomer?_eq_none {x : Index} {s : Session}
    (h : ∀ e, s.entry? = some e → ∃ a ∈ x.entries, a.mach = e.mach) : x.newcomer? s = none := by
  cases hnew : x.newcomer? s with
  | none => rfl
  | some e =>
    obtain ⟨he, hfresh⟩ := newcomer?_eq_some_iff.1 hnew
    obtain ⟨a, ha, hmach⟩ := h e he
    exact absurd hmach (hfresh a ha)

/-- How many sessions the index has or reports. -/
def taken (x : Index) : Nat := x.entries.length + x.malformed.length + x.duplicates.length

/-- A session becomes an entry behind the others, or none. -/
theorem Added.entries_eq {x y : Index} {s : Session} (h : x.Added s y) :
    y.entries = x.entries ++ (x.newcomer? s).toList := by
  have hnone : x.newcomer? s = none → x.entries = x.entries ++ (x.newcomer? s).toList := by
    intro hnew
    rw [hnew, Option.toList_none, List.append_nil]
  cases h with
  | malformed hfault =>
    refine hnone (newcomer?_eq_none fun e he => ?_)
    obtain ⟨hs, rfl⟩ := Session.entry?_eq_some_iff.1 he
    rw [e.decoded] at hfault
    cases hfault
  | malformedParent _ hp hfault =>
    refine hnone (newcomer?_eq_none fun e he => ?_)
    obtain ⟨hs, rfl⟩ := Session.entry?_eq_some_iff.1 he
    obtain ⟨mid, hmid⟩ := hs.parent _ hp
    rw [hmid] at hfault
    cases hfault
  | @duplicate mid existing hid hs hmem hmach =>
    refine hnone (newcomer?_eq_none fun e he => ⟨existing, hmem, ?_⟩)
    obtain ⟨_, rfl⟩ := Session.entry?_eq_some_iff.1 he
    have hmid : e.mid = mid := Except.ok.inj (e.decoded.symm.trans hid)
    rw [hmach, Entry.mach, hmid]
  | @entry mid hid hs hnew =>
    have hentry : x.newcomer? s = some ⟨mid, s, hid⟩ :=
      newcomer?_eq_some_iff.2 ⟨Session.entry?_eq_some_iff.2 ⟨hs, rfl⟩, hnew⟩
    rw [hentry, Option.toList_some]

/-- A session that is no entry is reported. -/
theorem Added.taken_eq {x y : Index} {s : Session} (h : x.Added s y) :
    y.taken = x.taken + 1 := by
  cases h with
  | malformed | malformedParent | duplicate | entry =>
    simp only [taken, List.length_append, List.length_singleton]
    omega

/-! ## All sessions of a trace -/

theorem ofTrace_concat (sessions : List Session) (s : Session) (rejected : List Trace.Rejected) :
    ofTrace ⟨sessions ++ [s], rejected⟩ = (ofTrace ⟨sessions, rejected⟩).add s := by
  rw [ofTrace, List.foldl_append]
  rfl

theorem entries_concat (sessions : List Session) (s : Session) (rejected : List Trace.Rejected) :
    (ofTrace ⟨sessions ++ [s], rejected⟩).entries = (ofTrace ⟨sessions, rejected⟩).entries ++
      ((ofTrace ⟨sessions, rejected⟩).newcomer? s).toList := by
  rw [ofTrace_concat]
  exact (added_add _ s).entries_eq

/-- The machines in the index are those of the sessions whose identifiers decode. -/
theorem exists_entry_of_mach (sessions : List Session) (rejected : List Trace.Rejected)
    (mach : UInt64) : (∃ e ∈ (ofTrace ⟨sessions, rejected⟩).entries, e.mach = mach) ↔
      ∃ s ∈ sessions, ∃ e, s.entry? = some e ∧ e.mach = mach := by
  induction sessions using List.reverseRecOn with
  | nil => simp [ofTrace]
  | append_singleton sessions s ih =>
    rw [entries_concat]
    simp only [List.mem_append, Option.mem_toList, List.mem_singleton, or_and_right, exists_or,
      exists_eq_left, ih]
    refine or_congr_right' fun hold => exists_congr fun e => and_congr_left fun hmach => ?_
    rw [newcomer?_eq_some_iff]
    refine and_iff_left_of_imp fun he a ha heq => hold ?_
    exact ih.1 ⟨a, ha, heq.trans hmach⟩

/-- A session is indexed if it is new after those before it. -/
theorem map_session_newcomer? (sessions : List Session) (s : Session)
    (rejected : List Trace.Rejected) :
    ((ofTrace ⟨sessions, rejected⟩).newcomer? s).map Entry.session =
      if s.IsNew sessions then some s else none := by
  have hfresh : ∀ e : Entry, (∀ a ∈ (ofTrace ⟨sessions, rejected⟩).entries, a.mach ≠ e.mach) ↔
      ∀ r ∈ sessions, ∀ a, r.entry? = some a → a.mach ≠ e.mach := by
    intro e
    have h := not_congr (exists_entry_of_mach sessions rejected e.mach)
    simpa only [not_exists, not_and] using h
  split
  · rename_i hnew
    obtain ⟨e, he, hfirst⟩ := Session.isNew_iff.1 hnew
    rw [newcomer?_eq_some_iff.2 ⟨he, (hfresh e).2 hfirst⟩, Option.map_some,
      (Session.entry?_eq_some_iff.1 he).2]
  · rename_i hold
    rw [Option.map_eq_none_iff]
    cases hnew : (ofTrace ⟨sessions, rejected⟩).newcomer? s with
    | none => rfl
    | some e =>
      obtain ⟨he, hfirst⟩ := newcomer?_eq_some_iff.1 hnew
      exact absurd (Session.isNew_iff.2 ⟨e, he, (hfresh e).1 hfirst⟩) hold

/-- The sessions that are new after those before them, in their order. -/
def newSessions (sessions : List Session) : List Session :=
  (sessions.zipIdx.filter fun e => e.1.IsNew (sessions.take e.2)).map Prod.fst

theorem newSessions_concat (sessions : List Session) (s : Session) :
    newSessions (sessions ++ [s]) =
      newSessions sessions ++ if s.IsNew sessions then [s] else [] := by
  have hfront : (sessions.zipIdx.filter fun e => e.1.IsNew ((sessions ++ [s]).take e.2)) =
      sessions.zipIdx.filter fun e => e.1.IsNew (sessions.take e.2) := by
    refine List.filter_congr fun e he => ?_
    have hle : e.2 ≤ sessions.length := Nat.le_of_lt (List.snd_lt_of_mem_zipIdx he)
    rw [List.take_append_of_le_length hle]
  have hlast : (sessions ++ [s]).take sessions.length = sessions := List.take_left
  unfold newSessions
  rw [List.zipIdx_append, List.filter_append, List.map_append, hfront, Nat.zero_add,
    List.zipIdx_singleton, List.filter_singleton]
  simp only [hlast]
  by_cases hs : s.IsNew sessions <;> simp [hs]

theorem entries_ofTrace (sessions : List Session) (rejected : List Trace.Rejected) :
    (ofTrace ⟨sessions, rejected⟩).entries.map Entry.session = newSessions sessions := by
  induction sessions using List.reverseRecOn with
  | nil => rfl
  | append_singleton sessions s ih =>
    have hlast := map_session_newcomer? sessions s rejected
    rw [entries_concat, List.map_append, ih, newSessions_concat, ← Option.toList_map, hlast]
    split <;> rfl

theorem taken_ofTrace (sessions : List Session) (rejected : List Trace.Rejected) :
    (ofTrace ⟨sessions, rejected⟩).taken = sessions.length := by
  induction sessions using List.reverseRecOn with
  | nil => rfl
  | append_singleton sessions s ih =>
    rw [ofTrace_concat, (added_add _ s).taken_eq, ih, List.length_append,
      List.length_singleton]

/-! ## Tables -/

/-- The look-ups of an index, each in a table of its own. -/
structure Tables where
  byId : Dict String Entry
  /-- The identifier that each machine is entered under. -/
  byMach : Dict UInt64 String
  kids : Dict String (List String)
  roots : List String
  order : List String
  runSizes : Dict UInt64 Nat

namespace Tables

def empty : Tables := ⟨.empty, .empty, .empty, [], [], .empty⟩

def kidsOf (t : Tables) (id : String) : List String := (t.kids.get? id).getD []

def runSize (t : Tables) (mach : UInt64) : Nat := (t.runSizes.get? mach).getD 0

/-- Enters a session in every table. -/
def enter (t : Tables) (e : Entry) : Tables where
  byId := t.byId.insert e.id e
  byMach := t.byMach.insert e.mach e.id
  kids := e.parentId.elim t.kids fun p => t.kids.insert p (t.kidsOf p ++ [e.id])
  roots := if e.parentId.isNone then t.roots ++ [e.id] else t.roots
  order := t.order ++ [e.id]
  runSizes := t.runSizes.insert e.mid.root (t.runSize e.mid.root + 1)

/-- Enters a session, unless its identifiers are malformed or its machine is entered. -/
def add (t : Tables) (s : Session) : Tables :=
  match s.entry? with
  | none => t
  | some e => if (t.byMach.get? e.mach).isSome then t else t.enter e

def ofSessions (sessions : List Session) : Tables := sessions.foldl add empty

/-- The tables say what the entries of the index say; the roots are not sorted yet. -/
structure Agrees (t : Tables) (x : Index) : Prop where
  byId : ∀ id, t.byId.get? id = x.get? id
  byMach : ∀ mach, t.byMach.get? mach = (x.entries.find? (·.mach == mach)).map Entry.id
  kids : ∀ id, t.kidsOf id = (x.kids id).map Entry.id
  roots : t.roots = (x.entries.filter (·.parentId.isNone)).map Entry.id
  order : t.order = x.entries.map Entry.id
  runSizes : ∀ mach, t.runSize mach = x.runSize mach

variable {t : Tables} {x y : Index}

theorem agrees_empty (rejected : List Trace.Rejected) :
    Agrees empty (ofTrace ⟨[], rejected⟩) where
  byId _ := rfl
  byMach _ := rfl
  kids _ := rfl
  roots := rfl
  order := rfl
  runSizes _ := rfl

/-- The tables with a session entered agree with the entries and that session behind them. -/
theorem Agrees.enter (h : t.Agrees x) {e : Entry} (hentries : y.entries = x.entries ++ [e])
    (hnew : ∀ a ∈ x.entries, a.mach ≠ e.mach) : (t.enter e).Agrees y where
  byId id := by
    rw [Tables.enter, Dict.get?_insert, h.byId, Index.get?, Index.get?, hentries, List.find?_append]
    by_cases hid : id = e.id
    · -- No earlier session has the identifier, since its machine would be that of `e`.
      have hnone : x.entries.find? (·.id == e.id) = none := by
        refine List.find?_eq_none.2 fun a ha heq => hnew a ha ?_
        exact Entry.mach_eq_of_id_eq (beq_iff_eq.1 heq)
      simp [hnone, hid]
    · simp [hid, Ne.symm hid]
  byMach mach := by
    rw [Tables.enter, Dict.get?_insert, h.byMach, hentries, List.find?_append]
    by_cases hmach : mach = e.mach
    · have hnone : x.entries.find? (·.mach == e.mach) = none :=
        List.find?_eq_none.2 fun a ha heq => hnew a ha (beq_iff_eq.1 heq)
      simp [hnone, hmach]
    · simp [hmach, Ne.symm hmach]
  kids id := by
    have hkids := h.kids id
    unfold kidsOf at hkids ⊢
    rw [Tables.enter, Index.kids, hentries, List.filter_append, List.map_append, ← Index.kids,
      ← hkids]
    cases hp : e.parentId with
    | none => simp [hp]
    | some p =>
      rw [Option.elim_some, Dict.get?_insert]
      by_cases hid : id = p
      · simp [hp, hid, kidsOf]
      · simp [hp, hid, Ne.symm hid]
  roots := by
    rw [Tables.enter, h.roots, hentries, List.filter_append, List.map_append]
    cases hp : e.parentId <;> simp [hp]
  order := by
    rw [Tables.enter, h.order, hentries, List.map_append]
    rfl
  runSizes mach := by
    have hsize := h.runSizes mach
    unfold runSize at hsize ⊢
    rw [Tables.enter, Dict.get?_insert, Index.runSize, hentries, List.countP_append,
      ← Index.runSize, ← hsize]
    by_cases hmach : mach = e.mid.root
    · simp [hmach, runSize]
    · simp [hmach, Ne.symm hmach]

theorem Agrees.of_entries_eq (h : t.Agrees x) (hentries : y.entries = x.entries) : t.Agrees y where
  byId id := by rw [h.byId, Index.get?, Index.get?, hentries]
  byMach mach := by rw [h.byMach, hentries]
  kids id := by rw [h.kids, Index.kids, Index.kids, hentries]
  roots := by rw [h.roots, hentries]
  order := by rw [h.order, hentries]
  runSizes mach := by rw [h.runSizes, Index.runSize, Index.runSize, hentries]

theorem Agrees.add (h : t.Agrees x) (s : Session) : (t.add s).Agrees (x.add s) := by
  have hentries := (added_add x s).entries_eq
  have hnone : x.newcomer? s = none → (x.add s).entries = x.entries := by
    intro hnew
    rw [hentries, hnew, Option.toList_none, List.append_nil]
  unfold Tables.add
  split
  · rename_i hs
    exact h.of_entries_eq (hnone (newcomer?_eq_none fun e he => by rw [hs] at he; cases he))
  · rename_i e hs
    have hfound : (t.byMach.get? e.mach).isSome = true ↔
        ∃ a ∈ x.entries, (a.mach == e.mach) = true := by
      rw [h.byMach, Option.isSome_map, List.find?_isSome]
    split
    · rename_i hold
      obtain ⟨a, ha, hmach⟩ := hfound.1 hold
      refine h.of_entries_eq (hnone (newcomer?_eq_none fun f hf => ⟨a, ha, ?_⟩))
      rw [beq_iff_eq.1 hmach, Option.some.inj (hs.symm.trans hf)]
    · rename_i hfresh
      have hnew : ∀ a ∈ x.entries, a.mach ≠ e.mach := fun a ha hmach =>
        hfresh (hfound.2 ⟨a, ha, beq_iff_eq.2 hmach⟩)
      refine h.enter ?_ hnew
      rw [hentries, newcomer?_eq_some_iff.2 ⟨hs, hnew⟩, Option.toList_some]

theorem agrees_ofSessions (sessions : List Session) (rejected : List Trace.Rejected) :
    (ofSessions sessions).Agrees (ofTrace ⟨sessions, rejected⟩) := by
  induction sessions using List.reverseRecOn with
  | nil => exact agrees_empty rejected
  | append_singleton sessions s ih =>
    rw [ofSessions, List.foldl_append, ofTrace_concat]
    exact ih.add s

end Tables

/-! ## Consistency -/

/-- The index holds the new sessions, and its look-ups tell where each of them is. -/
structure Consistent (sessions : List Session) (x : Index) : Prop where
  /-- The entries are, in load order, the sessions that were new when they came in. -/
  entries : x.entries.map Entry.session = newSessions sessions
  nodup_machs : (x.entries.map Entry.mach).Nodup
  nodup_ids : (x.entries.map Entry.id).Nodup
  get? : ∀ id e, x.get? id = some e ↔ e ∈ x.entries ∧ e.id = id
  kids : ∀ id, (x.kids id).Sublist x.entries ∧ (x.kids id).Nodup ∧
    ∀ e, e ∈ x.kids id ↔ e ∈ x.entries ∧ e.parentId = some id
  mem_roots : ∀ e, e ∈ x.roots ↔ e ∈ x.entries ∧ e.parentId = none
  roots_ascend : x.roots.Pairwise fun a b => a.mach < b.mach
  root? : ∀ mach e, x.root? mach = some e ↔ e ∈ x.roots ∧ e.mach = mach
  runSize : ∀ mach, x.runSize mach = (x.entries.filter (·.mid.root = mach)).length
  /-- Every entry is listed once, among the roots or below one text. -/
  listed : ∀ e ∈ x.entries, (e ∈ x.roots ∧ ∀ id, e ∉ x.kids id) ∨
    e ∉ x.roots ∧ ∃ id, e ∈ x.kids id ∧ ∀ other, e ∈ x.kids other → other = id
  reported : x.entries.length + x.malformed.length + x.duplicates.length = sessions.length
  tables : (Tables.ofSessions sessions).Agrees x

theorem ofTrace_consistent (t : Trace) : (ofTrace t).Consistent t.sessions where
  entries := entries_ofTrace t.sessions t.rejected
  nodup_machs := nodup_machs _
  nodup_ids := List.pairwise_map.2
    ((ofTrace t).distinct.imp fun hne hid => hne (Entry.mach_eq_of_id_eq hid))
  get? _ _ := get?_eq_some_iff
  kids _ := ⟨List.filter_sublist, (nodup_entries _).filter _, fun _ => mem_kids⟩
  mem_roots _ := mem_roots
  roots_ascend := roots_ascend _
  root? mach e := by rw [root?_eq_some_iff, mem_roots, and_assoc]
  runSize mach := by
    rw [Index.runSize, List.countP_eq_length_filter]
    rfl
  listed e he := by
    cases hp : e.parentId with
    | none =>
      refine .inl ⟨mem_roots.2 ⟨he, hp⟩, fun id hkid => ?_⟩
      rw [(mem_kids.1 hkid).2] at hp
      cases hp
    | some p =>
      refine .inr ⟨fun hroot => ?_, p, mem_kids.2 ⟨he, hp⟩, fun other hkid => ?_⟩
      · rw [(mem_roots.1 hroot).2] at hp
        cases hp
      · exact Option.some.inj ((mem_kids.1 hkid).2.symm.trans hp)
  reported := taken_ofTrace t.sessions t.rejected
  tables := Tables.agrees_ofSessions t.sessions t.rejected

end Index

end TraceExplorer
