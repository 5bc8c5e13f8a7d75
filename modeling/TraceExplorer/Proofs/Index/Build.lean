import TraceExplorer.Index.Basic

/-
  How an index takes in sessions. `Index.Added` has one constructor for each thing that becomes
  of a session, and `Index.add` does one of them (`added_add`). What holds of all the sessions of
  a trace is proved from it along the trace: the entries are its sessions
  (`session_mem_of_mem_entries`), and none is malformed if every identifier decodes
  (`malformed_ofTrace`).
-/

namespace TraceExplorer

namespace Session

/-- The identifiers of the session and of its parent decode. -/
structure Decodes (s : Session) : Prop where
  id : ∃ mid, MachineId.decode s.id = .ok mid
  parent : ∀ p, s.parentId = some p → ∃ mid, MachineId.decode p = .ok mid

end Session

namespace Index

theorem parentFault?_eq_some {s : Session} {fault : Fault} (h : parentFault? s = some fault) :
    ∃ p, s.parentId = some p ∧ MachineId.decode p = .error fault := by
  unfold parentFault? at h
  cases hp : s.parentId with
  | none =>
    rw [hp] at h
    cases h
  | some p =>
    rw [hp, Option.map_some] at h
    cases hd : MachineId.decode p with
    | error found =>
      rw [hd] at h
      exact ⟨p, rfl, by rw [hd, Option.some.inj h]⟩
    | ok mid =>
      rw [hd] at h
      cases h

theorem parentFault?_eq_none {s : Session} (h : parentFault? s = none) {p : String}
    (hp : s.parentId = some p) : ∃ mid, MachineId.decode p = .ok mid := by
  unfold parentFault? at h
  rw [hp, Option.map_some] at h
  cases hd : MachineId.decode p with
  | error fault =>
    rw [hd] at h
    cases h
  | ok mid => exact ⟨mid, rfl⟩

/-- What becomes of an index and a session that it takes in. -/
inductive Added (x : Index) (s : Session) : Index → Prop where
  | malformed {fault : Fault} (h : MachineId.decode s.id = .error fault) :
      Added x s { x with malformed := x.malformed ++ [⟨s.id, fault.message⟩] }
  | malformedParent {mid : MachineId} {p : String} {fault : Fault}
      (hid : MachineId.decode s.id = .ok mid) (hp : s.parentId = some p)
      (h : MachineId.decode p = .error fault) :
      Added x s { x with malformed := x.malformed ++ [⟨s.id, "parent: " ++ fault.message⟩] }
  | duplicate {mid : MachineId} {existing : Entry} (hid : MachineId.decode s.id = .ok mid)
      (hs : s.Decodes) (hmem : existing ∈ x.entries) (hmach : existing.mach = mid.mach) :
      Added x s { x with duplicates := x.duplicates ++
        [⟨s.id, (Fault.duplicateMach mid.mach s.id existing.id).message⟩] }
  | entry {mid : MachineId} (hid : MachineId.decode s.id = .ok mid) (hs : s.Decodes)
      (hnew : ∀ e ∈ x.entries, e.mach ≠ mid.mach)
      (hdistinct : (x.entries ++ [(⟨mid, s, hid⟩ : Entry)]).Pairwise
        fun a b => a.mach ≠ b.mach) :
      Added x s { x with entries := x.entries ++ [⟨mid, s, hid⟩], distinct := hdistinct }

theorem added_add (x : Index) (s : Session) : x.Added s (x.add s) := by
  unfold add
  split
  · rename_i fault hid
    exact .malformed hid
  · rename_i mid hid
    cases hp : parentFault? s with
    | some fault =>
      obtain ⟨p, hparent, hfault⟩ := parentFault?_eq_some hp
      exact .malformedParent hid hparent hfault
    | none =>
      have hs : s.Decodes := ⟨⟨mid, hid⟩, fun p => parentFault?_eq_none hp⟩
      simp only
      split
      · rename_i existing hfound
        have hmach : existing.mach = mid.mach := by
          simpa [Entry.mach] using List.find?_some hfound
        exact .duplicate hid hs (List.mem_of_find?_eq_some hfound) hmach
      · rename_i hnone
        refine .entry hid hs (fun e he => ?_) _
        simpa [Entry.mach] using List.find?_eq_none.1 hnone e he

theorem Added.session_mem {x y : Index} {s : Session} (h : x.Added s y) {e : Entry}
    (he : e ∈ y.entries) : e ∈ x.entries ∨ e.session = s := by
  cases h with
  | malformed | malformedParent | duplicate => exact Or.inl he
  | entry hid =>
    rcases List.mem_append.1 he with he | he
    · exact Or.inl he
    · rw [List.mem_singleton.1 he]
      exact Or.inr rfl

theorem Added.malformed_eq {x y : Index} {s : Session} (h : x.Added s y) (hs : s.Decodes) :
    y.malformed = x.malformed := by
  cases h with
  | malformed h =>
    obtain ⟨mid, hid⟩ := hs.id
    rw [hid] at h
    cases h
  | malformedParent _ hp h =>
    obtain ⟨mid, hparent⟩ := hs.parent _ hp
    rw [hparent] at h
    cases h
  | duplicate | entry => rfl

/-- An index has sessions of its trace only. -/
theorem session_mem_of_mem_entries {t : Trace} {e : Entry} (h : e ∈ (ofTrace t).entries) :
    e.session ∈ t.sessions := by
  unfold ofTrace at h
  have hrun : ∀ (sessions : List Session) (x : Index), e ∈ (sessions.foldl add x).entries →
      e ∈ x.entries ∨ e.session ∈ sessions := by
    intro sessions
    induction sessions with
    | nil => exact fun x he => Or.inl he
    | cons s sessions ih =>
      intro x he
      rcases ih (x.add s) he with he | he
      · rcases (added_add x s).session_mem he with he | he
        · exact Or.inl he
        · exact Or.inr (he ▸ List.mem_cons_self)
      · exact Or.inr (List.mem_cons_of_mem _ he)
  rcases hrun t.sessions _ h with h | h
  · cases h
  · exact h

theorem malformed_ofTrace {t : Trace} (h : ∀ s ∈ t.sessions, s.Decodes) :
    (ofTrace t).malformed = [] := by
  unfold ofTrace
  have hrun : ∀ (sessions : List Session) (x : Index), (∀ s ∈ sessions, s.Decodes) →
      (sessions.foldl add x).malformed = x.malformed := by
    intro sessions
    induction sessions with
    | nil => exact fun x _ => rfl
    | cons s sessions ih =>
      intro x h
      rw [List.foldl_cons, ih _ fun a ha => h a (List.mem_cons_of_mem _ ha)]
      exact (added_add x s).malformed_eq (h s List.mem_cons_self)
  exact hrun t.sessions _ h

end Index

end TraceExplorer
