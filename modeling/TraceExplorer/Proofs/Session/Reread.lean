import TraceExplorer.Proofs.Fallible
import TraceExplorer.Proofs.Session.Extra
import TraceExplorer.Session.Basic
import Mathlib.Data.List.Permutation

/-
  Events and sessions, written as JSON and read again. Every session can be read again, with
  nothing changed but what its events keep (`Session.decode_toJson`), and it is written alike if
  the data of its events are tidy (`Session.toJson_reread`). Where it was decoded, whatever the
  shape of the value, it is the same session (`Session.reread_of_decode`): the fields that are
  taken in one after another keep that of the data of the events (`Json.asRecord_induction`).
-/

namespace TraceExplorer

/-! ## Values -/

namespace Json

theorem asWord_word (n : UInt64) : asWord (.word n) = .ok n := by
  have h : Number.word64? n.toNat = some n := by simp [Number.word64?, n.toNat_lt_size]
  unfold asWord word
  simp [h]

theorem asList_strings (l : List String) : asList asString (.strings l) = .ok l := by
  have h := mapM_map_eq_pure (f := asString) (g := Json.str) (h := id) (l := l) fun _ _ => rfl
  rwa [List.map_id] at h

theorem orNone_optional (s : Option String) : orNone asString (.optional .str s) = .ok s := by
  cases s <;> rfl

theorem asStringMap_map (d : Dict String String) :
    asStringMap (.obj (d.map Json.str).entries) = .ok d := by
  have hmap : asMap (.obj (d.map Json.str).entries) = .ok (d.map Json.str) :=
    congrArg Except.ok (d.map Json.str).ofList_entries
  have hentries := mapM_map_eq_pure (f := fun e => (asString e.2).map fun s => (e.1, s))
    (g := fun e => (e.1, Json.str e.2)) (h := id) (l := d.entries) fun _ _ => rfl
  rw [List.map_id] at hentries
  unfold asStringMap
  rw [hmap]
  exact (congrArg (Except.map Dict.ofList) hentries).trans (congrArg Except.ok d.ofList_entries)

section

variable {σ : Type} {set : σ → String → Json → Except DecodeFault σ} {P : σ → Prop}
  (hset : ∀ x key v y, P x → set x key v = .ok y → P y)
include hset

theorem foldlM_induction {fields : List (String × Json)} {x y : σ} (hx : P x)
    (h : fields.foldlM (fun x e => set x e.1 e.2) x = .ok y) : P y := by
  induction fields generalizing x with
  | nil =>
    obtain rfl := Except.ok.inj h
    exact hx
  | cons e fields ih =>
    rw [List.foldlM_cons] at h
    cases hfirst : set x e.1 e.2 with
    | error fault =>
      rw [hfirst] at h
      cases h
    | ok z =>
      rw [hfirst] at h
      exact ih (hset x e.1 e.2 z hx hfirst) h

/-- What every field keeps that is taken in holds of the whole record, be it an object or an
    array. -/
theorem asRecord_induction {α : Type} {name : String} {names : List String} {start : σ}
    {finish : σ → Except DecodeFault α} {Q : α → Prop} (hstart : P start)
    (hfinish : ∀ x a, P x → finish x = .ok a → Q a) {v : Json} {a : α}
    (h : asRecord name names start set finish v = .ok a) : Q a := by
  unfold asRecord at h
  cases v with
  | obj fields =>
    simp only at h
    cases hfields : (Dict.ofList fields).entries.foldlM (fun x e => set x e.1 e.2) start with
    | error fault =>
      rw [hfields] at h
      cases h
    | ok x =>
      rw [hfields] at h
      exact hfinish x a (foldlM_induction hset hstart hfields) h
  | arr items =>
    simp only at h
    split at h
    · cases h
    · cases hfields : (names.zip items).foldlM (fun x e => set x e.1 e.2) start with
      | error fault =>
        rw [hfields] at h
        cases h
      | ok x =>
        rw [hfields] at h
        cases hdone : finish x with
        | error fault =>
          simp only [Except.bind, hdone] at h
          cases h
        | ok b =>
          simp only [Except.bind, hdone] at h
          split at h
          · cases h
          · obtain rfl := Except.ok.inj h
            exact hfinish x b (foldlM_induction hset hstart hfields) hdone
  | null | bool | int | real | str => cases h

end

end Json

/-! ## Events -/

theorem EventKind.decode_name (kind : EventKind) : decode (.str kind.name) = .ok kind := by
  cases kind <;> rfl

namespace Event

/-- The event as it is after writing and reading. -/
def reread (e : Event) : Event := { e with extra := e.extra.reread }

theorem entries_fields (e : Event) : (Dict.ofList e.fields).entries =
    [("action", .str e.action), ("count", .word e.count), ("extra", e.extra.toJson),
      ("ip", .word e.ip), ("kind", .str e.kind.name)] ++
      if e.notes.isEmpty then [] else [("notes", .strings e.notes)] := by
  unfold fields
  cases e.notes.isEmpty <;> cbv

theorem decode_toJson (e : Event) : decode e.toJson = .ok e.reread := by
  unfold decode toJson Json.asRecord
  simp only
  rw [entries_fields]
  obtain ⟨kind, count, ip, action, extra, notes⟩ := e
  have haction : Json.orDefault Json.asString (.str action) = .ok action := rfl
  have hnotes : Json.orDefault (Json.asList Json.asString) (.strings notes) = .ok notes :=
    Json.asList_strings notes
  cases notes with
  | nil =>
    simp [setField, haction, Json.asWord_word, Extra.decode_toJson, EventKind.decode_name]
    rfl
  | cons note notes =>
    simp [setField, haction, hnotes, Json.asWord_word, Extra.decode_toJson, EventKind.decode_name]
    rfl

theorem toJson_reread {e : Event} (h : e.extra.Tidy) : e.reread.toJson = e.toJson := by
  unfold toJson fields reread Extra.toJson
  simp only
  rw [h.toDict_reread]

theorem extra_of_setField {x y : Option EventKind × Event} {key : String} {v : Json}
    (h : setField x key v = .ok y) : y.2.extra = x.2.extra ∨ Extra.decode v = .ok y.2.extra := by
  unfold setField at h
  split at h
  · obtain ⟨_, _, rfl⟩ := exists_ok_of_map_ok h
    exact Or.inl rfl
  · split at h
    · obtain ⟨_, _, rfl⟩ := exists_ok_of_map_ok h
      exact Or.inl rfl
    · split at h
      · obtain ⟨_, _, rfl⟩ := exists_ok_of_map_ok h
        exact Or.inl rfl
      · split at h
        · obtain ⟨_, _, rfl⟩ := exists_ok_of_map_ok h
          exact Or.inl rfl
        · split at h
          · obtain ⟨_, hextra, rfl⟩ := exists_ok_of_map_ok h
            exact Or.inr hextra
          · split at h
            · obtain ⟨_, _, rfl⟩ := exists_ok_of_map_ok h
              exact Or.inl rfl
            · exact Or.inl (congrArg (·.2.extra) (Except.ok.inj h).symm)

/-- The data of a decoded event were decoded. -/
theorem extra_of_decode {v : Json} {e : Event} (h : decode v = .ok e) :
    ∃ d, e.extra = Extra.ofDict d := by
  refine Json.asRecord_induction
    (P := fun x : Option EventKind × Event => ∃ d, x.2.extra = Extra.ofDict d)
    (Q := fun e => ∃ d, e.extra = Extra.ofDict d)
    (fun x key w y hx hset => ?_) ⟨.empty, rfl⟩ (fun x a hx hdone => ?_) h
  · rcases extra_of_setField hset with hsame | hextra
    · exact hsame ▸ hx
    · exact Extra.exists_ofDict hextra
  · unfold complete at hdone
    split at hdone
    · obtain rfl := Except.ok.inj hdone
      exact hx
    · cases hdone

theorem reread_of_decode {v : Json} {e : Event} (h : decode v = .ok e) : e.reread = e := by
  obtain ⟨d, hd⟩ := extra_of_decode h
  unfold reread
  rw [hd, Extra.reread_ofDict, ← hd]

end Event

/-! ## Sessions -/

namespace Session

/-- The session as it is after writing and reading. -/
def reread (s : Session) : Session := { s with records := s.records.map Event.reread }

theorem entries_fields (s : Session) {fields : List (String × Json)} (h : s.toJson = .obj fields) :
    (Dict.ofList fields).entries = [("error", .str s.error)] ++
      (if s.extra.isEmpty then [] else [("extra", .obj (s.extra.map Json.str).entries)]) ++
      [("id", .str s.id), ("parent_id", .optional .str s.parentId),
        ("records", .arr (s.records.map Event.toJson))] ++
      (if s.unknown.isEmpty then [] else [("unknown", .strings s.unknown)]) ++
      [("values", .str s.values)] := by
  obtain rfl := Json.obj.inj h
  cases s.extra.isEmpty <;> cases s.unknown.isEmpty <;> cbv

theorem decode_toJson (s : Session) : decode s.toJson = .ok s.reread := by
  obtain ⟨id, parentId, error, values, records, extra, unknown⟩ := s
  have herror : Json.orDefault Json.asString (.str error) = .ok error := rfl
  have hextra : Json.orDefault Json.asStringMap (.obj (extra.map Json.str).entries) = .ok extra :=
    Json.asStringMap_map extra
  have hid : Json.asString (.str id) = .ok id := rfl
  have hrecords : Json.orDefault (Json.asList Event.decode) (.arr (records.map Event.toJson)) =
      .ok (records.map Event.reread) := mapM_map_eq_pure fun e _ => e.decode_toJson
  have hunknown : Json.orDefault (Json.asList Json.asString) (.strings unknown) = .ok unknown :=
    Json.asList_strings unknown
  have hvalues : Json.orDefault Json.asString (.str values) = .ok values := rfl
  have hentries := entries_fields ⟨id, parentId, error, values, records, extra, unknown⟩ rfl
  simp only at hentries
  unfold decode toJson Json.asRecord
  simp only
  rw [hentries]
  -- Fields that are empty are not written, and they are empty from the start.
  cases hx : extra.isEmpty with
  | true =>
    obtain rfl := Dict.eq_empty hx
    cases unknown <;>
      simp [setField, herror, hid, Json.orNone_optional, hrecords, hunknown, hvalues] <;> rfl
  | false =>
    cases unknown <;>
      simp [setField, herror, hextra, hid, Json.orNone_optional, hrecords, hunknown, hvalues] <;>
      rfl

theorem toJson_reread {s : Session} (h : ∀ e ∈ s.records, e.extra.Tidy) :
    s.reread.toJson = s.toJson := by
  have hrecords : s.records.map (Event.toJson ∘ Event.reread) = s.records.map Event.toJson :=
    List.map_congr_left fun e he => Event.toJson_reread (h e he)
  unfold toJson reread
  simp only [List.map_map]
  rw [hrecords]

theorem records_of_setField {x y : Option String × Session} {key : String} {v : Json}
    (h : setField x key v = .ok y) : y.2.records = x.2.records ∨
      Json.orDefault (Json.asList Event.decode) v = .ok y.2.records := by
  unfold setField at h
  split at h
  · obtain ⟨_, _, rfl⟩ := exists_ok_of_map_ok h
    exact Or.inl rfl
  · split at h
    · obtain ⟨_, _, rfl⟩ := exists_ok_of_map_ok h
      exact Or.inl rfl
    · split at h
      · obtain ⟨_, _, rfl⟩ := exists_ok_of_map_ok h
        exact Or.inl rfl
      · split at h
        · obtain ⟨_, _, rfl⟩ := exists_ok_of_map_ok h
          exact Or.inl rfl
        · split at h
          · obtain ⟨_, hrecords, rfl⟩ := exists_ok_of_map_ok h
            exact Or.inr hrecords
          · split at h
            · obtain ⟨_, _, rfl⟩ := exists_ok_of_map_ok h
              exact Or.inl rfl
            · split at h
              · obtain ⟨_, _, rfl⟩ := exists_ok_of_map_ok h
                exact Or.inl rfl
              · exact Or.inl (congrArg (·.2.records) (Except.ok.inj h).symm)

/-- The records of a decoded session were decoded. -/
theorem records_of_decode {v : Json} {s : Session} (h : decode v = .ok s) :
    ∀ e ∈ s.records, ∃ w, Event.decode w = .ok e := by
  refine Json.asRecord_induction
    (P := fun x : Option String × Session => ∀ e ∈ x.2.records, ∃ w, Event.decode w = .ok e)
    (Q := fun s => ∀ e ∈ s.records, ∃ w, Event.decode w = .ok e)
    (fun x key w y hx hset => ?_) (fun e he => absurd he List.not_mem_nil)
    (fun x a hx hdone => ?_) h
  · rcases records_of_setField hset with hsame | hrecords
    · exact hsame ▸ hx
    · intro e he
      cases w with
      | null =>
        obtain hnil := Except.ok.inj hrecords
        rw [← hnil] at he
        cases he
      | arr items =>
        obtain ⟨v, _, hv⟩ := exists_ok_of_mem_mapM hrecords he
        exact ⟨v, hv⟩
      | bool | int | real | str | obj => cases hrecords
  · unfold complete at hdone
    split at hdone
    · obtain rfl := Except.ok.inj hdone
      exact hx
    · cases hdone

theorem reread_of_decode {v : Json} {s : Session} (h : decode v = .ok s) : s.reread = s := by
  have hrecords : s.records.map Event.reread = s.records := by
    have hsame : s.records.map Event.reread = s.records.map fun e => e :=
      List.map_congr_left fun e he => by
        obtain ⟨w, hw⟩ := records_of_decode h e he
        exact Event.reread_of_decode hw
    rwa [List.map_id'] at hsame
  unfold reread
  rw [hrecords]

theorem tidy_of_decode {v : Json} {s : Session} (h : decode v = .ok s) :
    ∀ e ∈ s.records, e.extra.Tidy := by
  intro e he
  obtain ⟨w, hw⟩ := records_of_decode h e he
  obtain ⟨d, hd⟩ := Event.extra_of_decode hw
  exact hd ▸ Extra.tidy_ofDict d

/-! ## Values filled in -/

theorem fillValues_fillValues (s : Session) : s.fillValues.fillValues = s.fillValues := by
  unfold fillValues
  by_cases h : (s.values == "" && !s.extra.isEmpty) = true
  · simp only [if_pos h]
    split <;> rfl
  · simp only [if_neg h]

theorem fillValues_reread (s : Session) : s.reread.fillValues = s.fillValues.reread := by
  unfold fillValues reread
  simp only
  split <;> rfl

end Session

end TraceExplorer
