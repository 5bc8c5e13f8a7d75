import TraceExplorer.Proofs.Dict
import TraceExplorer.Session.Extra

/-
  The data of an event, read and written. Each field is read from one key, so a field of the data
  of a map is told by one look-up (`child_ofDict` and its kind), and a key that is not read is
  kept (`get?_rest_ofDict`). Data keep only what cannot be read (`Tidy`): that is so where they
  were decoded and stays so where such data are overlaid (`Merged.tidy`). Tidy data that are
  written and read again have all fields as they were, and are written alike (`toDict_reread`).
  They are the same data if nothing was kept under the key of a field (`reread_ofDict`).
-/

namespace TraceExplorer

theorem Json.string?_eq_some {v : Json} {s : String} (h : v.string? = some s) : v = .str s := by
  cases v with
  | str t => rw [Option.some.inj h]
  | null | bool | int | real | arr | obj => cases h

theorem labelList?_strings (names : List String) : labelList? (.strings names) = some names := by
  unfold Json.strings labelList?
  simp only
  induction names with
  | nil => rfl
  | cons name names ih =>
    rw [List.map_cons, List.mapM_cons, ih]
    rfl

theorem spanMarker?_toJson (m : SpanMarker) : spanMarker? m.toJson = some (some m) := by
  cases m with
  | here => rfl
  | labels names =>
    exact congrArg (Option.map fun l => some (SpanMarker.labels l)) (labelList?_strings names)

namespace Extra

/-! ## Reading -/

/-- The value has a shape that is expected under the key. -/
def understood (key : String) (v : Json) : Bool :=
  if key = "child" ∨ key = "parent" then v.string?.isSome
  else if key = "labels" then (labelList? v).isSome
  else if key = "spanOpen" ∨ key = "spanClose" then (spanMarker? v).isSome
  else false

/-- What becomes of data and a value: the value is read into a field, or kept as it is. -/
inductive Adds (x : Extra) : String → Json → Extra → Prop where
  | child {v : Json} {s : String} (h : v.string? = some s) :
      Adds x "child" v { x with child := some s }
  | parent {v : Json} {s : String} (h : v.string? = some s) :
      Adds x "parent" v { x with parent := some s }
  | labels {v : Json} {names : List String} (h : labelList? v = some names) :
      Adds x "labels" v { x with labels := names }
  | spanOpen {v : Json} {m : Option SpanMarker} (h : spanMarker? v = some m) :
      Adds x "spanOpen" v { x with spanOpen := m }
  | spanClose {v : Json} {m : Option SpanMarker} (h : spanMarker? v = some m) :
      Adds x "spanClose" v { x with spanClose := m }
  | kept {key : String} {v : Json} (h : understood key v = false) :
      Adds x key v { x with rest := x.rest.insert key v }

theorem adds_add (x : Extra) (key : String) (v : Json) : x.Adds key v (x.add key v) := by
  unfold add
  simp only
  split
  · rename_i hkey
    subst hkey
    cases hv : v.string? with
    | some s => exact .child hv
    | none => exact .kept (by simp [understood, hv])
  · split
    · rename_i hkey
      subst hkey
      cases hv : v.string? with
      | some s => exact .parent hv
      | none => exact .kept (by simp [understood, hv])
    · split
      · rename_i hkey
        subst hkey
        cases hv : labelList? v with
        | some names => exact .labels hv
        | none => exact .kept (by simp [understood, hv])
      · split
        · rename_i hkey
          subst hkey
          cases hv : spanMarker? v with
          | some m => exact .spanOpen hv
          | none => exact .kept (by simp [understood, hv])
        · split
          · rename_i hkey
            subst hkey
            cases hv : spanMarker? v with
            | some m => exact .spanClose hv
            | none => exact .kept (by simp [understood, hv])
          · exact .kept (by simp [understood, *])

section

variable (x : Extra) (key : String) (v : Json)

theorem child_add :
    (x.add key v).child = if key = "child" then v.string?.or x.child else x.child := by
  have h := x.adds_add key v
  generalize x.add key v = y at h
  cases h with
  | child h => simp [h]
  | parent | labels | spanOpen | spanClose => rfl
  | kept h => split <;> simp_all [understood]

theorem parent_add :
    (x.add key v).parent = if key = "parent" then v.string?.or x.parent else x.parent := by
  have h := x.adds_add key v
  generalize x.add key v = y at h
  cases h with
  | parent h => simp [h]
  | child | labels | spanOpen | spanClose => rfl
  | kept h => split <;> simp_all [understood]

theorem labels_add : (x.add key v).labels =
    if key = "labels" then (labelList? v).getD x.labels else x.labels := by
  have h := x.adds_add key v
  generalize x.add key v = y at h
  cases h with
  | labels h => simp [h]
  | child | parent | spanOpen | spanClose => rfl
  | kept h => split <;> simp_all [understood]

theorem spanOpen_add : (x.add key v).spanOpen =
    if key = "spanOpen" then (spanMarker? v).getD x.spanOpen else x.spanOpen := by
  have h := x.adds_add key v
  generalize x.add key v = y at h
  cases h with
  | spanOpen h => simp [h]
  | child | parent | labels | spanClose => rfl
  | kept h => split <;> simp_all [understood]

theorem spanClose_add : (x.add key v).spanClose =
    if key = "spanClose" then (spanMarker? v).getD x.spanClose else x.spanClose := by
  have h := x.adds_add key v
  generalize x.add key v = y at h
  cases h with
  | spanClose h => simp [h]
  | child | parent | labels | spanOpen => rfl
  | kept h => split <;> simp_all [understood]

theorem get?_rest_add (k : String) : (x.add key v).rest.get? k =
    if key = k then if understood k v then x.rest.get? k else some v else x.rest.get? k := by
  have h := x.adds_add key v
  generalize x.add key v = y at h
  cases h with
  | child h | parent h | labels h | spanOpen h | spanClose h =>
    split
    · rename_i hkey
      subst hkey
      simp [understood, h]
    · rfl
  | kept h =>
    rw [Dict.get?_insert]
    split
    · rename_i hkey
      rw [if_pos hkey.symm, hkey, h]
      rfl
    · rename_i hkey
      rw [if_neg (Ne.symm hkey)]

end

/-- What changes with the value of one key is told by the value under it. -/
theorem foldl_add {β : Type} {f : Extra → β} {key : String} {g : Json → β → β}
    (h : ∀ x k v, f (x.add k v) = if k = key then g v (f x) else f x) {l : List (String × Json)}
    (hl : (l.map Prod.fst).Nodup) (x : Extra) :
    f (l.foldl (fun x e => x.add e.1 e.2) x) = (Dict.find key l).elim (f x) (g · (f x)) := by
  induction l generalizing x with
  | nil => rfl
  | cons e l ih =>
    obtain ⟨hnew, hl⟩ := List.nodup_cons.1 hl
    rw [List.foldl_cons, ih hl, h, Dict.find]
    by_cases hkey : e.1 = key
    · -- The key stands in front, so no later value changes `f`.
      have hnone : Dict.find key l = none := by
        cases hfind : Dict.find key l with
        | none => rfl
        | some v => exact absurd (List.mem_map_of_mem (Dict.mem_of_find hfind)) (hkey ▸ hnew)
      rw [hnone, if_pos hkey, if_pos (by simp [hkey])]
      rfl
    · rw [if_neg hkey, if_neg (by simpa using Ne.symm hkey)]

theorem ofDict_eq {β : Type} {f : Extra → β} {key : String} {g : Json → β → β}
    (h : ∀ x k v, f (x.add k v) = if k = key then g v (f x) else f x) (d : Dict String Json) :
    f (ofDict d) = (d.get? key).elim (f empty) (g · (f empty)) :=
  foldl_add h d.nodup_keys empty

section

variable (d : Dict String Json)

theorem child_ofDict : (ofDict d).child = (d.get? "child").bind Json.string? := by
  rw [ofDict_eq child_add]
  cases d.get? "child" with
  | none => rfl
  | some v => exact Option.or_none

theorem parent_ofDict : (ofDict d).parent = (d.get? "parent").bind Json.string? := by
  rw [ofDict_eq parent_add]
  cases d.get? "parent" with
  | none => rfl
  | some v => exact Option.or_none

theorem labels_ofDict : (ofDict d).labels = ((d.get? "labels").bind labelList?).getD [] := by
  rw [ofDict_eq labels_add]
  cases d.get? "labels" <;> rfl

theorem spanOpen_ofDict :
    (ofDict d).spanOpen = ((d.get? "spanOpen").bind spanMarker?).getD none := by
  rw [ofDict_eq spanOpen_add]
  cases d.get? "spanOpen" <;> rfl

theorem spanClose_ofDict :
    (ofDict d).spanClose = ((d.get? "spanClose").bind spanMarker?).getD none := by
  rw [ofDict_eq spanClose_add]
  cases d.get? "spanClose" <;> rfl

theorem get?_rest_ofDict (k : String) :
    (ofDict d).rest.get? k = (d.get? k).filter fun v => !understood k v := by
  rw [ofDict_eq (f := fun x => x.rest.get? k)
    (g := fun v kept => if understood k v then kept else some v)
    fun x key v => get?_rest_add x key v k]
  cases d.get? k with
  | none => rfl
  | some v =>
    rw [Option.elim_some, Option.filter_some]
    cases understood k v <;> rfl

end

/-! ## Writing -/

/-- What is written under a key for the field that is read from it. -/
def written (x : Extra) (key : String) : Option Json :=
  if key = "child" then x.child.map .str
  else if key = "parent" then x.parent.map .str
  else if key = "labels" then if x.labels.isEmpty then none else some (.strings x.labels)
  else if key = "spanOpen" then x.spanOpen.map SpanMarker.toJson
  else if key = "spanClose" then x.spanClose.map SpanMarker.toJson
  else none

theorem key_cases (k : String) : k = "child" ∨ k = "parent" ∨ k = "labels" ∨ k = "spanOpen" ∨
    k = "spanClose" ∨ k ≠ "child" ∧ k ≠ "parent" ∧ k ≠ "labels" ∧ k ≠ "spanOpen" ∧
      k ≠ "spanClose" := by
  grind

theorem get?_entry (key k : String) (v : Option Json) (d : Dict String Json) :
    (entry key v d).get? k = (if k = key then v else none).or (d.get? k) := by
  cases v with
  | none => simp [entry]
  | some v =>
    rw [entry, Dict.get?_insert]
    split <;> rfl

theorem get?_toDict (x : Extra) (k : String) :
    x.toDict.get? k = (x.written k).or (x.rest.get? k) := by
  rcases key_cases k with rfl | rfl | rfl | rfl | rfl | h <;>
    simp [toDict, get?_entry, written, *]

/-- What is written can be read again. -/
theorem understood_of_written {x : Extra} {k : String} {v : Json} (h : x.written k = some v) :
    understood k v = true := by
  rcases key_cases k with rfl | rfl | rfl | rfl | rfl | hk
  · obtain ⟨s, _, rfl⟩ := Option.map_eq_some_iff.1 h
    rfl
  · obtain ⟨s, _, rfl⟩ := Option.map_eq_some_iff.1 h
    rfl
  · obtain ⟨_, rfl⟩ : x.labels ≠ [] ∧ .strings x.labels = v := by simpa [written] using h
    simp [understood, labelList?_strings]
  · obtain ⟨m, _, rfl⟩ := Option.map_eq_some_iff.1 h
    simp [understood, spanMarker?_toJson]
  · obtain ⟨m, _, rfl⟩ := Option.map_eq_some_iff.1 h
    simp [understood, spanMarker?_toJson]
  · simp [written, hk] at h

/-! ## Reading what was written -/

/-- Nothing is kept that can be read. -/
def Tidy (x : Extra) : Prop := ∀ k v, x.rest.get? k = some v → understood k v = false

/-- The data as they are after writing and reading. -/
def reread (x : Extra) : Extra := ofDict x.toDict

theorem decode_toJson (x : Extra) : decode x.toJson = .ok x.reread :=
  congrArg (fun d => Except.ok (ofDict d)) x.toDict.ofList_entries

theorem tidy_ofDict (d : Dict String Json) : (ofDict d).Tidy := by
  intro k v h
  rw [get?_rest_ofDict, Option.filter_eq_some_iff] at h
  simpa using h.2

section

variable {x : Extra} (h : x.Tidy)
include h

/-- A field is read from what was written for it, as nothing kept can be read. -/
theorem Tidy.bind_get? {β : Type} {k : String} {read : Json → Option β}
    (hread : ∀ v, understood k v = (read v).isSome) :
    (x.toDict.get? k).bind read = (x.written k).bind read := by
  rw [get?_toDict]
  cases hw : x.written k with
  | some v => rfl
  | none =>
    cases hv : x.rest.get? k with
    | none => rfl
    | some v =>
      have hnone := h k v hv
      rw [hread, Option.isSome_eq_false_iff, Option.isNone_iff_eq_none] at hnone
      exact hnone

/-- The fields are as they were. -/
theorem Tidy.reread_eq : x.reread = { x with rest := x.reread.rest } := by
  have hchild : x.reread.child = x.child := by
    rw [reread, child_ofDict, h.bind_get? fun _ => rfl]
    cases hx : x.child <;> simp [written, hx, Json.string?]
  have hparent : x.reread.parent = x.parent := by
    rw [reread, parent_ofDict, h.bind_get? fun _ => rfl]
    cases hx : x.parent <;> simp [written, hx, Json.string?]
  have hlabels : x.reread.labels = x.labels := by
    rw [reread, labels_ofDict, h.bind_get? fun _ => rfl]
    cases hx : x.labels <;> simp [written, hx, labelList?_strings]
  have hopen : x.reread.spanOpen = x.spanOpen := by
    rw [reread, spanOpen_ofDict, h.bind_get? fun _ => rfl]
    cases hx : x.spanOpen <;> simp [written, hx, spanMarker?_toJson]
  have hclose : x.reread.spanClose = x.spanClose := by
    rw [reread, spanClose_ofDict, h.bind_get? fun _ => rfl]
    cases hx : x.spanClose <;> simp [written, hx, spanMarker?_toJson]
  rw [← hchild, ← hparent, ← hlabels, ← hopen, ← hclose]

theorem Tidy.written_reread (k : String) : x.reread.written k = x.written k := by
  rw [h.reread_eq]
  rfl

/-- What was kept under the key of a field is gone. -/
theorem Tidy.get?_rest_reread (k : String) : x.reread.rest.get? k =
    if (x.written k).isSome then none else x.rest.get? k := by
  rw [reread, get?_rest_ofDict, get?_toDict]
  cases hw : x.written k with
  | some v => simp [understood_of_written hw]
  | none =>
    cases hv : x.rest.get? k with
    | none => rfl
    | some v => simp [h k v hv]

theorem Tidy.toDict_reread : x.reread.toDict = x.toDict := by
  refine Dict.ext_get? fun k => ?_
  rw [get?_toDict, get?_toDict, h.written_reread, h.get?_rest_reread]
  cases x.written k <;> rfl

end

/-- Data that were decoded, and data overlaid by others. -/
inductive Merged : Extra → Prop where
  | decoded {v : Json} {x : Extra} (h : decode v = .ok x) : Merged x
  | overlay {x y : Extra} (hx : Merged x) (hy : Merged y) : Merged (x.overlay y)

theorem exists_ofDict {v : Json} {x : Extra} (h : decode v = .ok x) : ∃ d, x = ofDict d := by
  unfold decode at h
  cases v with
  | null => exact ⟨.empty, (Except.ok.inj h).symm⟩
  | obj fields => exact ⟨_, (Except.ok.inj h).symm⟩
  | bool | int | real | str | arr => cases h

theorem Merged.tidy {x : Extra} (h : x.Merged) : x.Tidy := by
  induction h with
  | decoded h =>
    obtain ⟨d, rfl⟩ := exists_ofDict h
    exact tidy_ofDict d
  | @overlay x y _ _ hx hy =>
    intro k v hk
    rw [Extra.overlay, Dict.get?_insertAll_entries, Option.or_eq_some_iff] at hk
    rcases hk with hk | ⟨_, hk⟩
    · exact hy k v hk
    · exact hx k v hk

/-- Where a value was read, none is kept. -/
theorem get?_rest_ofDict_of_written {d : Dict String Json} {k : String} {w : Json}
    (h : (ofDict d).written k = some w) : (ofDict d).rest.get? k = none := by
  rw [get?_rest_ofDict]
  cases hv : d.get? k with
  | none => rfl
  | some v =>
    cases hu : understood k v with
    | true => simp [hu]
    | false =>
      rcases key_cases k with rfl | rfl | rfl | rfl | rfl | hk
      · simp_all [written, child_ofDict, understood]
      · simp_all [written, parent_ofDict, understood]
      · simp_all [written, labels_ofDict, understood]
      · simp_all [written, spanOpen_ofDict, understood]
      · simp_all [written, spanClose_ofDict, understood]
      · simp_all [written]

/-- Data that were decoded are the same after writing and reading. -/
theorem reread_ofDict (d : Dict String Json) : (ofDict d).reread = ofDict d := by
  have htidy := tidy_ofDict d
  have hrest : (ofDict d).reread.rest = (ofDict d).rest := by
    refine Dict.ext_get? fun k => ?_
    rw [htidy.get?_rest_reread]
    cases hw : (ofDict d).written k with
    | none => rfl
    | some w => exact (get?_rest_ofDict_of_written hw).symm
  rw [htidy.reread_eq, hrest]

end Extra
end TraceExplorer
