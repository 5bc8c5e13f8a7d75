import TraceExplorer.Log.Normalized
import TraceExplorer.Proofs.Session.Extra
import TraceExplorer.Trace.Draft

/-
  Data of an event overlaid with other data. Fields are overlaid with fields and kept values with
  kept values (`written_overlay`, `get?_rest_overlay`), and a field is written in front of a value
  kept under its key. So a value that has no meaning under the key of a field is hidden by the
  field below it (`Shadowed`). For data as they are read that is the one way in which the values
  written are not those of the upper data, where it has any, and of the lower data elsewhere
  (`overlay_overlays`).
-/

namespace TraceExplorer.Extra

variable {x y : Extra} {k : String}

/-- Data as they are read: decoded from JSON, or taken from the tail of a line. -/
inductive Incoming : Extra → Prop where
  | decoded {v : Json} {x : Extra} (h : decode v = .ok x) : Incoming x
  | parsed {tail : String} {x : Extra} (h : Trace.tailExtra? tail = some x) : Incoming x

theorem Incoming.tidy (h : x.Incoming) : x.Tidy := by
  cases h with
  | decoded h => exact (Merged.decoded h).tidy
  | parsed h =>
    obtain ⟨l, _, rfl⟩ := Option.map_eq_some_iff.1 h
    exact tidy_ofDict _

/-! ## Parts of an overlay -/

theorem written_overlay (x y : Extra) (k : String) :
    (x.overlay y).written k = (y.written k).or (x.written k) := by
  rcases key_cases k with rfl | rfl | rfl | rfl | rfl | hk
  · cases h : y.child <;> simp [written, overlay, h]
  · cases h : y.parent <;> simp [written, overlay, h]
  · cases h : y.labels <;> simp [written, overlay, h]
  · cases h : y.spanOpen <;> simp [written, overlay, h]
  · cases h : y.spanClose <;> simp [written, overlay, h]
  · simp [written, hk]

theorem get?_rest_overlay (x y : Extra) (k : String) :
    (x.overlay y).rest.get? k = (y.rest.get? k).or (x.rest.get? k) :=
  Dict.get?_insertAll_entries x.rest y.rest k

/-- Every field stands in front of every kept value. -/
theorem get?_toDict_overlay (x y : Extra) (k : String) : (x.overlay y).toDict.get? k =
    ((y.written k).or (x.written k)).or ((y.rest.get? k).or (x.rest.get? k)) := by
  rw [get?_toDict, written_overlay, get?_rest_overlay]

theorem isSome_get?_overlay (x y : Extra) (k : String) : ((x.overlay y).toDict.get? k).isSome =
    ((y.toDict.get? k).isSome || (x.toDict.get? k).isSome) := by
  rw [get?_toDict_overlay, get?_toDict, get?_toDict]
  simp only [Option.isSome_or]
  ac_rfl

/-! ## Hidden values -/

/-- The value of `y` has no meaning under the key, and that of `x` has one. -/
def Shadowed (x y : Extra) (k : String) : Prop :=
  ∃ v w, y.toDict.get? k = some v ∧ understood k v = false ∧
    x.toDict.get? k = some w ∧ understood k w = true

/-- A value with a meaning is that of a field. -/
theorem Tidy.get?_understood_iff (h : x.Tidy) {v : Json} :
    x.toDict.get? k = some v ∧ understood k v = true ↔ x.written k = some v := by
  rw [get?_toDict]
  cases hw : x.written k with
  | some w =>
    have hu := understood_of_written hw
    exact ⟨And.left, fun heq => ⟨heq, Option.some.inj heq ▸ hu⟩⟩
  | none =>
    refine ⟨fun ⟨hv, hu⟩ => ?_, fun hv => (by cases hv)⟩
    rw [h k v hv] at hu
    cases hu

/-- A value without a meaning is kept. -/
theorem Tidy.get?_not_understood_iff (h : x.Tidy) {v : Json} :
    x.toDict.get? k = some v ∧ understood k v = false ↔
      x.written k = none ∧ x.rest.get? k = some v := by
  rw [get?_toDict]
  cases hw : x.written k with
  | some w =>
    refine ⟨fun ⟨heq, hu⟩ => ?_, fun ⟨hnone, _⟩ => (by cases hnone)⟩
    rw [← Option.some.inj heq, understood_of_written hw] at hu
    cases hu
  | none => exact ⟨fun ⟨hv, _⟩ => ⟨rfl, hv⟩, fun ⟨_, hv⟩ => ⟨hv, h k v hv⟩⟩

theorem shadowed_iff (hx : x.Tidy) (hy : y.Tidy) : Shadowed x y k ↔
    y.written k = none ∧ (∃ v, y.rest.get? k = some v) ∧ ∃ w, x.written k = some w := by
  constructor
  · rintro ⟨v, w, hv, hvu, hw, hwu⟩
    obtain ⟨hnone, hkept⟩ := hy.get?_not_understood_iff.1 ⟨hv, hvu⟩
    exact ⟨hnone, ⟨v, hkept⟩, w, hx.get?_understood_iff.1 ⟨hw, hwu⟩⟩
  · rintro ⟨hnone, ⟨v, hkept⟩, w, hfield⟩
    obtain ⟨hv, hvu⟩ := hy.get?_not_understood_iff.2 ⟨hnone, hkept⟩
    obtain ⟨hw, hwu⟩ := hx.get?_understood_iff.2 hfield
    exact ⟨v, w, hv, hvu, hw, hwu⟩

/-- A hidden value gives way to that of the lower data. -/
theorem get?_overlay_of_shadowed (hx : x.Tidy) (hy : y.Tidy) (h : Shadowed x y k) :
    (x.overlay y).toDict.get? k = x.toDict.get? k := by
  obtain ⟨hnone, _, w, hfield⟩ := (shadowed_iff hx hy).1 h
  rw [get?_toDict_overlay, get?_toDict, hnone, hfield]
  rfl

theorem get?_overlay_of_not_shadowed (hx : x.Tidy) (hy : y.Tidy) (h : ¬ Shadowed x y k) :
    (x.overlay y).toDict.get? k = (y.toDict.get? k).or (x.toDict.get? k) := by
  rw [shadowed_iff hx hy] at h
  rw [get?_toDict_overlay, get?_toDict, get?_toDict]
  cases hyw : y.written k with
  | some v => rfl
  | none =>
    cases hxw : x.written k with
    | none => rfl
    | some w =>
      -- The field of `x` is in front, and `y` keeps nothing that it could hide.
      have hkept : y.rest.get? k = none := Option.eq_none_iff_forall_ne_some.2 fun v hv =>
        h ⟨hyw, ⟨v, hv⟩, w, hxw⟩
      rw [hkept]
      rfl

/-! ## Rows -/

/-- What the beginning of an operation sets under a key. -/
def begunValue (pre : Option Event) (k : String) : Option Json :=
  if k = "labels" ∨ k = "spanOpen" ∨ k = "spanClose" then pre.bind (·.extra.written k) else none

/-- The data of an operation, key by key. -/
theorem get?_toDict_merge (post : Event) (pre : Option Event) (y : Extra) (k : String) :
    (NormalizedLog.merge post pre (some y)).extra.toDict.get? k =
      (begunValue pre k).or ((post.extra.overlay y).toDict.get? k) := by
  rw [get?_toDict, get?_toDict, ← Option.or_assoc]
  cases pre with
  | none => simp [NormalizedLog.merge, begunValue]
  | some pre =>
    congr 1
    rcases key_cases k with rfl | rfl | rfl | rfl | rfl | hk
    · simp [NormalizedLog.merge, begunValue, written]
    · simp [NormalizedLog.merge, begunValue, written]
    · cases h : pre.extra.labels <;> simp [NormalizedLog.merge, begunValue, written, h]
    · cases h : pre.extra.spanOpen <;> simp [NormalizedLog.merge, begunValue, written, h]
    · cases h : pre.extra.spanClose <;> simp [NormalizedLog.merge, begunValue, written, h]
    · simp [begunValue, written, hk]

/-- What overlaying `x` with `y` gives, key by key. -/
structure Overlays (x y : Extra) : Prop where
  keys : ∀ k, ((x.overlay y).toDict.get? k).isSome =
    ((y.toDict.get? k).isSome || (x.toDict.get? k).isSome)
  overrides_iff : ∀ k,
    (x.overlay y).toDict.get? k = (y.toDict.get? k).or (x.toDict.get? k) ↔ ¬ Shadowed x y k
  shadowed : ∀ k, Shadowed x y k → (x.overlay y).toDict.get? k = x.toDict.get? k
  /-- The operation that ends with the data `x`, with a copy that has the data `y`. -/
  row : ∀ (post : Event) (pre : Option Event) (k : String), post.extra = x →
    (NormalizedLog.merge post pre (some y)).extra.toDict.get? k =
      (begunValue pre k).or ((x.overlay y).toDict.get? k)

theorem overlay_overlays (hx : x.Incoming) (hy : y.Incoming) : x.Overlays y where
  keys := isSome_get?_overlay x y
  overrides_iff k := by
    refine ⟨fun heq hshadowed => ?_, get?_overlay_of_not_shadowed hx.tidy hy.tidy⟩
    have hlower := get?_overlay_of_shadowed hx.tidy hy.tidy hshadowed
    obtain ⟨v, w, hv, hvu, hw, hwu⟩ := hshadowed
    -- One value would have a meaning and have none.
    rw [hlower, hv, hw, Option.some_or] at heq
    rw [← Option.some.inj heq, hwu] at hvu
    cases hvu
  shadowed _ := get?_overlay_of_shadowed hx.tidy hy.tidy
  row post pre k hpost := by rw [get?_toDict_merge, hpost]

theorem decode_obj (fields : List (String × Json)) :
    decode (.obj fields) = .ok (ofDict (Dict.ofList fields)) := rfl

/-- Both name a session, the lower data only have a number of their own, and the upper data only
    have labels; below the link up, the upper data have what is no link. -/
theorem overlay_overlays_linkedData :
    ∃ x y, decode (.obj [("child", .str "1(1:2)"), ("n", .int 1), ("parent", .str "1(0:1)")]) =
        .ok x ∧
      decode (.obj [("child", .str "1(1:3)"), ("labels", .str "loop"), ("parent", .int 7)]) =
        .ok y ∧
      (x.overlay y).toDict.get? "child" = some (.str "1(1:3)") ∧
      (x.overlay y).toDict.get? "n" = some (.int 1) ∧
      (x.overlay y).toDict.get? "parent" = some (.str "1(0:1)") ∧ x.Overlays y :=
  ⟨_, _, decode_obj _, decode_obj _, rfl, rfl, rfl,
    overlay_overlays (.decoded (decode_obj _)) (.decoded (decode_obj _))⟩

/-- A number that is laid over the name of a session is hidden by it. -/
theorem not_overrides_numberedChild :
    ∃ x y, decode (.obj [("child", .str "1(1:2)")]) = .ok x ∧
      decode (.obj [("child", .int 7)]) = .ok y ∧
      (x.overlay y).toDict.get? "child" = some (.str "1(1:2)") ∧
      (x.overlay y).toDict.get? "child" ≠ (y.toDict.get? "child").or (x.toDict.get? "child") := by
  refine ⟨_, _, decode_obj _, decode_obj _, rfl, fun heq => ?_⟩
  have hvalues : some (Json.str "1(1:2)") = some (Json.int 7) := heq
  cases hvalues

end TraceExplorer.Extra
