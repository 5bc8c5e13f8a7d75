import TraceExplorer.Proofs.Run.Numbering
import TraceExplorer.Proofs.Run.Order
import TraceExplorer.Proofs.Trace.Story
import Mathlib.Data.List.Forall2

/-
  What becomes of the elements of a session array. Elements are rejected where they are decoded,
  where sessions that halted are dropped and where the index takes sessions in. `fate` says it
  of one element after the others before it, and the index of the array and its reports are what
  the fates say, in the order of the array (`accounts_ofArray`). Only indexed elements bear on
  the fates of later ones, so without any of the others the fates of the rest are as they were
  (`Decided.sublist`), and so is all that the index tells about its sessions (`Index.Unchanged`).
-/

namespace TraceExplorer

/-! ## Indexes of the same sessions in the same order -/

namespace Index

namespace SameEntries

variable {x y : Index} (h : x.SameEntries y)
include h

theorem ascent_eq {e : Entry} (he : e ∈ x.entries) : x.ascent e = y.ascent e := by
  have he' : e ∈ y.entries := List.Perm.mem_iff h |>.1 he
  have hway := (h.isWalk (isWalk_ascent he)).unique (isWalk_ascent he')
  refine Prod.ext hway ?_
  exact (hway ▸ h.endsIn (endsIn_ascent he)).unique (endsIn_ascent he')

theorem ofGoals_eq (ids : List String) : Waypoints.ofGoals x ids = Waypoints.ofGoals y ids := by
  have hadd : Waypoints.add x = Waypoints.add y := by
    funext ws id
    unfold Waypoints.add Waypoint.ofGoal
    rw [← h.get?_eq]
    cases hgoal : x.get? id with
    | none => rfl
    | some goal =>
      simp only
      rw [h.ascent_eq (get?_eq_some_iff.1 hgoal).1]
  unfold Waypoints.ofGoals
  rw [hadd]

end SameEntries

theorem Added.unparsed_eq {x y : Index} {s : Session} (h : x.Added s y) :
    y.unparsed = x.unparsed := by
  cases h with
  | malformed | malformedParent | duplicate | entry => rfl

theorem unparsed_ofTrace (sessions : List Session) (rejected : List Trace.Rejected) :
    (ofTrace ⟨sessions, rejected⟩).unparsed = rejected := by
  induction sessions using List.reverseRecOn with
  | nil => rfl
  | append_singleton sessions s ih => rw [ofTrace_concat, (added_add _ s).unparsed_eq, ih]

/-- What two indexes with the same entries agree on. -/
structure Unchanged (x y : Index) : Prop where
  entries : x.entries = y.entries
  get? : ∀ id, x.get? id = y.get? id
  roots : x.roots = y.roots
  root? : ∀ mach, x.root? mach = y.root? mach
  kids : ∀ id, x.kids id = y.kids id
  runSize : ∀ mach, x.runSize mach = y.runSize mach
  /-- Also the faults are the same where there is no chain. -/
  chain : ∀ id, x.chain id = y.chain id
  run : ∀ mach, Run.select? x mach = Run.select? y mach
  path : ∀ (run : Run) (id : String), run.path x id = run.path y id
  rawLog : ∀ waypoints id, RawLog.assemble x waypoints id = RawLog.assemble y waypoints id
  normalizedLog : ∀ waypoints id,
    NormalizedLog.assemble x waypoints id = NormalizedLog.assemble y waypoints id

theorem unchanged_of_entries_eq {x y : Index} (h : x.entries = y.entries) : x.Unchanged y := by
  have hsame : x.SameEntries y := .of_eq h
  have hmembers : x.members = y.members := by
    funext mach
    unfold members
    rw [h]
  exact
    { entries := h
      get? := congrFun hsame.get?_eq
      roots := hsame.roots_eq
      root? := congrFun hsame.root?_eq
      kids := fun id => by rw [kids, kids, h]
      runSize := congrFun hsame.runSize_eq
      chain := hsame.chain_eq
      run := fun mach => by
        unfold Run.select? Run.ofRoot
        simp only [hsame.root?_eq, hmembers, hsame.ofGoals_eq, hsame.tree_eq]
      path := fun run id => by
        unfold Run.path
        rw [hsame.chain_eq]
      rawLog := fun waypoints id => by rw [RawLog.assemble, RawLog.assemble, hsame.chain_eq]
      normalizedLog := fun waypoints id => by
        rw [NormalizedLog.assemble, NormalizedLog.assemble, hsame.chain_eq] }

end Index

@[simp] theorem Session.fillValues_error (s : Session) : s.fillValues.error = s.error := by
  unfold fillValues
  split <;> rfl

theorem Session.decodes_fillValues_iff {s : Session} : s.fillValues.Decodes ↔ s.Decodes := by
  constructor
  · rintro ⟨hid, hparent⟩
    rw [fillValues_id] at hid
    rw [fillValues_parentId] at hparent
    exact ⟨hid, hparent⟩
  · rintro ⟨hid, hparent⟩
    exact ⟨s.fillValues_id ▸ hid, s.fillValues_parentId ▸ hparent⟩

namespace Trace

/-! ## Arrays -/

/-- The trace of an array, without the sessions that halted with an ignored code. -/
def ofArray (ignored : List UInt64) (elements : List Json) : Trace :=
  { ofElements elements with sessions := dropHalted ignored (ofElements elements).sessions }

/-- The bytes are a JSON array of the elements. -/
structure Writes (bytes : List UInt8) (elements : List Json) : Prop where
  bracket : (bytes.dropWhile isBlankByte).head? = some 91
  value : (String.fromUTF8? ⟨bytes.toArray⟩).bind Json.read? = some (.arr elements)

theorem Writes.load_eq {bytes : List UInt8} {elements : List Json} (h : Writes bytes elements)
    (ignored : List UInt64) : load ignored bytes = .ok (ofArray ignored elements) := by
  unfold load ofBytes ofJson
  rw [h.bracket, h.value]
  rfl

theorem ofElements_concat (elements : List Json) (element : Json) :
    ofElements (elements ++ [element]) =
      (ofElements elements).addElement elements.length element := by
  unfold ofElements
  rw [List.zipIdx_append, List.foldl_append, Nat.zero_add]
  rfl

theorem ofArray_concat_ok (ignored : List UInt64) (elements : List Json) {element : Json}
    {s : Session} (h : Session.decode element = .ok s) :
    ofArray ignored (elements ++ [element]) =
      ⟨(ofArray ignored elements).sessions ++ dropHalted ignored [s.fillValues],
        (ofArray ignored elements).rejected⟩ := by
  unfold ofArray
  rw [ofElements_concat]
  simp only [addElement, h, dropHalted, List.filter_append]

theorem ofArray_concat_error (ignored : List UInt64) (elements : List Json) {element : Json}
    {fault : Json.DecodeFault} (h : Session.decode element = .error fault) :
    ofArray ignored (elements ++ [element]) =
      ⟨(ofArray ignored elements).sessions, (ofArray ignored elements).rejected ++
        [⟨elementName elements.length element, fault.message⟩]⟩ := by
  unfold ofArray
  rw [ofElements_concat]
  simp only [addElement, h]

/-! ## Fates -/

/-- The session reports a halt code that is ignored. -/
def Halted (ignored : List UInt64) (s : Session) : Prop :=
  ∃ code ∈ ignored, haltCode? s.error = some code

instance (ignored : List UInt64) (s : Session) : Decidable (Halted ignored s) :=
  inferInstanceAs (Decidable (∃ code ∈ ignored, haltCode? s.error = some code))

theorem dropHalted_eq_filter (ignored : List UInt64) (sessions : List Session) :
    dropHalted ignored sessions = sessions.filter fun s => ¬ Halted ignored s := by
  unfold dropHalted
  refine List.filter_congr fun s _ => ?_
  rw [Bool.eq_iff_iff, decide_eq_true_iff]
  unfold Halted
  cases haltCode? s.error with
  | none => simp
  | some code => simp

theorem dropHalted_singleton (ignored : List UInt64) (s : Session) :
    dropHalted ignored [s] = if Halted ignored s then [] else [s] := by
  rw [dropHalted_eq_filter, List.filter_singleton]
  by_cases h : Halted ignored s <;> simp [h]

instance (s : Session) : Decidable s.Decodes := decidable_of_iff _ Session.isSome_entry?_iff

/-- The machine that an element is, if it is the session of one. -/
def mach? (element : Json) : Option UInt64 :=
  match Session.decode element with
  | .ok s => (MachineId.decode s.id).toOption.map (·.mach)
  | .error _ => none

theorem mach?_eq {element : Json} {s : Session} {mid : MachineId}
    (hdecode : Session.decode element = .ok s) (hid : MachineId.decode s.id = .ok mid) :
    mach? element = some mid.mach := by
  unfold mach?
  rw [hdecode]
  simp only [hid]
  rfl

/-- What becomes of an element of an array. -/
inductive Fate where
  | unparsed
  | dropped
  | malformed
  | duplicate
  | indexed
deriving Repr, DecidableEq

/-- The fate of an element that comes after others whose fates are known. -/
def fate (ignored : List UInt64) (before : List (Json × Fate)) (element : Json) : Fate :=
  match Session.decode element with
  | .error _ => .unparsed
  | .ok s =>
    if Halted ignored s then .dropped
    else if ¬ s.Decodes then .malformed
    else if ∃ e ∈ before, e.2 = .indexed ∧ mach? e.1 = mach? element then .duplicate
    else .indexed

/-- The elements with their fates. -/
def fates (ignored : List UInt64) (elements : List Json) : List (Json × Fate) :=
  elements.foldl (fun before element => before ++ [(element, fate ignored before element)]) []

theorem fates_concat (ignored : List UInt64) (elements : List Json) (element : Json) :
    fates ignored (elements ++ [element]) = fates ignored elements ++
      [(element, fate ignored (fates ignored elements) element)] :=
  List.foldl_append

theorem map_fst_fates (ignored : List UInt64) (elements : List Json) :
    (fates ignored elements).map Prod.fst = elements := by
  induction elements using List.reverseRecOn with
  | nil => rfl
  | append_singleton elements element ih => rw [fates_concat, List.map_append, ih]; rfl

/-- Every element has the fate that it has after those before it. -/
def Decided (ignored : List UInt64) (placed : List (Json × Fate)) : Prop :=
  ∀ (n : Nat) (element : Json) (f : Fate), placed[n]? = some (element, f) →
    f = fate ignored (placed.take n) element

theorem decided_concat {ignored : List UInt64} {placed : List (Json × Fate)} {element : Json}
    {f : Fate} : Decided ignored (placed ++ [(element, f)]) ↔
      Decided ignored placed ∧ f = fate ignored placed element := by
  have hfront : ∀ {n : Nat}, n < placed.length →
      (placed ++ [(element, f)])[n]? = placed[n]? ∧
        (placed ++ [(element, f)]).take n = placed.take n := fun hn =>
    ⟨List.getElem?_append_left hn, List.take_append_of_le_length hn.le⟩
  constructor
  · intro h
    refine ⟨fun n e g hn => ?_, ?_⟩
    · obtain ⟨hplace, htake⟩ := hfront (List.getElem?_eq_some_iff.1 hn).1
      exact htake ▸ h n e g (hplace.trans hn)
    · have hlast := h placed.length element f List.getElem?_concat_length
      rwa [List.take_left] at hlast
  · rintro ⟨h, hlast⟩ n e g hn
    have hlt := (List.getElem?_eq_some_iff.1 hn).1
    rw [List.length_append, List.length_singleton, Nat.lt_succ_iff_lt_or_eq] at hlt
    rcases hlt with hlt | rfl
    · obtain ⟨hplace, htake⟩ := hfront hlt
      exact htake ▸ h n e g (hplace.symm.trans hn)
    · rw [List.getElem?_concat_length] at hn
      obtain ⟨rfl, rfl⟩ := Prod.mk.inj (Option.some.inj hn)
      rwa [List.take_left]

/-- The fates are those that are decided one after another, and no others. -/
theorem decided_iff {ignored : List UInt64} {placed : List (Json × Fate)} :
    Decided ignored placed ↔ fates ignored (placed.map Prod.fst) = placed := by
  induction placed using List.reverseRecOn with
  | nil => exact ⟨fun _ => rfl, fun _ _ _ _ h => by cases h⟩
  | append_singleton placed e ih =>
    obtain ⟨element, f⟩ := e
    rw [decided_concat, ih, List.map_append, List.map_singleton, fates_concat]
    constructor
    · rintro ⟨hfront, hlast⟩
      rw [hfront, ← hlast]
    · intro h
      obtain ⟨hfront, hlast⟩ := List.append_inj' h rfl
      rw [hfront] at hlast
      exact ⟨hfront, (Prod.mk.inj (List.cons.inj hlast).1).2.symm⟩

/-- The elements of one fate, each with its place. -/
def withFate (f : Fate) (placed : List (Json × Fate)) : List ((Json × Fate) × Nat) :=
  placed.zipIdx.filter (·.1.2 = f)

theorem withFate_concat (f g : Fate) (placed : List (Json × Fate)) (element : Json) :
    withFate f (placed ++ [(element, g)]) =
      withFate f placed ++ if g = f then [((element, g), placed.length)] else [] := by
  unfold withFate
  rw [List.zipIdx_append, List.filter_append, Nat.zero_add, List.zipIdx_singleton,
    List.filter_singleton]
  by_cases h : g = f <;> simp [h]

theorem mem_withFate {f : Fate} {placed : List (Json × Fate)} {p : (Json × Fate) × Nat} :
    p ∈ withFate f placed ↔ placed[p.2]? = some p.1 ∧ p.1.2 = f := by
  unfold withFate
  rw [List.mem_filter, List.mem_zipIdx_iff_getElem?, decide_eq_true_iff]

/-- Every element has one of the fates. -/
theorem length_withFate (placed : List (Json × Fate)) :
    (withFate .unparsed placed).length + (withFate .dropped placed).length +
      (withFate .malformed placed).length + (withFate .duplicate placed).length +
      (withFate .indexed placed).length = placed.length := by
  induction placed using List.reverseRecOn with
  | nil => rfl
  | append_singleton placed e ih =>
    obtain ⟨element, f⟩ := e
    simp only [withFate_concat, List.length_append]
    cases f <;> simp <;> omega

/-! ## Reports and entries -/

/-- What is reported of an element for its fate. -/
inductive Reported (placed : List (Json × Fate)) : (Json × Fate) × Nat → Rejected → Prop where
  | unparsed {element : Json} {n : Nat} {fault : Json.DecodeFault}
      (h : Session.decode element = .error fault) :
      Reported placed ((element, .unparsed), n) ⟨elementName n element, fault.message⟩
  | malformed {element : Json} {n : Nat} {s : Session} {fault : Fault}
      (h : Session.decode element = .ok s) (hid : MachineId.decode s.id = .error fault) :
      Reported placed ((element, .malformed), n) ⟨s.id, fault.message⟩
  | malformedParent {element : Json} {n : Nat} {s : Session} {mid : MachineId} {p : String}
      {fault : Fault} (h : Session.decode element = .ok s) (hid : MachineId.decode s.id = .ok mid)
      (hp : s.parentId = some p) (hparent : MachineId.decode p = .error fault) :
      Reported placed ((element, .malformed), n) ⟨s.id, "parent: " ++ fault.message⟩
  /-- The identifier of the indexed session that has the machine is in the report. -/
  | duplicate {element earlier : Json} {m n : Nat} {s existing : Session} {mid mid' : MachineId}
      (h : Session.decode element = .ok s) (hid : MachineId.decode s.id = .ok mid) (hmn : m < n)
      (hearlier : placed[m]? = some (earlier, .indexed))
      (hexisting : Session.decode earlier = .ok existing)
      (hid' : MachineId.decode existing.id = .ok mid') (hmach : mid'.mach = mid.mach) :
      Reported placed ((element, .duplicate), n)
        ⟨s.id, (Fault.duplicateMach mid.mach s.id existing.id).message⟩

theorem Reported.append {placed : List (Json × Fate)} {p : (Json × Fate) × Nat} {r : Rejected}
    (h : Reported placed p r) (more : List (Json × Fate)) : Reported (placed ++ more) p r := by
  cases h with
  | unparsed h => exact .unparsed h
  | malformed h hid => exact .malformed h hid
  | malformedParent h hid hp hparent => exact .malformedParent h hid hp hparent
  | duplicate h hid hmn hearlier hexisting hid' hmach =>
    refine .duplicate h hid hmn ?_ hexisting hid' hmach
    rw [List.getElem?_append_left (List.getElem?_eq_some_iff.1 hearlier).1, hearlier]

/-- The entry has the session of the element, with its values filled in. -/
def Enters (element : Json) (e : Entry) : Prop :=
  ∃ s, Session.decode element = .ok s ∧ e.session = s.fillValues

theorem Enters.decoded {element : Json} {e : Entry} (h : Enters element e) :
    ∃ s, Session.decode element = .ok s ∧ s.id = e.id ∧ MachineId.decode s.id = .ok e.mid := by
  obtain ⟨s, hdecode, hs⟩ := h
  have hid : s.id = e.id := by rw [Entry.id, hs, s.fillValues_id]
  exact ⟨s, hdecode, hid, hid ▸ e.decoded⟩

theorem Enters.mach?_eq {element : Json} {e : Entry} (h : Enters element e) :
    mach? element = some e.mach := by
  obtain ⟨s, hdecode, _, hid⟩ := h.decoded
  exact Trace.mach?_eq hdecode hid

section

variable {α : Type} {R R' : (Json × Fate) × Nat → α → Prop} {placed : List (Json × Fate)}
  {element : Json} {f g : Fate} {l : List α}

theorem forall₂_withFate_of_ne (h : List.Forall₂ R (withFate f placed) l)
    (hR : ∀ p a, R p a → R' p a) (hne : g ≠ f) :
    List.Forall₂ R' (withFate f (placed ++ [(element, g)])) l := by
  rw [withFate_concat, if_neg hne, List.append_nil]
  exact h.imp hR

theorem forall₂_withFate_concat (h : List.Forall₂ R (withFate f placed) l)
    (hR : ∀ p a, R p a → R' p a) {a : α} (ha : R' ((element, f), placed.length) a) :
    List.Forall₂ R' (withFate f (placed ++ [(element, f)])) (l ++ [a]) := by
  rw [withFate_concat, if_pos rfl]
  exact List.rel_append (h.imp hR) (.cons ha .nil)

end

/-- The index holds and reports what the fates say of the sessions that it took in. -/
structure TakesIn (placed : List (Json × Fate)) (x : Index) : Prop where
  malformed : List.Forall₂ (Reported placed) (withFate .malformed placed) x.malformed
  duplicates : List.Forall₂ (Reported placed) (withFate .duplicate placed) x.duplicates
  entries : List.Forall₂ (fun p => Enters p.1.1) (withFate .indexed placed) x.entries

namespace TakesIn

variable {placed : List (Json × Fate)} {x : Index} (h : TakesIn placed x)
include h

theorem exists_of_mem_entries {e : Entry} (he : e ∈ x.entries) :
    ∃ (m : Nat) (element : Json), placed[m]? = some (element, Fate.indexed) ∧
      Enters element e := by
  obtain ⟨⟨⟨element, f⟩, m⟩, hp, henters⟩ := Tree.exists_mem_of_forall₂ h.entries.flip he
  obtain ⟨hplace, rfl⟩ := mem_withFate.1 hp
  exact ⟨m, element, hplace, henters⟩

/-- The machines of the entries are those of the elements that are indexed. -/
theorem exists_entry_iff (mach : UInt64) : (∃ e ∈ x.entries, e.mach = mach) ↔
    ∃ e ∈ placed, e.2 = .indexed ∧ mach? e.1 = some mach := by
  constructor
  · rintro ⟨e, he, rfl⟩
    obtain ⟨m, element, hplace, henters⟩ := h.exists_of_mem_entries he
    exact ⟨(element, .indexed), List.mem_of_getElem? hplace, rfl, henters.mach?_eq⟩
  · rintro ⟨⟨element, f⟩, hp, rfl, hmach⟩
    obtain ⟨n, hn⟩ := List.mem_iff_getElem?.1 hp
    obtain ⟨e, he, henters⟩ := Tree.exists_mem_of_forall₂ h.entries
      (mem_withFate.2 ⟨hn, rfl⟩ : ((element, .indexed), n) ∈ withFate .indexed placed)
    exact ⟨e, he, Option.some.inj (henters.mach?_eq.symm.trans hmach)⟩

theorem concat_of_ne {element : Json} {f : Fate} (hmalformed : f ≠ .malformed)
    (hduplicate : f ≠ .duplicate) (hindexed : f ≠ .indexed) :
    TakesIn (placed ++ [(element, f)]) x where
  malformed := forall₂_withFate_of_ne h.malformed (fun _ _ hr => hr.append _) hmalformed
  duplicates := forall₂_withFate_of_ne h.duplicates (fun _ _ hr => hr.append _) hduplicate
  entries := forall₂_withFate_of_ne h.entries (fun _ _ he => he) hindexed

/-- What the index does with a session is the fate of its element. -/
theorem add {ignored : List UInt64} {element : Json} {s : Session}
    (hdecode : Session.decode element = .ok s) (hhalt : ¬ Halted ignored s) :
    TakesIn (placed ++ [(element, fate ignored placed element)]) (x.add s.fillValues) := by
  have hfate : fate ignored placed element = if ¬ s.Decodes then .malformed
      else if ∃ e ∈ placed, e.2 = .indexed ∧ mach? e.1 = mach? element then .duplicate
      else .indexed := by
    unfold fate
    rw [hdecode]
    exact if_neg hhalt
  have hreported : ∀ f p r, Reported placed p r → Reported (placed ++ [(element, f)]) p r :=
    fun f p r hr => hr.append _
  have henters : ∀ (p : (Json × Fate) × Nat) e, Enters p.1.1 e → Enters p.1.1 e :=
    fun _ _ he => he
  have hadded := Index.added_add x s.fillValues
  generalize x.add s.fillValues = y at hadded ⊢
  cases hadded with
  | malformed hid =>
    rw [Session.fillValues_id] at hid ⊢
    have hno : ¬ s.Decodes := fun hs => by
      obtain ⟨mid, hmid⟩ := hs.id
      rw [hmid] at hid
      cases hid
    rw [hfate, if_pos hno]
    exact
      { malformed := forall₂_withFate_concat h.malformed (hreported _) (.malformed hdecode hid)
        duplicates := forall₂_withFate_of_ne h.duplicates (hreported _) (by decide)
        entries := forall₂_withFate_of_ne h.entries henters (by decide) }
  | malformedParent hid hp hfault =>
    rw [Session.fillValues_id] at hid ⊢
    rw [Session.fillValues_parentId] at hp
    have hno : ¬ s.Decodes := fun hs => by
      obtain ⟨mid, hmid⟩ := hs.parent _ hp
      rw [hmid] at hfault
      cases hfault
    rw [hfate, if_pos hno]
    exact
      { malformed := forall₂_withFate_concat h.malformed (hreported _)
          (.malformedParent hdecode hid hp hfault)
        duplicates := forall₂_withFate_of_ne h.duplicates (hreported _) (by decide)
        entries := forall₂_withFate_of_ne h.entries henters (by decide) }
  | @duplicate mid existing hid hs hmem hmach =>
    rw [Session.fillValues_id] at hid ⊢
    have helement : mach? element = some mid.mach := mach?_eq hdecode hid
    have hold := (h.exists_entry_iff mid.mach).1 ⟨existing, hmem, hmach⟩
    rw [← helement] at hold
    rw [hfate, if_neg (not_not_intro (Session.decodes_fillValues_iff.1 hs)), if_pos hold]
    obtain ⟨m, earlier, hplace, henter⟩ := h.exists_of_mem_entries hmem
    obtain ⟨t, hearlier, htid, hmid⟩ := henter.decoded
    have hmn : m < placed.length := (List.getElem?_eq_some_iff.1 hplace).1
    rw [← htid]
    exact
      { malformed := forall₂_withFate_of_ne h.malformed (hreported _) (by decide)
        duplicates := forall₂_withFate_concat h.duplicates (hreported _) <|
          .duplicate hdecode hid hmn (by rw [List.getElem?_append_left hmn, hplace]) hearlier
            hmid hmach
        entries := forall₂_withFate_of_ne h.entries henters (by decide) }
  | @entry mid hid hs hnew =>
    have helement : mach? element = some mid.mach := mach?_eq hdecode (s.fillValues_id ▸ hid)
    have hfresh : ¬ ∃ e ∈ placed, e.2 = .indexed ∧ mach? e.1 = mach? element := by
      rw [helement, ← h.exists_entry_iff]
      rintro ⟨e, he, hmach⟩
      exact hnew e he hmach
    rw [hfate, if_neg (not_not_intro (Session.decodes_fillValues_iff.1 hs)), if_neg hfresh]
    exact
      { malformed := forall₂_withFate_of_ne h.malformed (hreported _) (by decide)
        duplicates := forall₂_withFate_of_ne h.duplicates (hreported _) (by decide)
        entries := forall₂_withFate_concat h.entries henters ⟨s, hdecode, rfl⟩ }

end TakesIn

/-- The index and its reports are what the fates of the elements say, each in the order of the
    elements. -/
structure Accounts (placed : List (Json × Fate)) (x : Index) : Prop extends TakesIn placed x where
  unparsed : List.Forall₂ (Reported placed) (withFate .unparsed placed) x.unparsed

theorem Accounts.count {placed : List (Json × Fate)} {x : Index} (h : Accounts placed x) :
    x.unparsed.length + (withFate .dropped placed).length + x.malformed.length +
      x.duplicates.length + x.size = placed.length := by
  rw [Index.size, ← h.unparsed.length_eq, ← h.malformed.length_eq, ← h.duplicates.length_eq,
    ← h.entries.length_eq]
  exact length_withFate placed

theorem fate_of_error (ignored : List UInt64) (before : List (Json × Fate)) {element : Json}
    {fault : Json.DecodeFault} (h : Session.decode element = .error fault) :
    fate ignored before element = .unparsed := by
  unfold fate
  rw [h]

theorem fate_of_halted {ignored : List UInt64} (before : List (Json × Fate)) {element : Json}
    {s : Session} (h : Session.decode element = .ok s) (hhalt : Halted ignored s) :
    fate ignored before element = .dropped := by
  unfold fate
  rw [h]
  exact if_pos hhalt

theorem halted_fillValues (ignored : List UInt64) (s : Session) :
    Halted ignored s.fillValues ↔ Halted ignored s := by
  unfold Halted
  rw [Session.fillValues_error]

theorem takesIn_ofArray (ignored : List UInt64) (elements : List Json)
    (rejected : List Rejected) :
    TakesIn (fates ignored elements)
      (Index.ofTrace ⟨(ofArray ignored elements).sessions, rejected⟩) := by
  induction elements using List.reverseRecOn with
  | nil => exact ⟨.nil, .nil, .nil⟩
  | append_singleton elements element ih =>
    rw [fates_concat]
    cases hdecode : Session.decode element with
    | error fault =>
      rw [ofArray_concat_error ignored elements hdecode, fate_of_error ignored _ hdecode]
      exact ih.concat_of_ne (by decide) (by decide) (by decide)
    | ok s =>
      rw [ofArray_concat_ok ignored elements hdecode, dropHalted_singleton]
      by_cases hhalt : Halted ignored s
      · rw [if_pos ((halted_fillValues ignored s).2 hhalt), List.append_nil,
          fate_of_halted _ hdecode hhalt]
        exact ih.concat_of_ne (by decide) (by decide) (by decide)
      · rw [if_neg (mt (halted_fillValues ignored s).1 hhalt), Index.ofTrace_concat]
        exact ih.add hdecode hhalt

theorem unparsed_ofArray (ignored : List UInt64) (elements : List Json) :
    List.Forall₂ (Reported (fates ignored elements))
      (withFate .unparsed (fates ignored elements)) (ofArray ignored elements).rejected := by
  induction elements using List.reverseRecOn with
  | nil => exact .nil
  | append_singleton elements element ih =>
    have hlength := congrArg List.length (map_fst_fates ignored elements)
    rw [List.length_map] at hlength
    rw [fates_concat]
    cases hdecode : Session.decode element with
    | error fault =>
      rw [ofArray_concat_error ignored elements hdecode, fate_of_error ignored _ hdecode,
        ← hlength]
      exact forall₂_withFate_concat ih (fun _ _ hr => hr.append _) (.unparsed hdecode)
    | ok s =>
      rw [ofArray_concat_ok ignored elements hdecode]
      refine forall₂_withFate_of_ne ih (fun _ _ hr => hr.append _) ?_
      unfold fate
      rw [hdecode]
      simp only
      split_ifs <;> decide

theorem accounts_ofArray (ignored : List UInt64) (elements : List Json) :
    Accounts (fates ignored elements) (Index.ofTrace (ofArray ignored elements)) where
  toTakesIn := takesIn_ofArray ignored elements _
  unparsed := by
    rw [Index.unparsed_ofTrace]
    exact unparsed_ofArray ignored elements

/-! ## Without elements that are not indexed -/

theorem fate_congr (ignored : List UInt64) {before before' : List (Json × Fate)}
    (h : before.filter (·.2 = .indexed) = before'.filter (·.2 = .indexed)) (element : Json) :
    fate ignored before element = fate ignored before' element := by
  have hold : ∀ l : List (Json × Fate), (∃ e ∈ l, e.2 = .indexed ∧ mach? e.1 = mach? element) ↔
      ∃ e ∈ l.filter (·.2 = .indexed), mach? e.1 = mach? element := by
    intro l
    simp only [List.mem_filter, decide_eq_true_iff, and_assoc]
  have hsame : (∃ e ∈ before, e.2 = .indexed ∧ mach? e.1 = mach? element) ↔
      ∃ e ∈ before', e.2 = .indexed ∧ mach? e.1 = mach? element := by
    rw [hold before, hold before', h]
  unfold fate
  simp only [hsame]

/-- The last element is either kept, or it is one that is not indexed. -/
theorem sublist_concat {placed kept : List (Json × Fate)} {e : Json × Fate}
    (hsub : kept.Sublist (placed ++ [e]))
    (hindexed : kept.filter (·.2 = .indexed) = (placed ++ [e]).filter (·.2 = .indexed)) :
    ∃ front : List (Json × Fate), front.Sublist placed ∧
      front.filter (·.2 = .indexed) = placed.filter (·.2 = .indexed) ∧
      (kept = front ++ [e] ∨ kept = front) := by
  obtain ⟨front, last, rfl, hfront, hlast⟩ := List.sublist_append_iff.1 hsub
  rw [List.filter_append, List.filter_append] at hindexed
  rcases List.sublist_singleton.1 hlast with rfl | rfl
  · rw [List.filter_nil, List.append_nil] at hindexed
    have hle := (hfront.filter (·.2 = .indexed)).length_le
    have hnone : [e].filter (·.2 = .indexed) = [] := by
      rw [← List.length_eq_zero_iff]
      have := congrArg List.length hindexed
      rw [List.length_append] at this
      omega
    rw [hnone, List.append_nil] at hindexed
    exact ⟨front, hfront, hindexed, Or.inr (List.append_nil front)⟩
  · exact ⟨front, hfront, List.append_cancel_right hindexed, Or.inl rfl⟩

/-- Without some elements that are not indexed, the others keep their fates. -/
theorem Decided.sublist {ignored : List UInt64} {placed kept : List (Json × Fate)}
    (h : Decided ignored placed) (hsub : kept.Sublist placed)
    (hindexed : kept.filter (·.2 = .indexed) = placed.filter (·.2 = .indexed)) :
    Decided ignored kept := by
  induction placed using List.reverseRecOn generalizing kept with
  | nil => rwa [List.sublist_nil.1 hsub]
  | append_singleton placed e ih =>
    obtain ⟨element, f⟩ := e
    obtain ⟨hfront, hlast⟩ := decided_concat.1 h
    obtain ⟨front, hfrontSub, hfrontIndexed, rfl | rfl⟩ := sublist_concat hsub hindexed
    · refine decided_concat.2 ⟨ih hfront hfrontSub hfrontIndexed, ?_⟩
      rwa [fate_congr ignored hfrontIndexed]
    · exact ih hfront hfrontSub hfrontIndexed

theorem enters_rightUnique : Relator.RightUnique Enters := by
  rintro element e e' ⟨s, hs, he⟩ ⟨s', hs', he'⟩
  obtain rfl := Except.ok.inj (hs.symm.trans hs')
  exact Entry.session_injective (he.trans he'.symm)

/-- The entries are those of the indexed elements, wherever the others stand. -/
theorem Accounts.forall₂_entries {placed : List (Json × Fate)} {x : Index}
    (h : Accounts placed x) :
    List.Forall₂ Enters ((placed.filter (·.2 = .indexed)).map Prod.fst) x.entries := by
  have hfilter : placed.filter (·.2 = .indexed) = (withFate .indexed placed).map Prod.fst := by
    have hmap := List.filter_map (p := fun e => decide (e.2 = Fate.indexed)) (f := Prod.fst)
      (l := placed.zipIdx)
    rwa [List.zipIdx_map_fst] at hmap
  rw [hfilter, List.map_map, List.forall₂_map_left_iff]
  exact h.entries

/-! ## The whole array -/

/-- The index of an array is settled by the fates of its elements. -/
structure Settled (ignored : List UInt64) (placed : List (Json × Fate)) (x : Index) : Prop
    extends Accounts placed x where
  count : x.unparsed.length + (withFate .dropped placed).length + x.malformed.length +
    x.duplicates.length + x.entries.length = placed.length
  /-- The index is the same without any of the elements that it does not have. -/
  inert : ∀ kept : List (Json × Fate), kept.Sublist placed →
    kept.filter (·.2 = .indexed) = placed.filter (·.2 = .indexed) →
      x.Unchanged (Index.ofTrace (ofArray ignored (kept.map Prod.fst)))

theorem settled_ofArray {ignored : List UInt64} {placed : List (Json × Fate)}
    (h : Decided ignored placed) :
    Settled ignored placed (Index.ofTrace (ofArray ignored (placed.map Prod.fst))) := by
  have haccounts : ∀ l : List (Json × Fate), Decided ignored l →
      Accounts l (Index.ofTrace (ofArray ignored (l.map Prod.fst))) := fun l hl => by
    have hl' := accounts_ofArray ignored (l.map Prod.fst)
    rwa [decided_iff.1 hl] at hl'
  refine
    { haccounts placed h with
      count := (haccounts placed h).count
      inert := fun kept hsub hindexed => ?_ }
  have hkept := (haccounts kept (h.sublist hsub hindexed)).forall₂_entries
  rw [hindexed] at hkept
  exact Index.unchanged_of_entries_eq <|
    List.right_unique_forall₂' enters_rightUnique (haccounts placed h).forall₂_entries hkept

/-- The elements of an array have one fate each, and these settle what the array is read as. -/
theorem load_settled (ignored : List UInt64) (elements : List Json) :
    (∃! placed : List (Json × Fate), placed.map Prod.fst = elements ∧ Decided ignored placed) ∧
      (∀ placed : List (Json × Fate), placed.map Prod.fst = elements → Decided ignored placed →
        Settled ignored placed (Index.ofTrace (ofArray ignored elements))) ∧
      ∀ bytes, Writes bytes elements → load ignored bytes = .ok (ofArray ignored elements) := by
  refine ⟨⟨fates ignored elements, ⟨map_fst_fates ignored elements, ?_⟩, ?_⟩, ?_, ?_⟩
  · rw [decided_iff, map_fst_fates]
  · rintro placed ⟨rfl, hplaced⟩
    exact (decided_iff.1 hplaced).symm
  · rintro placed rfl hplaced
    exact settled_ofArray hplaced
  · exact fun bytes h => h.load_eq ignored

/-- One element of each fate. The machine of the one that is dropped is free for the next. -/
def mixedElements : List Json :=
  [.obj [("id", .int 7)], .obj [("error", .str "HALT(2)"), ("id", .str "4(0:4)")],
    .obj [("id", .str "4(0)")], .obj [("id", .str "4(0:4)")], .obj [("id", .str "9(0:4)")]]

def mixedBytes : List UInt8 :=
  (Json.arr mixedElements).compact.toList.map fun c => UInt8.ofNat c.toNat

set_option maxRecDepth 4096 in
theorem load_settled_mixedElements :
    Writes mixedBytes mixedElements ∧
      (fates [2] mixedElements).map Prod.snd =
        [.unparsed, .dropped, .malformed, .indexed, .duplicate] ∧
      load [2] mixedBytes = .ok (ofArray [2] mixedElements) ∧
      Settled [2] (fates [2] mixedElements) (Index.ofTrace (ofArray [2] mixedElements)) := by
  have hwrites : Writes mixedBytes mixedElements := ⟨by decide +kernel, by rfl⟩
  obtain ⟨_, hsettled, hload⟩ := load_settled [2] mixedElements
  refine ⟨hwrites, by decide +kernel, hload _ hwrites, hsettled _ (map_fst_fates _ _) ?_⟩
  rw [decided_iff, map_fst_fates]

end Trace

end TraceExplorer
