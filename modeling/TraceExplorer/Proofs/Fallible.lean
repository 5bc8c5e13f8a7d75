/-
  Readings that can fail. A result that something was made of is a result (`exists_ok_of_map`). A
  list is read element by element: it gives the results of its elements if each has one
  (`mapM_map_eq_pure`), each of its results is that of an element (`exists_some_of_mem_mapM`,
  `exists_ok_of_mem_mapM`), and it fails just if one of them does (`mapM_eq_none_iff`).
-/

namespace TraceExplorer

theorem exists_ok_of_map {ε α β : Type} {r : Except ε α} {f : α → β} {b : β}
    (h : (r.map f).toOption = some b) : ∃ a, r = .ok a ∧ f a = b := by
  cases r with
  | error => cases h
  | ok a => exact ⟨a, rfl, Option.some.inj h⟩

theorem exists_ok_of_map_ok {ε α β : Type} {r : Except ε α} {f : α → β} {b : β}
    (h : r.map f = .ok b) : ∃ a, r = .ok a ∧ f a = b :=
  exists_ok_of_map (congrArg Except.toOption h)

/-! ## Lists, whatever the failure -/

section

variable {m : Type → Type} [Monad m] [LawfulMonad m] {α β γ : Type}

theorem mapM_congr {f g : α → m β} {l : List α} (h : ∀ a ∈ l, f a = g a) :
    l.mapM f = l.mapM g := by
  induction l with
  | nil => rfl
  | cons a l ih =>
    rw [List.mapM_cons, List.mapM_cons, h a List.mem_cons_self,
      ih fun a ha => h a (List.mem_cons_of_mem _ ha)]

theorem mapM_map_eq_pure {f : β → m γ} {g : α → β} {h : α → γ} {l : List α}
    (hl : ∀ a ∈ l, f (g a) = pure (h a)) : (l.map g).mapM f = pure (l.map h) := by
  have hpure : l.mapM (f ∘ g) = l.mapM fun a => pure (h a) := mapM_congr hl
  rw [List.mapM_map, hpure, List.mapM_pure]

end

/-! ## Lists that are read or not -/

section

variable {α β : Type} {l : List α} {r : List β} {b : β}

theorem mapM_eq_none_iff {f : α → Option β} : l.mapM f = none ↔ ∃ a ∈ l, f a = none := by
  induction l with
  | nil => simp
  | cons a l ih =>
    rw [List.mapM_cons]
    cases ha : f a with
    | none => simp [ha]
    | some y => cases hl : l.mapM f <;> simp [ha, hl, ← ih]

theorem exists_some_of_mem_mapM {f : α → Option β} (h : l.mapM f = some r) (hb : b ∈ r) :
    ∃ a ∈ l, f a = some b := by
  induction l generalizing r with
  | nil =>
    obtain rfl := Option.some.inj h
    cases hb
  | cons a l ih =>
    rw [List.mapM_cons] at h
    obtain ⟨first, hfirst, h⟩ := Option.bind_eq_some_iff.1 h
    obtain ⟨rest, hrest, h⟩ := Option.bind_eq_some_iff.1 h
    obtain rfl := Option.some.inj h
    rcases List.mem_cons.1 hb with rfl | hb
    · exact ⟨a, List.mem_cons_self, hfirst⟩
    · obtain ⟨a', ha', hf⟩ := ih hrest hb
      exact ⟨a', List.mem_cons_of_mem _ ha', hf⟩

theorem toOption_mapM {ε : Type} (f : α → Except ε β) (l : List α) :
    (l.mapM f).toOption = l.mapM fun a => (f a).toOption := by
  induction l with
  | nil => rfl
  | cons a l ih =>
    rw [List.mapM_cons, List.mapM_cons, ← ih]
    cases f a with
    | error fault => rfl
    | ok first => cases l.mapM f <;> rfl

theorem exists_ok_of_mem_mapM {ε : Type} {f : α → Except ε β} (h : l.mapM f = .ok r)
    (hb : b ∈ r) : ∃ a ∈ l, f a = .ok b := by
  have hsome : l.mapM (fun a => (f a).toOption) = some r := by
    rw [← toOption_mapM, h]
    rfl
  obtain ⟨a, ha, hf⟩ := exists_some_of_mem_mapM hsome hb
  cases hfirst : f a with
  | error fault =>
    rw [hfirst] at hf
    cases hf
  | ok first =>
    rw [hfirst] at hf
    exact ⟨a, ha, hfirst.trans (congrArg _ (Option.some.inj hf))⟩

end

end TraceExplorer
