import TraceExplorer.Proofs.Address.Forms
import TraceExplorer.Proofs.Explorer.Selection

/-
  Logs of one session in either form. An address leads to a log just if the run of its session can
  be entered and the session is in view there (`navigate_eq_log_iff`), and it is in view with both
  its logs or with none (`view_raw`). A run is entered once (`enter_again`).
-/

namespace TraceExplorer.Explorer

variable {x y : Explorer} {id s : String} {a : Address} {signals : List Signal} {shown : String}
  {path : List PathStep} {log : NodeLog}

theorem exists_log_iff (raw : Bool) :
    (∃ log, x.log id raw = .ok log) ↔ ∃ chain, x.index.chain id = .ok chain := by
  unfold Explorer.log rawLog normalizedLog RawLog.assemble NormalizedLog.assemble
  cases x.index.chain id with
  | ok chain => cases raw <;> exact ⟨fun _ => ⟨_, rfl⟩, fun _ => ⟨_, rfl⟩⟩
  | error fault =>
    cases raw <;> exact ⟨fun ⟨_, h⟩ => (nomatch h), fun ⟨_, h⟩ => nomatch h⟩

/-- A session has a log in both forms or in none, with the same path. -/
theorem view_raw (h : x.view a = .ok (.log shown path log)) (raw : Bool) :
    ∃ log', x.log a.id raw = .ok log' ∧
      x.view ⟨a.id, raw⟩ = .ok (.log (Address.text ⟨a.id, raw⟩) path log') := by
  obtain ⟨steps, found, hpath, hlog, heq⟩ := view_eq_ok_iff.1 h
  obtain ⟨rfl, rfl, rfl⟩ := Navigation.log.inj heq
  obtain ⟨log', hlog'⟩ := (exists_log_iff raw).2 ((exists_log_iff a.raw).1 ⟨_, hlog⟩)
  exact ⟨log', hlog', view_eq_ok_iff.2 ⟨_, _, hpath, hlog', rfl⟩⟩

/-- The run of an identifier is entered once, or there is none and the explorer stays as it is. -/
theorem enter_again {reason : Option String} (h : x.enter id = (y, signals, reason)) :
    reason = none ∧ y.enter id = (y, [], none) ∨ reason.isSome ∧ y = x := by
  unfold enter at h ⊢
  cases hread : MachineId.read? id.toList with
  | none =>
    simp only [hread] at h
    obtain ⟨rfl, _, rfl⟩ := h
    exact .inl ⟨rfl, rfl⟩
  | some mid =>
    simp only [hread] at h
    by_cases hsame : x.activeMach = some mid.root
    · rw [if_pos hsame] at h
      obtain ⟨rfl, _, rfl⟩ := h
      exact .inl ⟨rfl, if_pos hsame⟩
    · rw [if_neg hsame] at h
      have hselects := x.selects mid.root
      generalize x.selectRoot mid.root = r at h hselects
      cases hselects with
      | @selected root run hroot hmach hrun =>
        obtain ⟨rfl, _, rfl⟩ := h
        rw [Run.select?_eq hroot] at hrun
        obtain rfl := Option.some.inj hrun
        exact .inl ⟨rfl, if_pos (congrArg some hmach)⟩
      | unknown =>
        obtain ⟨rfl, _, rfl⟩ := h
        exact .inr ⟨rfl, rfl⟩

theorem visit_eq_log_iff : x.visit a = (signals, .log shown path log) ↔
    x.view a = .ok (.log shown path log) ∧ signals = [.nodeSelected a.id a.raw] := by
  unfold visit
  cases x.view a with
  | error fault => simp [clear]
  | ok navigation => simp [and_comm, eq_comm]

/-- An address is visited in its run, or what there is to say is why there is none. -/
theorem navigate_of_enter {entered : List Signal} {reason : Option String}
    (h : Address.parse s = .ok (some a)) (henter : x.enter a.id = (y, entered, reason)) :
    x.navigate s = (y, entered ++ (reason.elim (y.visit a) y.clear).1,
      (reason.elim (y.visit a) y.clear).2) := by
  unfold navigate
  simp only [h, henter]
  cases reason <;> rfl

/-- An address leads to a log just if its run can be entered and shows the log. -/
theorem navigate_eq_log_iff : x.navigate s = (y, signals, .log shown path log) ↔
    ∃ a entered, Address.parse s = .ok (some a) ∧ x.enter a.id = (y, entered, none) ∧
      y.view a = .ok (.log shown path log) ∧ signals = entered ++ [.nodeSelected a.id a.raw] := by
  constructor
  · intro hnav
    obtain ⟨a, hparse⟩ : ∃ a, Address.parse s = .ok (some a) := by
      unfold navigate at hnav
      split at hnav
      · cases hnav
      · cases hnav
      · exact ⟨_, ‹_›⟩
    obtain ⟨⟨z, entered, reason⟩, henter⟩ : ∃ r, x.enter a.id = r := ⟨_, rfl⟩
    rw [navigate_of_enter hparse henter] at hnav
    cases reason with
    | some reason => cases hnav
    | none =>
      obtain ⟨⟨more, navigation⟩, hvisit⟩ : ∃ r, z.visit a = r := ⟨_, rfl⟩
      rw [Option.elim_none, hvisit] at hnav
      cases hnav
      obtain ⟨hview, rfl⟩ := visit_eq_log_iff.1 hvisit
      exact ⟨a, entered, hparse, henter, hview, rfl⟩
  · rintro ⟨a, entered, hparse, henter, hview, rfl⟩
    rw [navigate_of_enter hparse henter, Option.elim_none, visit_eq_log_iff.2 ⟨hview, rfl⟩]

theorem raw_of_rootAddress (h : Address.parse x.rootAddress = .ok (some a)) : a.raw = false := by
  unfold rootAddress at h
  cases hactive : x.active with
  | none =>
    rw [hactive] at h
    cases h
  | some run =>
    have hread := Address.parse_text (a := .node run.root.id) run.root.decoded
    rw [hactive, Option.elim_some, hread] at h
    rw [← Option.some.inj (Except.ok.inj h)]
    rfl

theorem navigate_congr {t : String} (h : Address.parse s = Address.parse t) :
    x.navigate s = x.navigate t := by
  unfold navigate
  rw [h]

end TraceExplorer.Explorer
