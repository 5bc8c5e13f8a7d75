import TraceExplorer.Run.Outcome
import TraceExplorer.Proofs.Dict
import Mathlib.Data.List.Induction

/-
  The buckets of sessions. A bucket has the sessions of its name in their order
  (`ids_ofSessions`); no error has the name of the bucket of values, so the goals are the
  sessions that ended with values and without an error (`mem_goals`).
-/

namespace TraceExplorer

namespace Outcome

theorem ofSession_eq_values_iff {s : Session} :
    ofSession s = .values ↔ s.error = "" ∧ s.values ≠ "" := by
  unfold ofSession
  by_cases herror : s.error = ""
  · by_cases hvalues : s.values = "" <;> simp [herror, hvalues]
  · simp [herror]

theorem isGoal_eq (s : Session) : s.isGoal = decide (ofSession s = .values) := by
  rw [Bool.eq_iff_iff, decide_eq_true_eq, ofSession_eq_values_iff]
  simp [Session.isGoal]

/-- No two outcomes have one bucket: an error has neither the name of values nor that of unknown
outcomes, and two errors have two names. -/
theorem bucketName_injective : Function.Injective bucketName := by
  have hfirst : ∀ message, (err message).bucketName.toList.head? = some 'e' := by simp [bucketName]
  intro a b h
  cases a with
  | values =>
    cases b with
    | values => rfl
    | err message => exact absurd (hfirst message) (by rw [← h]; decide)
    | unknown => exact absurd h (by decide)
  | err message =>
    cases b with
    | values => exact absurd (hfirst message) (by rw [h]; decide)
    | err other =>
      have hlist := congrArg String.toList h
      rw [bucketName, bucketName, String.toList_append, String.toList_append,
        List.append_cancel_left_eq, String.toList_inj] at hlist
      rw [hlist]
    | unknown => exact absurd (hfirst message) (by rw [h]; decide)
  | unknown =>
    cases b with
    | values => exact absurd h (by decide)
    | err message => exact absurd (hfirst message) (by rw [← h]; decide)
    | unknown => rfl

/-- Only values are in the bucket of values. -/
theorem bucketName_eq_values_iff {o : Outcome} :
    o.bucketName = values.bucketName ↔ o = .values := bucketName_injective.eq_iff

end Outcome

namespace Buckets

theorem ids_add (b : Buckets) (s : Session) (name : String) :
    (b.add s).ids name =
      b.ids name ++ if (Outcome.ofSession s).bucketName = name then [s.id] else [] := by
  unfold ids add
  rw [Dict.get?_insert]
  by_cases h : name = (Outcome.ofSession s).bucketName
  · rw [if_pos h, if_pos h.symm, h]
    rfl
  · rw [if_neg h, if_neg (Ne.symm h), List.append_nil]

theorem ids_ofSessions (sessions : List Session) (name : String) :
    (ofSessions sessions).ids name =
      (sessions.filter fun s => (Outcome.ofSession s).bucketName = name).map (·.id) := by
  induction sessions using List.reverseRecOn with
  | nil => rfl
  | append_singleton sessions s ih =>
    unfold ofSessions at ih ⊢
    rw [List.foldl_append, List.foldl_cons, List.foldl_nil, ids_add, ih, List.filter_append,
      List.map_append]
    by_cases h : (Outcome.ofSession s).bucketName = name <;> simp [h]

/-- There is a bucket for each outcome of the sessions. -/
theorem isSome_get?_ofSessions (sessions : List Session) (name : String) :
    ((ofSessions sessions).get? name).isSome = true ↔
      ∃ s ∈ sessions, (Outcome.ofSession s).bucketName = name := by
  induction sessions using List.reverseRecOn with
  | nil => simp [ofSessions, Dict.get?, Dict.empty, Dict.find]
  | append_singleton sessions s ih =>
    unfold ofSessions at ih ⊢
    rw [List.foldl_append, List.foldl_cons, List.foldl_nil, add, Dict.get?_insert]
    by_cases h : name = (Outcome.ofSession s).bucketName
    · simp [h]
    · rw [if_neg h, ih]
      simp [Ne.symm h, or_and_right, exists_or]

theorem mem_goals {sessions : List Session} {id : String} :
    id ∈ (ofSessions sessions).goals ↔
      ∃ s ∈ sessions, s.id = id ∧ s.error = "" ∧ s.values ≠ "" := by
  unfold goals
  rw [ids_ofSessions, List.mem_map]
  refine exists_congr fun s => ?_
  rw [List.mem_filter, decide_eq_true_eq, Outcome.bucketName_eq_values_iff,
    Outcome.ofSession_eq_values_iff, and_assoc, and_comm (b := s.id = id)]

end Buckets

end TraceExplorer
