import TraceExplorer.Proofs.MachineId
import TraceExplorer.Proofs.Number.Decimal
import TraceExplorer.Text.Utf8
import TraceExplorer.Trace.Load

/-
  Halt codes in the errors of sessions. `Reports` says that an error has a halt code anywhere in
  it, and `ReportsFirst` that the first halt group of the error is the code. Loading goes by the
  first group (`dropHalted_eq_filter_first`), so it never drops a session that reports no ignored
  code, and it keeps a session that reports one just if another group stands in front that is
  none (`dropHalted_eq_iff`).
-/

namespace TraceExplorer.Trace

open CharClass (isDecimalDigit)

/-! ## Halt groups -/

/-- What a halt group starts with. -/
def haltOpening : List Char := ['H', 'A', 'L', 'T', '(']

/-- Behind `before` the text has a halt group with the digits `ds`, of any script. -/
def HaltAt (s before ds : List Char) : Prop :=
  (∃ after, s = before ++ (haltOpening ++ (ds ++ ')' :: after))) ∧
    ds ≠ [] ∧ ∀ d ∈ ds, isDecimalDigit d = true

/-- The first halt group of the text. -/
def FirstHalt (s before ds : List Char) : Prop :=
  HaltAt s before ds ∧ ∀ before' ds', HaltAt s before' ds' → before.length ≤ before'.length

/-- The error has the halt code anywhere in it. -/
def Reports (error : String) (code : UInt64) : Prop :=
  ∃ before ds after, error.toList = before ++ (haltOpening ++ (ds ++ ')' :: after)) ∧
    Number.Writes ds code

/-- The first halt group of the error has the code. -/
def ReportsFirst (error : String) (code : UInt64) : Prop :=
  ∃ before ds, FirstHalt error.toList before ds ∧ Number.Writes ds code

variable {s before ds : List Char} {c d : Char} {error : String} {code : UInt64}
variable {ignored more : List UInt64}

theorem haltAt_of_writes {after : List Char} (h : Number.Writes ds code) :
    HaltAt (before ++ (haltOpening ++ (ds ++ ')' :: after))) before ds :=
  ⟨⟨after, rfl⟩, h.ne_nil, fun d hd => CharClass.isDecimalDigit_of_isDigit (h.digits d hd)⟩

theorem reports_iff : Reports error code ↔
    ∃ before ds, HaltAt error.toList before ds ∧ Number.Writes ds code := by
  constructor
  · rintro ⟨before, ds, after, herror, hds⟩
    rw [herror]
    exact ⟨before, ds, haltAt_of_writes hds, hds⟩
  · rintro ⟨before, ds, ⟨⟨after, herror⟩, _, _⟩, hds⟩
    exact ⟨before, ds, after, herror, hds⟩

theorem ReportsFirst.reports (h : ReportsFirst error code) : Reports error code := by
  obtain ⟨before, ds, hfirst, hds⟩ := h
  exact reports_iff.2 ⟨before, ds, hfirst.1, hds⟩

theorem haltAt_cons : HaltAt (c :: s) (d :: before) ds ↔ c = d ∧ HaltAt s before ds := by
  unfold HaltAt
  simp only [List.cons_append, List.cons.injEq, exists_and_left, and_assoc]

theorem not_haltAt_nil : ¬ HaltAt [] before ds := by
  rintro ⟨⟨after, hs⟩, _⟩
  cases before <;> cases hs

/-- The digits read at the front are those of a halt group that stands there. -/
theorem haltDigits?_eq_some_iff : haltDigits? s = some ds ↔ HaltAt s [] ds := by
  constructor
  · intro h
    unfold haltDigits? at h
    split at h
    · rename_i s
      simp only at h
      split at h
      · rename_i after hdrop
        split at h
        · cases h
        · rename_i hne
          obtain rfl := Option.some.inj h
          refine ⟨⟨after, ?_⟩, by simpa using hne, List.all_eq_true.1 List.all_takeWhile⟩
          rw [← hdrop, List.takeWhile_append_dropWhile]
          rfl
      · cases h
    · cases h
  · rintro ⟨⟨after, rfl⟩, hne, hdigits⟩
    have hclose : ∀ d ∈ (')' :: after).head?, isDecimalDigit d = false := fun d hd => by
      rw [← Option.some.inj hd]
      decide
    have hfull : ds.isEmpty = false := by simpa using hne
    unfold haltDigits? haltOpening
    simp only [List.nil_append, List.cons_append, Text.takeWhile_run hdigits hclose,
      Text.dropWhile_run hdigits hclose, hfull, Bool.false_eq_true, if_false]

theorem firstHalt_cons (hnone : ∀ ds, ¬ HaltAt (c :: s) [] ds) :
    FirstHalt (c :: s) (d :: before) ds ↔ c = d ∧ FirstHalt s before ds := by
  unfold FirstHalt
  rw [haltAt_cons, and_assoc]
  refine and_congr_right fun hcd => and_congr_right fun _ => ?_
  constructor
  · intro h before' ds' hat
    exact Nat.le_of_succ_le_succ (h (d :: before') ds' (haltAt_cons.2 ⟨hcd, hat⟩))
  · intro h before' ds' hat
    cases before' with
    | nil => exact absurd hat (hnone ds')
    | cons e before' => exact Nat.succ_le_succ (h before' ds' (haltAt_cons.1 hat).2)

theorem firstHalt?_eq_some_iff : firstHalt? s = some ds ↔ ∃ before, FirstHalt s before ds := by
  induction s with
  | nil => exact iff_of_false nofun fun ⟨_, hfirst⟩ => not_haltAt_nil hfirst.1
  | cons c s ih =>
    unfold firstHalt?
    cases hhere : haltDigits? (c :: s) with
    | some here =>
      have hat := haltDigits?_eq_some_iff.1 hhere
      constructor
      · intro h
        obtain rfl := Option.some.inj h
        exact ⟨[], hat, fun _ _ _ => Nat.zero_le _⟩
      · rintro ⟨before, hds, hfirst⟩
        obtain rfl := List.eq_nil_of_length_eq_zero (Nat.le_zero.1 (hfirst [] here hat))
        rw [← haltDigits?_eq_some_iff.2 hds, hhere]
    | none =>
      have hnone : ∀ ds, ¬ HaltAt (c :: s) [] ds := by
        intro ds hat
        rw [haltDigits?_eq_some_iff.2 hat] at hhere
        cases hhere
      rw [ih]
      constructor
      · rintro ⟨before, hfirst⟩
        exact ⟨c :: before, (firstHalt_cons hnone).2 ⟨rfl, hfirst⟩⟩
      · rintro ⟨before, hfirst⟩
        cases before with
        | nil => exact absurd hfirst.1 (hnone ds)
        | cons d before => exact ⟨before, ((firstHalt_cons hnone).1 hfirst).2⟩

theorem not_haltAt_of_firstHalt?_eq_none (h : firstHalt? s = none) : ¬ HaltAt s before ds := by
  induction s generalizing before with
  | nil => exact not_haltAt_nil
  | cons c s ih =>
    unfold firstHalt? at h
    split at h
    · cases h
    · rename_i hhere
      intro hat
      cases before with
      | nil =>
        rw [haltDigits?_eq_some_iff.2 hat] at hhere
        cases hhere
      | cons d before => exact ih h (haltAt_cons.1 hat).2

theorem HaltAt.exists_first (h : HaltAt s before ds) : ∃ before ds, FirstHalt s before ds := by
  cases hfirst : firstHalt? s with
  | none => exact absurd h (not_haltAt_of_firstHalt?_eq_none hfirst)
  | some first =>
    obtain ⟨before, hfirst⟩ := firstHalt?_eq_some_iff.1 hfirst
    exact ⟨before, first, hfirst⟩

theorem FirstHalt.unique {before' ds' : List Char} (h : FirstHalt s before ds)
    (h' : FirstHalt s before' ds') : ds = ds' := by
  have hds := firstHalt?_eq_some_iff.2 ⟨before, h⟩
  rw [firstHalt?_eq_some_iff.2 ⟨before', h'⟩] at hds
  exact (Option.some.inj hds).symm

/-- The code that is looked at is that of the first halt group. -/
theorem haltCode?_eq_some_iff : haltCode? error = some code ↔ ReportsFirst error code := by
  unfold haltCode? ReportsFirst
  rw [Option.bind_eq_some_iff]
  simp only [firstHalt?_eq_some_iff, Number.wordDigits?_eq_some_iff]
  exact ⟨fun ⟨ds, ⟨before, hfirst⟩, hds⟩ => ⟨before, ds, hfirst, hds⟩,
    fun ⟨before, ds, hfirst, hds⟩ => ⟨ds, ⟨before, hfirst⟩, hds⟩⟩

/-- The codes of the halt groups of a text. -/
def haltCodes : List Char → List UInt64
  | [] => []
  | c :: s => ((haltDigits? (c :: s)).bind Number.wordDigits?).toList ++ haltCodes s

theorem mem_haltCodes : code ∈ haltCodes s ↔
    ∃ before ds, HaltAt s before ds ∧ Number.Writes ds code := by
  induction s with
  | nil => exact iff_of_false nofun fun ⟨_, _, hat, _⟩ => not_haltAt_nil hat
  | cons c s ih =>
    rw [haltCodes, List.mem_append, Option.mem_toList, Option.bind_eq_some_iff, ih]
    simp only [haltDigits?_eq_some_iff, Number.wordDigits?_eq_some_iff]
    constructor
    · rintro (⟨ds, hat, hds⟩ | ⟨before, ds, hat, hds⟩)
      · exact ⟨[], ds, hat, hds⟩
      · exact ⟨c :: before, ds, haltAt_cons.2 ⟨rfl, hat⟩, hds⟩
    · rintro ⟨before, ds, hat, hds⟩
      cases before with
      | nil => exact .inl ⟨ds, hat, hds⟩
      | cons d before => exact .inr ⟨before, ds, (haltAt_cons.1 hat).2, hds⟩

instance (error : String) (code : UInt64) : Decidable (Reports error code) :=
  decidable_of_iff (code ∈ haltCodes error.toList) (mem_haltCodes.trans reports_iff.symm)

instance (error : String) (code : UInt64) : Decidable (ReportsFirst error code) :=
  decidable_of_iff (haltCode? error = some code) haltCode?_eq_some_iff

/-! ## Ignored codes -/

/-- The error has an ignored halt code in it. -/
def Ignores (ignored : List UInt64) (error : String) : Prop := ∃ code ∈ ignored, Reports error code

/-- The first halt group of the error is an ignored code. -/
def IgnoresFirst (ignored : List UInt64) (error : String) : Prop :=
  ∃ code ∈ ignored, ReportsFirst error code

instance (error : String) : Decidable (Ignores ignored error) :=
  inferInstanceAs (Decidable (∃ code ∈ ignored, _))

instance (error : String) : Decidable (IgnoresFirst ignored error) :=
  inferInstanceAs (Decidable (∃ code ∈ ignored, _))

/-- The sessions whose error has no ignored halt code in it. -/
def withoutHalted (ignored : List UInt64) (sessions : List Session) : List Session :=
  sessions.filter fun s => ¬ Ignores ignored s.error

/-- The error has an ignored halt code in it, but its first halt group is none of them. -/
def Masked (ignored : List UInt64) (error : String) : Prop :=
  Ignores ignored error ∧ ∃ before ds, FirstHalt error.toList before ds ∧
    ∀ code ∈ ignored, ¬ Number.Writes ds code

theorem IgnoresFirst.ignores (h : IgnoresFirst ignored error) : Ignores ignored error := by
  obtain ⟨code, hcode, hfirst⟩ := h
  exact ⟨code, hcode, hfirst.reports⟩

theorem masked_iff :
    Masked ignored error ↔ Ignores ignored error ∧ ¬ IgnoresFirst ignored error := by
  refine and_congr_right fun hhalted => ?_
  constructor
  · rintro ⟨before, ds, hfirst, hnone⟩ ⟨code, hcode, before', ds', hfirst', hds'⟩
    obtain rfl := hfirst.unique hfirst'
    exact hnone code hcode hds'
  · intro hnot
    obtain ⟨code, _, hreports⟩ := hhalted
    obtain ⟨_, _, hat, _⟩ := reports_iff.1 hreports
    obtain ⟨before, ds, hfirst⟩ := hat.exists_first
    exact ⟨before, ds, hfirst, fun code hcode hds => hnot ⟨code, hcode, before, ds, hfirst, hds⟩⟩

theorem ignoresFirst_append :
    IgnoresFirst (ignored ++ more) error ↔
      IgnoresFirst ignored error ∨ IgnoresFirst more error := by
  unfold IgnoresFirst
  simp only [List.mem_append, or_and_right, exists_or]

variable {sessions : List Session}

theorem dropHalted_eq_filter_first (ignored : List UInt64) (sessions : List Session) :
    dropHalted ignored sessions = sessions.filter fun s => ¬ IgnoresFirst ignored s.error := by
  unfold dropHalted
  refine List.filter_congr fun s _ => ?_
  have hfirst : IgnoresFirst ignored s.error ↔
      ∃ code ∈ ignored, haltCode? s.error = some code := by
    simp only [IgnoresFirst, haltCode?_eq_some_iff]
  simp only [hfirst]
  cases haltCode? s.error <;> simp

theorem mem_dropHalted {s : Session} :
    s ∈ dropHalted ignored sessions ↔ s ∈ sessions ∧ ¬ IgnoresFirst ignored s.error := by
  rw [dropHalted_eq_filter_first, List.mem_filter, decide_eq_true_eq]

theorem withoutHalted_eq (ignored : List UInt64) (sessions : List Session) :
    withoutHalted ignored sessions =
      (dropHalted ignored sessions).filter fun s => ¬ Ignores ignored s.error := by
  rw [dropHalted_eq_filter_first, List.filter_filter]
  refine List.filter_congr fun s _ => ?_
  by_cases hhalted : Ignores ignored s.error
  · simp [hhalted]
  · have hfirst : ¬ IgnoresFirst ignored s.error := fun h => hhalted h.ignores
    simp [hhalted, hfirst]

/-- No session is kept against the rule just if in no error an ignored code is masked. -/
theorem dropHalted_eq_iff : dropHalted ignored sessions = withoutHalted ignored sessions ↔
    ∀ s ∈ sessions, ¬ Masked ignored s.error := by
  rw [withoutHalted_eq, eq_comm, List.filter_eq_self]
  simp only [mem_dropHalted, decide_eq_true_eq, masked_iff, and_imp, not_and,
    Decidable.not_not]
  exact forall_congr' fun s => forall_congr' fun _ => Decidable.not_imp_not

theorem dropHalted_append (ignored more : List UInt64) (sessions : List Session) :
    dropHalted (ignored ++ more) sessions = dropHalted more (dropHalted ignored sessions) := by
  rw [dropHalted_eq_filter_first, dropHalted_eq_filter_first, dropHalted_eq_filter_first,
    List.filter_filter]
  refine List.filter_congr fun s _ => ?_
  simp only [ignoresFirst_append]
  by_cases hignored : IgnoresFirst ignored s.error <;> simp [hignored]

theorem dropHalted_congr (h : ∀ code, code ∈ ignored ↔ code ∈ more) (sessions : List Session) :
    dropHalted ignored sessions = dropHalted more sessions := by
  rw [dropHalted_eq_filter_first, dropHalted_eq_filter_first]
  refine List.filter_congr fun s _ => decide_eq_decide.2 (not_congr ?_)
  unfold IgnoresFirst
  simp only [h]

/-- What loading drops when the codes of the list are ignored. -/
structure DropsFirst (ignored : List UInt64) : Prop where
  /-- Loading drops the sessions whose error has an ignored code as its first halt group, and
  keeps the others in order. -/
  load : ∀ bytes, load ignored bytes = (ofBytes bytes).map fun t =>
    { t with sessions := t.sessions.filter fun s => ¬ IgnoresFirst ignored s.error }
  drops : ∀ sessions,
    dropHalted ignored sessions = sessions.filter fun s => ¬ IgnoresFirst ignored s.error
  /-- All that is dropped has an ignored code in its error. -/
  keeps : ∀ sessions, (withoutHalted ignored sessions).Sublist (dropHalted ignored sessions)
  /-- A session with an ignored code in its error is kept just if another group masks the code. -/
  eq_iff : ∀ sessions, dropHalted ignored sessions = withoutHalted ignored sessions ↔
    ∀ s ∈ sessions, ¬ Masked ignored s.error
  /-- Only the set of the codes matters. -/
  congr : ∀ other, (∀ code, code ∈ ignored ↔ code ∈ other) →
    ∀ sessions, dropHalted ignored sessions = dropHalted other sessions
  union : ∀ more sessions,
    dropHalted (ignored ++ more) sessions = dropHalted more (dropHalted ignored sessions)
  none : ∀ sessions, dropHalted [] sessions = sessions

/-- Loading drops the sessions that halted with an ignored code, by their first halt group. -/
theorem dropsFirst (ignored : List UInt64) : DropsFirst ignored where
  load bytes := by
    unfold Trace.load
    simp only [dropHalted_eq_filter_first]
  drops := dropHalted_eq_filter_first ignored
  keeps sessions := by
    rw [withoutHalted_eq]
    exact List.filter_sublist
  eq_iff _ := dropHalted_eq_iff
  congr _ := dropHalted_congr
  union := dropHalted_append ignored
  none sessions := by
    rw [dropHalted_eq_filter_first]
    simp [IgnoresFirst]

/-- A session that ends with an error that has two halt codes in it. -/
def haltedTwice : List UInt8 :=
  Text.Utf8.bytes "1(0:1) # 0 === End @0x1 err=\"HALT(1) HALT(2)\"\n".toList

/-- Loading keeps the session although the second of its codes is ignored. -/
theorem not_dropped_haltedTwice :
    ((load [2] haltedTwice).map fun t => t.sessions.map (·.error)).toOption =
      some ["HALT(1) HALT(2)"] ∧ Ignores [2] "HALT(1) HALT(2)" := by
  decide +kernel

end TraceExplorer.Trace
