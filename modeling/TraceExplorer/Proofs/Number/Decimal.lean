import TraceExplorer.Number.Unsigned

/-
  Words in decimal. `Writes` says of a text that it is a word in decimal, however many zeros stand
  in front, and the reader takes just these texts (`wordDigits?_eq_some_iff`). Without the zeros
  in front (`trimZeros`) each word has one text left (`trimZeros_digits`), and a text has nothing
  to lose just if no zero in it leads a number (`trimZeros_eq_self_iff`).
-/

namespace TraceExplorer.Number

/-- The text is the word in decimal, with or without zeros in front. -/
structure Writes (ds : List Char) (n : UInt64) : Prop where
  ne_nil : ds ≠ []
  digits : ∀ d ∈ ds, d.isDigit = true
  value : Nat.ofDigitChars 10 ds 0 = n.toNat

variable {ds s : List Char} {n : UInt64}

theorem digits?_eq_some_iff {v : Nat} : digits? ds = some v ↔
    ds ≠ [] ∧ (∀ d ∈ ds, d.isDigit = true) ∧ Nat.ofDigitChars 10 ds 0 = v := by
  unfold digits?
  by_cases hne : ds = []
  · simp [hne]
  · simp [hne]

theorem word64?_eq_some_iff {v : Nat} : word64? v = some n ↔ v = n.toNat := by
  unfold word64?
  by_cases hlt : v < UInt64.size
  · rw [if_pos hlt, Option.some.injEq, ← UInt64.toNat_inj, UInt64.toNat_ofNat_of_lt' hlt]
  · rw [if_neg hlt]
    have := n.toNat_lt_size
    constructor
    · nofun
    · omega

/-- The reader takes the texts that write a word, and no others. -/
theorem wordDigits?_eq_some_iff : wordDigits? ds = some n ↔ Writes ds n := by
  unfold wordDigits?
  rw [Option.bind_eq_some_iff]
  constructor
  · rintro ⟨v, hv, hn⟩
    obtain ⟨hne, hdigits, rfl⟩ := digits?_eq_some_iff.1 hv
    exact ⟨hne, hdigits, word64?_eq_some_iff.1 hn⟩
  · intro h
    exact ⟨n.toNat, digits?_eq_some_iff.2 ⟨h.ne_nil, h.digits, h.value⟩,
      word64?_eq_some_iff.2 rfl⟩

/-! ## Zeros in front -/

/-- The text without the zeros in front of its numbers; `inside` says that a digit stands before
the text. A zero goes if a digit stands behind it and none that stays before it. -/
def trimZeros (inside : Bool) : List Char → List Char
  | [] => []
  | c :: s =>
    if inside = false ∧ c = '0' ∧ s.head?.any Char.isDigit then trimZeros false s
    else c :: trimZeros c.isDigit s

/-- A zero leads a number: a digit stands behind it and none before it. -/
def LeadingZero (inside : Bool) (s : List Char) : Prop :=
  ∃ before d after, s = before ++ '0' :: d :: after ∧ d.isDigit = true ∧
    (before.getLast?.map Char.isDigit).getD inside = false

theorem leadingZero_cons {inside : Bool} {c : Char} : LeadingZero inside (c :: s) ↔
    (inside = false ∧ c = '0' ∧ s.head?.any Char.isDigit = true) ∨ LeadingZero c.isDigit s := by
  constructor
  · rintro ⟨before, d, after, hs, hd, hbefore⟩
    cases before with
    | nil =>
      obtain ⟨rfl, rfl⟩ := List.cons.inj hs
      exact .inl ⟨hbefore, rfl, hd⟩
    | cons b before =>
      obtain ⟨rfl, rfl⟩ := List.cons.inj hs
      refine .inr ⟨before, d, after, rfl, hd, ?_⟩
      rw [← hbefore, List.getLast?_cons]
      cases before.getLast? <;> rfl
  · rintro (⟨hinside, rfl, hhead⟩ | ⟨before, d, after, rfl, hd, hbefore⟩)
    · cases s with
      | nil => cases hhead
      | cons d after => exact ⟨[], d, after, rfl, hhead, hinside⟩
    · refine ⟨c :: before, d, after, rfl, hd, ?_⟩
      rw [← hbefore, List.getLast?_cons]
      cases before.getLast? <;> rfl

theorem length_trimZeros_le (inside : Bool) (s : List Char) :
    (trimZeros inside s).length ≤ s.length := by
  induction s generalizing inside with
  | nil => exact Nat.le_refl _
  | cons c s ih =>
    unfold trimZeros
    split
    · exact Nat.le_succ_of_le (ih false)
    · exact Nat.succ_le_succ (ih c.isDigit)

/-- A text loses nothing just if no zero in it leads a number. -/
theorem trimZeros_eq_self_iff {inside : Bool} :
    trimZeros inside s = s ↔ ¬ LeadingZero inside s := by
  induction s generalizing inside with
  | nil =>
    refine iff_of_true rfl ?_
    rintro ⟨before, d, after, hs, _⟩
    cases before <;> cases hs
  | cons c s ih =>
    rw [leadingZero_cons]
    unfold trimZeros
    split
    · rename_i hzero
      refine iff_of_false (fun heq => ?_) (not_not_intro (.inl hzero))
      have hlength := length_trimZeros_le false s
      rw [heq, List.length_cons] at hlength
      omega
    · rename_i hzero
      rw [List.cons.injEq, ih]
      simp [hzero]

/-- Behind a digit no digit goes. -/
theorem trimZeros_true_append (hdigits : ∀ d ∈ ds, d.isDigit = true) :
    trimZeros true (ds ++ s) = ds ++ trimZeros true s := by
  induction ds with
  | nil => rfl
  | cons d ds ih =>
    obtain ⟨hd, hds⟩ := List.forall_mem_cons.1 hdigits
    rw [List.cons_append, trimZeros, if_neg fun h => Bool.noConfusion h.1, hd, ih hds]
    rfl

theorem toDigits_digit {d : Char} (h : d.isDigit = true) :
    d.toNat - '0'.toNat < 10 ∧ Nat.toDigits 10 (d.toNat - '0'.toNat) = [d] := by
  obtain ⟨hlow, hhigh⟩ : 48 ≤ d.toNat ∧ d.toNat ≤ 57 := by
    simpa [Char.isDigit, UInt32.le_iff_toNat_le] using h
  have hzero : '0'.toNat = 48 := rfl
  have hlt : d.toNat - '0'.toNat < 10 := by omega
  refine ⟨hlt, ?_⟩
  rw [Nat.toDigits_of_lt_base hlt, List.cons.injEq]
  refine ⟨Char.toNat_inj.1 ?_, rfl⟩
  rw [Nat.toNat_digitChar_of_lt_ten hlt]
  omega

/-- Digits behind a number that is not zero are its last digits. -/
theorem toDigits_append_digits {v : Nat} (hv : 0 < v) (hdigits : ∀ d ∈ ds, d.isDigit = true) :
    Nat.toDigits 10 v ++ ds = Nat.toDigits 10 (Nat.ofDigitChars 10 ds v) := by
  induction ds generalizing v with
  | nil => rw [List.append_nil, Nat.ofDigitChars_nil]
  | cons d ds ih =>
    obtain ⟨hd, hds⟩ := List.forall_mem_cons.1 hdigits
    obtain ⟨hlt, hdigit⟩ := toDigits_digit hd
    have hstep := Nat.toDigits_append_toDigits (by omega : 1 < 10) hv hlt
    calc
      Nat.toDigits 10 v ++ d :: ds = (Nat.toDigits 10 v ++ [d]) ++ ds := by simp
      _ = Nat.toDigits 10 (10 * v + (d.toNat - '0'.toNat)) ++ ds := by rw [← hdigit, hstep]
      _ = Nat.toDigits 10 (Nat.ofDigitChars 10 (d :: ds) v) := by
        rw [ih (by omega) hds, Nat.ofDigitChars_cons]

/-- Of the digits at the front of a text those of their value stay. -/
theorem trimZeros_digits (hne : ds ≠ []) (hdigits : ∀ d ∈ ds, d.isDigit = true)
    (hs : s.head?.any Char.isDigit = false) :
    trimZeros false (ds ++ s) =
      Nat.toDigits 10 (Nat.ofDigitChars 10 ds 0) ++ trimZeros true s := by
  induction ds with
  | nil => exact absurd rfl hne
  | cons d ds ih =>
    obtain ⟨hd, hds⟩ := List.forall_mem_cons.1 hdigits
    rw [List.cons_append, trimZeros, Nat.ofDigitChars_cons, Nat.mul_zero, Nat.zero_add]
    by_cases hzero : d = '0'
    · subst hzero
      cases ds with
      | nil =>
        -- The zero is the whole number.
        rw [List.nil_append, if_neg fun h => by rw [hs] at h; exact absurd h.2.2 (by decide)]
        rfl
      | cons d ds =>
        rw [if_pos ⟨rfl, rfl, hds d List.mem_cons_self⟩, ih (List.cons_ne_nil d ds) hds]
        rfl
    · obtain ⟨hlt, hdigit⟩ := toDigits_digit hd
      have hpos : 0 < d.toNat - '0'.toNat := by
        refine Nat.pos_of_ne_zero fun h0 => hzero ?_
        rw [h0] at hdigit
        exact (List.cons.inj hdigit).1.symm
      rw [if_neg fun h => hzero h.2.1, hd, trimZeros_true_append hds, ← List.cons_append,
        ← toDigits_append_digits hpos hds, hdigit, List.singleton_append]

end TraceExplorer.Number
