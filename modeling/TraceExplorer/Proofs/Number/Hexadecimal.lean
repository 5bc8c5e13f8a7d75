import TraceExplorer.Proofs.Number.Decimal

/-
  Words in hexadecimal. `WritesHex` says of a text that it is a word in hexadecimal, in letters of
  either case and with any zeros in front, and each of these texts is read as the word
  (`WritesHex.word_eq`).
-/

namespace TraceExplorer.Number

/-- The text is the word in hexadecimal: the digits of its value in letters of either case, with
or without zeros in front. -/
def WritesHex (ds : List Char) (n : UInt64) : Prop :=
  ∃ zeros, ds.map Char.toLower = List.replicate zeros '0' ++ Nat.toDigits 16 n.toNat

variable {ds : List Char} {n : UInt64} {c : Char}

/-! ## Digits -/

theorem hexDigit?_digitChar {d : Nat} (h : d < 16) : hexDigit? d.digitChar = some d := by
  have hall : ∀ d : Fin 16, hexDigit? d.1.digitChar = some d.1 := by decide
  exact hall ⟨d, h⟩

/-- What holds of each character of a range holds of a character in it. -/
theorem of_mem_range {P : Char → Prop} {first n : Nat}
    (h : ∀ i : Fin n, P (Char.ofNat (first + i))) (hfirst : first ≤ c.toNat)
    (hlast : c.toNat < first + n) : P c := by
  have hc := h ⟨c.toNat - first, by omega⟩
  rwa [show first + (c.toNat - first) = c.toNat by omega, Char.ofNat_toNat] at hc

/-- The case of a letter does not matter. -/
theorem hexDigit?_toLower (c : Char) : hexDigit? c.toLower = hexDigit? c := by
  by_cases hupper : 'A'.toNat ≤ c.toNat ∧ c.toNat ≤ 'Z'.toNat
  · obtain ⟨hlow, hhigh⟩ : 65 ≤ c.toNat ∧ c.toNat ≤ 90 := hupper
    have hall : ∀ i : Fin 26, hexDigit? (Char.ofNat (65 + i)).toLower =
        hexDigit? (Char.ofNat (65 + i)) := by decide
    apply of_mem_range hall hlow
    omega
  · unfold Char.toLower
    rw [dif_neg]
    exact hupper

theorem isAlphanum_of_hexDigit? {v : Nat} (h : hexDigit? c = some v) : c.isAlphanum = true := by
  have hdigit : ∀ i : Fin 10, (Char.ofNat (48 + i)).isAlphanum = true := by decide
  have hlower : ∀ i : Fin 6, (Char.ofNat (97 + i)).isAlphanum = true := by decide
  have hupper : ∀ i : Fin 6, (Char.ofNat (65 + i)).isAlphanum = true := by decide
  unfold hexDigit? at h
  split at h
  · rename_i hc
    obtain ⟨hlow, hhigh⟩ : 48 ≤ c.toNat ∧ c.toNat ≤ 57 := hc
    apply of_mem_range hdigit hlow
    omega
  · split at h
    · rename_i hc
      obtain ⟨hlow, hhigh⟩ : 97 ≤ c.toNat ∧ c.toNat ≤ 102 := hc
      apply of_mem_range hlower hlow
      omega
    · split at h
      · rename_i hc
        obtain ⟨hlow, hhigh⟩ : 65 ≤ c.toNat ∧ c.toNat ≤ 70 := hc
        apply of_mem_range hupper hlow
        omega
      · cases h

/-! ## Numbers -/

/-- The value of a number that goes on with the digits. -/
def hexFrom? (v : Nat) (ds : List Char) : Option Nat :=
  ds.foldlM (fun v c => (hexDigit? c).map (16 * v + ·)) v

theorem hexDigits?_eq (h : ds ≠ []) : hexDigits? ds = hexFrom? 0 ds :=
  if_neg (by simpa using h)

theorem hexFrom?_append (v : Nat) (ds es : List Char) :
    hexFrom? v (ds ++ es) = (hexFrom? v ds).bind fun w => hexFrom? w es :=
  List.foldlM_append

theorem hexFrom?_digitChar (v : Nat) {d : Nat} (h : d < 16) :
    hexFrom? v [d.digitChar] = some (16 * v + d) := by
  unfold hexFrom?
  rw [List.foldlM_cons, hexDigit?_digitChar h]
  rfl

theorem hexFrom?_zeros (zeros : Nat) : hexFrom? 0 (List.replicate zeros '0') = some 0 := by
  induction zeros with
  | zero => rfl
  | succ zeros ih =>
    rw [List.replicate_succ, ← List.singleton_append, hexFrom?_append]
    exact ih

theorem hexFrom?_toDigits (v : Nat) : hexFrom? 0 (Nat.toDigits 16 v) = some v := by
  induction v using Nat.strongRecOn with
  | ind v ih =>
    by_cases hlt : v < 16
    · rw [Nat.toDigits_of_lt_base hlt, hexFrom?_digitChar 0 hlt, Nat.mul_zero, Nat.zero_add]
    · have hmod : v % 16 < 16 := Nat.mod_lt v (by omega)
      rw [Nat.toDigits_of_base_le (by omega) (by omega), hexFrom?_append, ih (v / 16) (by omega),
        Option.bind_some, hexFrom?_digitChar _ hmod, Nat.div_add_mod]

theorem map_toLower_toDigits (v : Nat) :
    (Nat.toDigits 16 v).map Char.toLower = Nat.toDigits 16 v := by
  have hdigit : ∀ d : Fin 16, d.1.digitChar.toLower = d.1.digitChar := by decide
  induction v using Nat.strongRecOn with
  | ind v ih =>
    by_cases hlt : v < 16
    · rw [Nat.toDigits_of_lt_base hlt, List.map_singleton, hdigit ⟨v, hlt⟩]
    · have hmod : v % 16 < 16 := Nat.mod_lt v (by omega)
      rw [Nat.toDigits_of_base_le (by omega) (by omega), List.map_append, ih (v / 16) (by omega),
        List.map_singleton, hdigit ⟨v % 16, hmod⟩]

theorem hexFrom?_toLower (v : Nat) (ds : List Char) :
    hexFrom? v (ds.map Char.toLower) = hexFrom? v ds := by
  unfold hexFrom?
  rw [List.foldlM_map]
  simp only [hexDigit?_toLower]

theorem isAlphanum_of_hexFrom? {v w : Nat} (h : hexFrom? v ds = some w) :
    ∀ d ∈ ds, d.isAlphanum = true := by
  induction ds generalizing v with
  | nil => nofun
  | cons d ds ih =>
    rw [← List.singleton_append, hexFrom?_append] at h
    obtain ⟨u, hu, h⟩ := Option.bind_eq_some_iff.1 h
    refine List.forall_mem_cons.2 ⟨?_, ih h⟩
    cases hd : hexDigit? d with
    | some value => exact isAlphanum_of_hexDigit? hd
    | none =>
      unfold hexFrom? at hu
      rw [List.foldlM_cons, hd] at hu
      cases hu

theorem writesHex_toDigits (n : UInt64) : WritesHex (Nat.toDigits 16 n.toNat) n :=
  ⟨0, map_toLower_toDigits n.toNat⟩

namespace WritesHex

theorem hexFrom?_eq (h : WritesHex ds n) : hexFrom? 0 ds = some n.toNat := by
  obtain ⟨zeros, hds⟩ := h
  rw [← hexFrom?_toLower, hds, hexFrom?_append, hexFrom?_zeros, Option.bind_some,
    hexFrom?_toDigits]

theorem ne_nil (h : WritesHex ds n) : ds ≠ [] := by
  rintro rfl
  obtain ⟨zeros, hds⟩ := h
  exact Nat.toDigits_ne_nil (List.append_eq_nil_iff.1 hds.symm).2

theorem isAlphanum (h : WritesHex ds n) : ∀ d ∈ ds, d.isAlphanum = true :=
  isAlphanum_of_hexFrom? h.hexFrom?_eq

/-- A text that writes a word is read as it. -/
theorem word_eq (h : WritesHex ds n) : (hexDigits? ds).bind word64? = some n := by
  rw [hexDigits?_eq h.ne_nil, h.hexFrom?_eq, Option.bind_some, word64?_eq_some_iff]

end WritesHex

end TraceExplorer.Number
