import TraceExplorer.Text.Utf8

/-
  The bytes of a text are read back as the text, and lenient reading replaces nothing in them
  (`decode_bytes`). A character that takes several bytes is begun by `start`, and each byte
  behind adds six bits (`decodeFrom_next`, `decodeFrom_last`). Texts end in each other as their
  bytes do (`bytes_suffix_iff`).
-/

namespace TraceExplorer.Text.Utf8

@[simp] theorem bytes_nil : bytes [] = [] := rfl

@[simp] theorem bytes_cons (c : Char) (s : List Char) :
    bytes (c :: s) = String.utf8EncodeChar c ++ bytes s := rfl

@[simp] theorem bytes_append (s t : List Char) : bytes (s ++ t) = bytes s ++ bytes t :=
  List.flatMap_append

/-- A byte behind the first one of a character holds six of its bits. -/
def behind (n : Nat) : UInt8 := UInt8.ofNat (n % 64 + 0x80)

theorem toNat_ofNat {n : Nat} (h : n < 256) : (UInt8.ofNat n).toNat = n :=
  UInt8.toNat_ofNat_of_lt' h

theorem toNat_behind (n : Nat) : (behind n).toNat = n % 64 + 0x80 := toNat_ofNat (by omega)

section

variable {bits n missing : Nat} {first last : UInt8}

theorem behind_mem_range (hfirst : first.toNat ≤ n % 64 + 0x80)
    (hlast : n % 64 + 0x80 ≤ last.toNat) : first ≤ behind n ∧ behind n ≤ last := by
  rw [UInt8.le_iff_toNat_le, UInt8.le_iff_toNat_le, toNat_behind]
  exact ⟨hfirst, hlast⟩

/-- The last byte of a character. -/
theorem decodeFrom_last (rest : List UInt8) (hfirst : first.toNat ≤ n % 64 + 0x80)
    (hlast : n % 64 + 0x80 ≤ last.toNat) :
    decodeFrom (some ⟨bits, 1, first, last⟩) (behind n :: rest) =
      Char.ofNat (64 * bits + n % 64) :: decodeFrom none rest := by
  rw [decodeFrom, step, if_pos (behind_mem_range hfirst hlast), toNat_behind, Nat.add_sub_cancel]
  rfl

/-- A byte of a character before its last. -/
theorem decodeFrom_next (rest : List UInt8) (hfirst : first.toNat ≤ n % 64 + 0x80)
    (hlast : n % 64 + 0x80 ≤ last.toNat) (hmissing : missing ≠ 0) :
    decodeFrom (some ⟨bits, missing + 1, first, last⟩) (behind n :: rest) =
      decodeFrom (some ⟨64 * bits + n % 64, missing, 0x80, 0xBF⟩) rest := by
  have hmore : missing + 1 ≠ 1 := by omega
  rw [decodeFrom, step, if_pos (behind_mem_range hfirst hlast), toNat_behind, Nat.add_sub_cancel]
  simp only [hmore, if_false, List.nil_append, Nat.add_sub_cancel]

end

theorem decodeFrom_start {b : UInt8} {p : Pending} (rest : List UInt8)
    (h : start b = ([], some p)) :
    decodeFrom none (b :: rest) = decodeFrom (some p) rest := by
  rw [decodeFrom, step, h, List.nil_append]

/-- The first of two bytes. -/
theorem start_two {n : Nat} (h : 0xC2 ≤ n) (hle : n ≤ 0xDF) :
    start (UInt8.ofNat n) = ([], some ⟨n - 0xC0, 1, 0x80, 0xBF⟩) := by
  unfold start
  rw [toNat_ofNat (by omega)]
  simp only [show ¬n < 0x80 by omega, h, hle, and_self, if_true, if_false]

/-- The first of three bytes; after some the second one is in a smaller range. -/
theorem start_three {n : Nat} (h : 0xE0 ≤ n) (hle : n ≤ 0xEF) :
    start (UInt8.ofNat n) = ([], some ⟨n - 0xE0, 2, if n = 0xE0 then 0xA0 else 0x80,
      if n = 0xED then 0x9F else 0xBF⟩) := by
  unfold start
  rw [toNat_ofNat (by omega)]
  by_cases hlow : n = 0xE0
  · subst hlow
    rfl
  · by_cases hhigh : n = 0xED
    · subst hhigh
      rfl
    · simp only [show ¬n < 0x80 by omega, show ¬(0xC2 ≤ n ∧ n ≤ 0xDF) by omega, hlow, hhigh,
        show 0xE1 ≤ n ∧ n ≤ 0xEF by omega, and_self, if_true, if_false]

/-- The first of four bytes. -/
theorem start_four {n : Nat} (h : 0xF0 ≤ n) (hle : n ≤ 0xF4) :
    start (UInt8.ofNat n) = ([], some ⟨n - 0xF0, 3, if n = 0xF0 then 0x90 else 0x80,
      if n = 0xF4 then 0x8F else 0xBF⟩) := by
  obtain rfl | rfl | rfl | rfl | rfl :
      n = 0xF0 ∨ n = 0xF1 ∨ n = 0xF2 ∨ n = 0xF3 ∨ n = 0xF4 := by omega
  all_goals rfl

theorem decodeFrom_ascii {n : Nat} (h : n < 0x80) (rest : List UInt8) :
    decodeFrom none (UInt8.ofNat n :: rest) = Char.ofNat n :: decodeFrom none rest := by
  rw [decodeFrom, step, start, toNat_ofNat (by omega)]
  simp only [h, if_true, List.singleton_append]

theorem decodeFrom_two {n : Nat} (h : 0x80 ≤ n) (hle : n ≤ 0x7FF) (rest : List UInt8) :
    decodeFrom none (UInt8.ofNat (n / 64 % 32 + 0xC0) :: behind n :: rest) =
      Char.ofNat n :: decodeFrom none rest := by
  have hbits : 64 * (n / 64 % 32 + 0xC0 - 0xC0) + n % 64 = n := by omega
  have hlast : n % 64 + 0x80 ≤ (0xBF : UInt8).toNat := by
    show n % 64 + 0x80 ≤ 0xBF
    omega
  rw [decodeFrom_start _ (start_two (by omega) (by omega)),
    decodeFrom_last _ (Nat.le_add_left _ _) hlast, hbits]

theorem decodeFrom_three {n : Nat} (h : 0x800 ≤ n) (hle : n ≤ 0xFFFF)
    (hvalid : n < 0xD800 ∨ 0xDFFF < n) (rest : List UInt8) :
    decodeFrom none (UInt8.ofNat (n / 4096 % 16 + 0xE0) :: behind (n / 64) :: behind n :: rest) =
      Char.ofNat n :: decodeFrom none rest := by
  have hbits : 64 * (64 * (n / 4096 % 16 + 0xE0 - 0xE0) + n / 64 % 64) + n % 64 = n := by omega
  have hlast : n % 64 + 0x80 ≤ (0xBF : UInt8).toNat := by
    show n % 64 + 0x80 ≤ 0xBF
    omega
  rw [decodeFrom_start _ (start_three (by omega) (by omega)), decodeFrom_next _ ?_ ?_ (by omega),
    decodeFrom_last _ (Nat.le_add_left _ _) hlast, hbits]
  · split
    · show 0xA0 ≤ n / 64 % 64 + 0x80
      omega
    · exact Nat.le_add_left _ _
  · split
    · show n / 64 % 64 + 0x80 ≤ 0x9F
      omega
    · show n / 64 % 64 + 0x80 ≤ 0xBF
      omega

theorem decodeFrom_four {n : Nat} (h : 0x10000 ≤ n) (hlt : n < 0x110000) (rest : List UInt8) :
    decodeFrom none (UInt8.ofNat (n / 262144 % 8 + 0xF0) :: behind (n / 4096) ::
      behind (n / 64) :: behind n :: rest) = Char.ofNat n :: decodeFrom none rest := by
  have hbits : 64 * (64 * (64 * (n / 262144 % 8 + 0xF0 - 0xF0) + n / 4096 % 64) + n / 64 % 64) +
      n % 64 = n := by omega
  have hlast : ∀ m, m % 64 + 0x80 ≤ (0xBF : UInt8).toNat := by
    intro m
    show m % 64 + 0x80 ≤ 0xBF
    omega
  rw [decodeFrom_start _ (start_four (by omega) (by omega)), decodeFrom_next _ ?_ ?_ (by omega),
    decodeFrom_next _ (Nat.le_add_left _ _) (hlast _) (by omega),
    decodeFrom_last _ (Nat.le_add_left _ _) (hlast _), hbits]
  · split
    · show 0x90 ≤ n / 4096 % 64 + 0x80
      omega
    · exact Nat.le_add_left _ _
  · split
    · show n / 4096 % 64 + 0x80 ≤ 0x8F
      omega
    · exact hlast _

/-! ## The bytes of a character -/

theorem utf8EncodeChar_eq (c : Char) : String.utf8EncodeChar c =
    if c.toNat ≤ 0x7F then [UInt8.ofNat c.toNat]
    else if c.toNat ≤ 0x7FF then [UInt8.ofNat (c.toNat / 64 % 32 + 0xC0), behind c.toNat]
    else if c.toNat ≤ 0xFFFF then
      [UInt8.ofNat (c.toNat / 4096 % 16 + 0xE0), behind (c.toNat / 64), behind c.toNat]
    else [UInt8.ofNat (c.toNat / 262144 % 8 + 0xF0), behind (c.toNat / 4096),
      behind (c.toNat / 64), behind c.toNat] := rfl

theorem utf8EncodeChar_of_lt {c : Char} (h : c.toNat < 128) :
    String.utf8EncodeChar c = [UInt8.ofNat c.toNat] := by
  rw [utf8EncodeChar_eq, if_pos (by omega)]

theorem le_toNat_of_mem_utf8EncodeChar {c : Char} (h : 128 ≤ c.toNat) {x : UInt8}
    (hx : x ∈ String.utf8EncodeChar c) : 128 ≤ x.toNat := by
  have hfirst : ∀ n, 128 ≤ n → n < 256 → 128 ≤ (UInt8.ofNat n).toNat := fun n hn hlt => by
    rwa [toNat_ofNat hlt]
  have hbehind : ∀ n, 128 ≤ (behind n).toNat := fun n => hfirst _ (by omega) (by omega)
  rw [utf8EncodeChar_eq, if_neg (by omega)] at hx
  split at hx
  · simp only [List.mem_cons, List.not_mem_nil, or_false] at hx
    rcases hx with rfl | rfl
    · exact hfirst _ (by omega) (by omega)
    · exact hbehind _
  · split at hx
    all_goals
      simp only [List.mem_cons, List.not_mem_nil, or_false] at hx
      rcases hx with rfl | hx
    · exact hfirst _ (by omega) (by omega)
    · rcases hx with rfl | rfl <;> exact hbehind _
    · exact hfirst _ (by omega) (by omega)
    · rcases hx with rfl | rfl | rfl <;> exact hbehind _

/-- One byte starts a character, and none of those behind it does. -/
theorem exists_utf8EncodeChar_eq_cons (c : Char) : ∃ x l, String.utf8EncodeChar c = x :: l ∧
    x.IsUTF8FirstByte ∧ ∀ y ∈ l, ¬y.IsUTF8FirstByte := by
  obtain ⟨x, l, h⟩ := List.exists_cons_of_ne_nil (String.utf8EncodeChar_ne_nil (c := c))
  have hget : ∀ i (hi : i < (x :: l).length), ((x :: l)[i]).IsUTF8FirstByte ↔ i = 0 := by
    rw [← h]
    exact fun i hi => UInt8.isUTF8FirstByte_getElem_utf8EncodeChar
  refine ⟨x, l, h, (hget 0 (by simp)).2 rfl, fun y hy hfirst => ?_⟩
  obtain ⟨i, hi, rfl⟩ := List.getElem_of_mem hy
  have := (hget (i + 1) (by simpa using hi)).1 hfirst
  omega

theorem decodeFrom_utf8EncodeChar (c : Char) (rest : List UInt8) :
    decodeFrom none (String.utf8EncodeChar c ++ rest) = c :: decodeFrom none rest := by
  have hvalid : c.toNat < 0xD800 ∨ 0xDFFF < c.toNat ∧ c.toNat < 0x110000 := c.valid
  have hchar : Char.ofNat c.toNat = c := Char.ofNat_toNat c
  rw [utf8EncodeChar_eq]
  split
  · rw [List.singleton_append, decodeFrom_ascii (by omega), hchar]
  · split
    · exact (decodeFrom_two (by omega) (by omega) rest).trans (by rw [hchar])
    · split
      · exact (decodeFrom_three (by omega) (by omega) (by omega) rest).trans (by rw [hchar])
      · exact (decodeFrom_four (by omega) (by omega) rest).trans (by rw [hchar])

theorem decodeFrom_bytes (s : List Char) (rest : List UInt8) :
    decodeFrom none (bytes s ++ rest) = s ++ decodeFrom none rest := by
  induction s with
  | nil => rfl
  | cons c s ih =>
    rw [bytes_cons, List.append_assoc, decodeFrom_utf8EncodeChar, ih, List.cons_append]

theorem decode_bytes (s : List Char) : decode (bytes s) = String.ofList s := by
  have h := decodeFrom_bytes s []
  rw [List.append_nil] at h
  rw [decode, h]
  exact congrArg String.ofList (List.append_nil s)

/-! ## Texts and their bytes -/

theorem bytes_injective : Function.Injective bytes := by
  intro s t h
  have hdecode := congrArg decode h
  rwa [decode_bytes, decode_bytes, String.ofList_inj] at hdecode

theorem isUTF8FirstByte_of_bytes {s : List Char} {x : UInt8} {b : List UInt8}
    (h : bytes s = x :: b) : x.IsUTF8FirstByte := by
  cases s with
  | nil => cases h
  | cons c s =>
    obtain ⟨y, l, hc, hfirst, _⟩ := exists_utf8EncodeChar_eq_cons c
    rw [bytes_cons, hc, List.cons_append] at h
    rwa [← (List.cons.inj h).1]

/-- No character starts behind the first byte of another one, so a text ends in another one just
if its bytes end in those of the other. -/
theorem bytes_suffix_iff {s t : List Char} : bytes s <:+ bytes t ↔ s <:+ t := by
  constructor
  · intro h
    induction t with
    | nil =>
      obtain rfl : s = [] := bytes_injective (List.suffix_nil.1 h)
      exact List.suffix_refl _
    | cons c t ih =>
      obtain ⟨x, l, hc, _, hbehind⟩ := exists_utf8EncodeChar_eq_cons c
      rw [bytes_cons, hc, List.cons_append, List.suffix_cons_iff] at h
      obtain hwhole | ⟨front, hfront⟩ := h
      · obtain rfl : s = c :: t := by
          refine bytes_injective ?_
          rw [hwhole, bytes_cons, hc, List.cons_append]
        exact List.suffix_refl _
      · obtain ⟨inside, hl, hs⟩ | ⟨more, _, ht⟩ := List.append_eq_append_iff.1 hfront
        · cases inside with
          | nil => exact (ih ⟨[], hs⟩).trans (List.suffix_cons c t)
          | cons y inside =>
            -- The bytes of `s` would start behind the first one of `c`.
            have hy : y ∈ l := by rw [hl]; simp
            exact absurd (isUTF8FirstByte_of_bytes hs) (hbehind y hy)
        · exact (ih ⟨more, ht.symm⟩).trans (List.suffix_cons c t)
  · rintro ⟨front, rfl⟩
    rw [bytes_append]
    exact List.suffix_append _ _

end TraceExplorer.Text.Utf8
