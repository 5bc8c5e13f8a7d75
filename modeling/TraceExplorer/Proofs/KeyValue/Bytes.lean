import TraceExplorer.KeyValue.Offsets
import TraceExplorer.Proofs.Text.Utf8

/-
  Bytes of a text and the characters that they stand for. A mark is ASCII and takes one byte; no
  byte of any other character is a mark (`Encodes`). `At` says that a character starts at an
  offset, and what the text is from there on.
-/

namespace TraceExplorer.KeyValue

/-! ## Marks are ASCII -/

variable {c : Char}

theorem lt_of_isSpace (h : isSpace c = true) : c.toNat < 128 := by
  have h : (c = ' ' ∨ c = '\t') ∨ c = '\n' := by simpa [isSpace] using h
  rcases h with (rfl | rfl) | rfl <;> decide

theorem lt_of_isQuote (h : isQuote c = true) : c.toNat < 128 := by
  have h : c = '"' ∨ c = '\'' := by simpa [isQuote] using h
  rcases h with rfl | rfl <;> decide

theorem isSpace_of_le (h : 128 ≤ c.toNat) : isSpace c = false := by
  cases hc : isSpace c with
  | true => exact absurd (lt_of_isSpace hc) (by omega)
  | false => rfl

theorem isQuote_of_le (h : 128 ≤ c.toNat) : isQuote c = false := by
  cases hc : isQuote c with
  | true => exact absurd (lt_of_isQuote hc) (by omega)
  | false => rfl

theorem Depth.after_of_le (h : 128 ≤ c.toNat) (d : Depth) : d.after c = d := by
  unfold after
  split
  case h_7 => rfl
  all_goals exact absurd h (by decide)

namespace Offsets

open Text.Utf8

variable {b l r : List UInt8} {x q : UInt8} {i : Nat} {m : Char} {s t : List Char}

/-! ## Characters and their bytes -/

theorem toNat_char (x : UInt8) : (char x).toNat = x.toNat := by
  have h : x.toNat.isValidChar := .inl (by have := x.toNat_lt; omega)
  rw [char, Char.ofNat, dif_pos h]
  rfl

theorem char_inj {x y : UInt8} : char x = char y ↔ x = y := by
  refine ⟨fun h => UInt8.toNat_inj.1 ?_, congrArg char⟩
  rw [← toNat_char, h, toNat_char]

/-- No scan tells the two characters apart. -/
def Alike (c c' : Char) : Prop := c = c' ∨ 128 ≤ c.toNat ∧ 128 ≤ c'.toNat

namespace Alike

variable {c' : Char}

theorem eq_iff (h : Alike c c') (hm : m.toNat < 128) : c = m ↔ c' = m := by
  obtain rfl | ⟨hc, hc'⟩ := h
  · rfl
  · constructor <;> (rintro rfl; omega)

theorem isSpace_eq (h : Alike c c') : isSpace c = isSpace c' := by
  obtain rfl | ⟨hc, hc'⟩ := h
  · rfl
  · rw [isSpace_of_le hc, isSpace_of_le hc']

theorem isQuote_eq (h : Alike c c') : isQuote c = isQuote c' := by
  obtain rfl | ⟨hc, hc'⟩ := h
  · rfl
  · rw [isQuote_of_le hc, isQuote_of_le hc']

theorem after_eq (h : Alike c c') (d : Depth) : d.after c = d.after c' := by
  obtain rfl | ⟨hc, hc'⟩ := h
  · rfl
  · rw [d.after_of_le hc, d.after_of_le hc']

end Alike

/-- The bytes of a character: the first, and those behind it. -/
structure Encodes (c : Char) (x : UInt8) (l : List UInt8) : Prop where
  eq : String.utf8EncodeChar c = x :: l
  alike : ∀ y ∈ x :: l, Alike (char y) c
  nil_iff : l = [] ↔ c.toNat < 128
  first : x.IsUTF8FirstByte
  behind : ∀ y ∈ l, ¬y.IsUTF8FirstByte

theorem alike_of_mem_utf8EncodeChar (hx : x ∈ String.utf8EncodeChar c) : Alike (char x) c := by
  by_cases hc : c.toNat < 128
  · rw [utf8EncodeChar_of_lt hc, List.mem_singleton] at hx
    refine .inl ?_
    rw [hx, char, toNat_ofNat (by omega), Char.ofNat_toNat]
  · have hwide : 128 ≤ c.toNat := by omega
    refine .inr ⟨?_, hwide⟩
    rw [toNat_char]
    exact le_toNat_of_mem_utf8EncodeChar hwide hx

theorem exists_encodes (c : Char) : ∃ x l, Encodes c x l := by
  obtain ⟨x, l, heq, hfirst, hbehind⟩ := exists_utf8EncodeChar_eq_cons c
  refine ⟨x, l, heq, ?_, ?_, hfirst, hbehind⟩
  · rw [← heq]
    exact fun y => alike_of_mem_utf8EncodeChar
  · constructor
    · rintro rfl
      have hsize : c.utf8Size = 1 := by rw [← String.length_utf8EncodeChar, heq]; rfl
      exact Nat.lt_succ_of_le (Char.utf8Size_eq_one_iff.1 hsize)
    · intro hc
      rw [utf8EncodeChar_of_lt hc] at heq
      exact (List.cons.inj heq).2.symm

theorem Encodes.wide (h : Encodes c x l) {y : UInt8} (hy : y ∈ l) : 128 ≤ (char y).toNat := by
  obtain heq | ⟨hwide, _⟩ := h.alike y (List.mem_cons_of_mem x hy)
  · rw [heq]
    refine Nat.le_of_not_lt fun hc => ?_
    rw [h.nil_iff.2 hc] at hy
    cases hy
  · exact hwide

/-! ## Offsets of a text -/

theorem exists_getElem (h : b.drop i = x :: r) : ∃ hi : i < b.length, b[i] = x := by
  have hi : i < b.length := by
    refine Nat.lt_of_not_le fun hle => ?_
    rw [List.drop_eq_nil_of_le hle] at h
    cases h
  refine ⟨hi, ?_⟩
  rw [List.drop_eq_getElem_cons hi] at h
  exact (List.cons.inj h).1

theorem drop_add (h : b.drop i = l ++ r) : b.drop (i + l.length) = r := by
  rw [← List.drop_drop, h, List.drop_left]

theorem drop_succ (h : b.drop i = x :: r) : b.drop (i + 1) = r := drop_add (l := [x]) h

/-- What changes at none of the bytes does not change over all of them. -/
theorem skip {α : Type} {f : Nat → α} {P : UInt8 → Prop}
    (hf : ∀ j y r, b.drop j = y :: r → P y → f j = f (j + 1)) (h : b.drop i = l ++ r)
    (hl : ∀ y ∈ l, P y) : f i = f (i + l.length) := by
  induction l generalizing i with
  | nil => rfl
  | cons x l ih =>
    rw [hf i x _ h (hl x List.mem_cons_self),
      ih (drop_succ h) fun y hy => hl y (List.mem_cons_of_mem x hy), List.length_cons,
      Nat.add_assoc, Nat.add_comm 1]

theorem length_bytes_cons (h : c.toNat < 128) (s : List Char) :
    (bytes (c :: s)).length = (bytes s).length + 1 := by
  rw [bytes_cons, utf8EncodeChar_of_lt h]
  rfl

/-- A character starts at the offset or the text ends there, and this is the text from it on. -/
structure At (b : List UInt8) (i : Nat) (s : List Char) : Prop where
  le : i ≤ b.length
  drop : b.drop i = bytes s

namespace At

theorem zero (s : List Char) : At (bytes s) 0 s := ⟨Nat.zero_le _, rfl⟩

theorem length_eq (h : At b i s) : b.length = i + (bytes s).length := by
  have := congrArg List.length h.drop
  rw [List.length_drop] at this
  have := h.le
  omega

theorem append (h : At b i (s ++ t)) : At b (i + (bytes s).length) t where
  le := by
    have := h.length_eq
    rw [bytes_append, List.length_append] at this
    omega
  drop := drop_add (by rw [h.drop, bytes_append])

theorem exists_bytes (h : At b i (c :: s)) :
    ∃ x l, Encodes c x l ∧ b.drop i = x :: (l ++ bytes s) := by
  obtain ⟨x, l, hc⟩ := exists_encodes c
  exact ⟨x, l, hc, by rw [h.drop, bytes_cons, hc.eq, List.cons_append]⟩

theorem lt (h : At b i (c :: s)) : i < b.length := by
  obtain ⟨x, l, _, hdrop⟩ := h.exists_bytes
  exact (exists_getElem hdrop).1

/-- A mark takes one byte. -/
theorem exists_mark (h : At b i (c :: s)) (hc : c.toNat < 128) :
    (∃ hi : i < b.length, char b[i] = c) ∧ At b (i + 1) s := by
  obtain ⟨x, l, henc, hdrop⟩ := h.exists_bytes
  obtain ⟨hi, rfl⟩ := exists_getElem hdrop
  have hchar : char b[i] = c :=
    ((henc.alike _ List.mem_cons_self).eq_iff hc).2 rfl
  have hnext : At b (i + (bytes [c]).length) s := append (s := [c]) h
  rw [length_bytes_cons hc] at hnext
  exact ⟨⟨hi, hchar⟩, hnext⟩

theorem isBoundary_eq (h : At b i s) : isBoundary b i = true := by
  unfold isBoundary
  cases s with
  | nil =>
    have hi : i = b.length := h.length_eq.symm
    rw [List.getElem?_eq_none (by omega)]
    simp [hi]
  | cons c s =>
    obtain ⟨x, l, hc, hdrop⟩ := h.exists_bytes
    obtain ⟨hi, rfl⟩ := exists_getElem hdrop
    rw [List.getElem?_eq_getElem hi]
    exact decide_eq_true hc.first

theorem range_eq (h : At b i (s ++ t)) :
    range? b i (i + (bytes s).length) = some (bytes s) := by
  unfold range?
  rw [if_pos ⟨Nat.le_add_right _ _, h.append.le⟩, Nat.add_sub_cancel_left, h.drop, bytes_append,
    List.take_left]

theorem slice_eq (h : At b i (s ++ t)) :
    slice? b i (i + (bytes s).length) = some (String.ofList s) := by
  unfold slice?
  rw [if_pos ⟨h.isBoundary_eq, h.append.isBoundary_eq⟩, h.range_eq, Option.map_some, decode_bytes]

end At

end TraceExplorer.KeyValue.Offsets
