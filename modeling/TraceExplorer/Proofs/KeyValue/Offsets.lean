import TraceExplorer.Proofs.KeyValue.Bytes
import TraceExplorer.Proofs.KeyValue.Extent

/-
  The scans by offsets find what the scans by characters find. Where a scan by characters stands
  before a text, the scan by offsets stands at an offset of it (`At`); over the bytes of a
  character that is no mark it goes one by one, unless a backslash stands before the character
  and it starts at the second of them. Only behind a closing quote can the scan for elements
  come to stand inside a character (`At.elementsFrom_inside`).
-/

namespace TraceExplorer.KeyValue.Offsets

open Text.Utf8

variable {b l r : List UInt8} {x q : UInt8} {i : Nat} {c : Char} {s body rest : List Char}
  {d : Depth} {p : Char → Bool}

/-! ## Blanks, keys and quoted texts -/

theorem seek_of_drop (p : Char → Bool) (h : b.drop i = x :: r) :
    seek p b i = if p (char x) then i else seek p b (i + 1) := by
  obtain ⟨hi, rfl⟩ := exists_getElem h
  rw [seek, dif_pos hi]

theorem seek_of_le (h : b.length ≤ i) : seek p b i = i := by
  rw [seek, dif_neg (Nat.not_lt.2 h)]

theorem seek_skip (h : b.drop i = l ++ r) (hl : ∀ y ∈ l, p (char y) = false) :
    seek p b i = seek p b (i + l.length) := by
  refine skip (fun j y _ hdrop hy => ?_) h hl
  rw [seek_of_drop p hdrop, hy, if_neg Bool.false_ne_true]

/-- A search passes over the characters that are not sought. -/
theorem At.exists_seek (hp : ∀ c c', Alike c c' → p c = p c') (h : At b i s) :
    ∃ w t, s = w ++ t ∧ (∀ c ∈ w, p c = false) ∧ (t = [] ∨ ∃ c t', t = c :: t' ∧ p c = true) ∧
      seek p b i = i + (bytes w).length := by
  induction s generalizing i with
  | nil =>
    have hend : b.length = i := h.length_eq
    exact ⟨[], [], rfl, by simp, .inl rfl, seek_of_le (by omega)⟩
  | cons c s ih =>
    cases hc : p c with
    | true =>
      obtain ⟨x, l, henc, hdrop⟩ := h.exists_bytes
      refine ⟨[], c :: s, rfl, by simp, .inr ⟨c, s, rfl, hc⟩, ?_⟩
      rw [seek_of_drop p hdrop, hp _ _ (henc.alike x List.mem_cons_self), hc, if_pos rfl]
      rfl
    | false =>
      have hskip : ∀ y ∈ String.utf8EncodeChar c, p (char y) = false := fun y hy => by
        rw [hp _ _ (alike_of_mem_utf8EncodeChar hy), hc]
      have hrest : At b (i + (String.utf8EncodeChar c).length) s := by
        simpa using append (s := [c]) h
      obtain ⟨w, t, rfl, hw, ht, hseek⟩ := ih hrest
      refine ⟨c :: w, t, rfl, List.forall_mem_cons.2 ⟨hc, hw⟩, ht, ?_⟩
      rw [seek_skip h.drop hskip, hseek, bytes_cons, List.length_append, Nat.add_assoc]

theorem At.exists_keyStart (h : At b i s) : ∃ w t, s = w ++ t ∧ (∀ c ∈ w, isSpace c = true) ∧
    (t = [] ∨ ∃ c t', t = c :: t' ∧ isSpace c = false) ∧
      keyStart b i = i + (bytes w).length := by
  obtain ⟨w, t, hs, hw, ht, hstart⟩ :=
    h.exists_seek (p := fun c => !isSpace c) fun c c' h => by rw [h.isSpace_eq]
  exact ⟨w, t, hs, by simpa using hw, by simpa using ht, hstart⟩

/-- A key is without blanks and marks, and there is one of them behind it unless the text ends. -/
theorem At.exists_keyEnd (h : At b i s) : ∃ w k t, s = w ++ (k ++ t) ∧
    (∀ c ∈ w, isSpace c = true) ∧ (∀ c ∈ k, isSpace c = false ∧ c ≠ '=') ∧
      (t = [] ∨ ∃ c t', t = c :: t' ∧ (isSpace c = true ∨ c = '=')) ∧
        keyStart b i = i + (bytes w).length ∧
          keyEnd b i = keyStart b i + (bytes k).length := by
  obtain ⟨w, s, rfl, hw, _, hstart⟩ := h.exists_keyStart
  have halike : ∀ c c', Alike c c' → (isSpace c || c == '=') = (isSpace c' || c' == '=') := by
    intro c c' h
    rw [h.isSpace_eq, Bool.eq_iff_iff]
    simp only [Bool.or_eq_true, beq_iff_eq, h.eq_iff (show ('=').toNat < 128 by decide)]
  have hkey : At b (keyStart b i) s := by
    rw [hstart]
    exact h.append
  obtain ⟨k, t, rfl, hk, ht, hend⟩ := hkey.exists_seek halike
  exact ⟨w, k, t, rfl, hw, by simpa using hk, by simpa using ht, hstart, hend⟩

theorem quotedEnd_of_drop (q : UInt8) (h : b.drop i = x :: r) : quotedEnd b q i =
    if char x == '\\' then quotedEnd b q (i + 2)
    else if x == q then i + 1
    else quotedEnd b q (i + 1) := by
  obtain ⟨hi, rfl⟩ := exists_getElem h
  rw [quotedEnd, dif_pos hi]

theorem quotedEnd_of_le (q : UInt8) (h : b.length ≤ i) : quotedEnd b q i = b.length := by
  rw [quotedEnd, dif_neg (Nat.not_lt.2 h)]

theorem quotedEnd_skip (h : b.drop i = l ++ r) (hl : ∀ y ∈ l, char y ≠ '\\' ∧ y ≠ q) :
    quotedEnd b q i = quotedEnd b q (i + l.length) := by
  refine skip (fun j y _ hdrop hy => ?_) h hl
  rw [quotedEnd_of_drop q hdrop, beq_eq_false_iff_ne.2 hy.1, beq_eq_false_iff_ne.2 hy.2,
    if_neg Bool.false_ne_true, if_neg Bool.false_ne_true]

section

variable (hq : isQuote (char q) = true)
include hq

theorem quotedEnd_char (h : At b i (c :: s)) (hslash : c ≠ '\\') (hquote : c ≠ char q) :
    quotedEnd b q i = quotedEnd b q (i + (bytes [c]).length) := by
  rw [bytes_cons, bytes_nil, List.append_nil]
  refine quotedEnd_skip h.drop fun y hy => ⟨fun heq => hslash ?_, fun heq => hquote ?_⟩
  · exact ((alike_of_mem_utf8EncodeChar hy).eq_iff (by decide)).1 heq
  · exact ((alike_of_mem_utf8EncodeChar hy).eq_iff (lt_of_isQuote hq)).1 (char_inj.2 heq)

/-- The scan goes on two bytes behind a backslash, maybe inside a character. -/
theorem quotedEnd_pair (h : At b i ('\\' :: c :: s)) :
    quotedEnd b q i = quotedEnd b q (i + (bytes ['\\', c]).length) := by
  obtain ⟨⟨hi, hchar⟩, hnext⟩ := h.exists_mark (by decide)
  obtain ⟨x, l, henc, hdrop⟩ := hnext.exists_bytes
  have hdrop' : b.drop (i + 2) = l ++ bytes s := drop_add (l := [x]) hdrop
  have hskip : ∀ y ∈ l, char y ≠ '\\' ∧ y ≠ q := fun y hy =>
    ⟨fun heq => absurd (henc.wide hy) (by rw [heq]; decide),
      fun heq => absurd (henc.wide hy) (by rw [heq]; exact Nat.not_le.2 (lt_of_isQuote hq))⟩
  have hlength : (bytes ['\\', c]).length = 2 + l.length := by
    rw [length_bytes_cons (by decide), bytes_cons, henc.eq]
    simp only [bytes_nil, List.append_nil, List.length_cons]
    omega
  rw [quotedEnd, dif_pos hi, hchar, if_pos (beq_self_eq_true _), quotedEnd_skip hdrop' hskip,
    hlength, Nat.add_assoc]

theorem At.quotedEnd_enclosed (hbody : Enclosed (char q) body)
    (h : At b i (body ++ char q :: rest)) :
    quotedEnd b q i = i + (bytes body).length + 1 := by
  induction hbody generalizing i with
  | nil =>
    obtain ⟨⟨hi, hchar⟩, _⟩ := h.exists_mark (lt_of_isQuote hq)
    have hbyte : b[i] = q := char_inj.1 hchar
    have hslash : char q ≠ '\\' := ne_backslash_of_isQuote hq
    rw [quotedEnd, dif_pos hi, hbyte]
    simp [hslash]
  | @char c body hc hcq _ ih =>
    rw [quotedEnd_char hq h hc hcq, ih (append (s := [c]) h)]
    simp [Nat.add_assoc]
  | @pair c body _ ih =>
    rw [quotedEnd_pair hq h, ih (append (s := ['\\', c]) h)]
    simp [Nat.add_assoc]

theorem At.quotedEnd_unclosed (hs : Unclosed (char q) s) (h : At b i s) :
    quotedEnd b q i = b.length := by
  induction hs generalizing i with
  | nil => exact quotedEnd_of_le q (Nat.le_of_eq h.length_eq)
  | backslash =>
    obtain ⟨⟨hi, hchar⟩, hnext⟩ := h.exists_mark (by decide)
    have hend : b.length = i + 1 := hnext.length_eq
    rw [quotedEnd, dif_pos hi, hchar, if_pos (beq_self_eq_true _), quotedEnd_of_le q (by omega)]
  | @char c s hc hcq _ ih => rw [quotedEnd_char hq h hc hcq, ih (append (s := [c]) h)]
  | @pair c s _ ih => rw [quotedEnd_pair hq h, ih (append (s := ['\\', c]) h)]

end

/-! ## Values -/

theorem valueEnd_of_drop (d : Depth) (h : b.drop i = x :: r) (hquote : isQuote (char x) = false) :
    valueEnd b d i = if isSpace (char x) && d.isNone then i
      else valueEnd b (d.after (char x)) (i + 1) := by
  obtain ⟨hi, rfl⟩ := exists_getElem h
  rw [valueEnd, dif_pos hi, if_neg (Bool.eq_false_iff.1 hquote)]

theorem valueEnd_char (h : At b i (c :: s)) (hquote : isQuote c = false)
    (hopen : (isSpace c && d.isNone) = false) :
    valueEnd b d i = valueEnd b (d.after c) (i + (bytes [c]).length) := by
  obtain ⟨x, l, henc, hdrop⟩ := h.exists_bytes
  have halike := henc.alike x List.mem_cons_self
  have hskip : valueEnd b (d.after c) (i + 1) = valueEnd b (d.after c) (i + 1 + l.length) := by
    refine skip (P := fun y => 128 ≤ (char y).toNat) (fun j y _ hdrop hy => ?_)
      (drop_succ hdrop) fun y hy => henc.wide hy
    rw [valueEnd_of_drop _ hdrop (isQuote_of_le hy), isSpace_of_le hy, Depth.after_of_le hy]
    rfl
  have hlength : (bytes [c]).length = 1 + l.length := by
    rw [bytes_cons, henc.eq, bytes_nil, List.append_nil, List.length_cons, Nat.add_comm]
  rw [valueEnd_of_drop d hdrop (by rw [halike.isQuote_eq, hquote]), halike.isSpace_eq, hopen,
    if_neg Bool.false_ne_true, halike.after_eq, hskip, hlength, Nat.add_assoc]

theorem At.valueEnd_quoted (h : At b i (c :: s)) (hquote : isQuote c = true) (d : Depth) :
    ∃ q, char q = c ∧ valueEnd b d i = valueEnd b d (quotedEnd b q (i + 1)) := by
  obtain ⟨⟨hi, hchar⟩, _⟩ := h.exists_mark (lt_of_isQuote hquote)
  have hquote' : isQuote (char b[i]) = true := by rw [hchar, hquote]
  exact ⟨b[i], hchar, by rw [valueEnd, dif_pos hi, if_pos hquote']⟩

/-- The text behind a closing quote. -/
theorem At.behind_enclosed (h : At b i (c :: (body ++ c :: rest))) (hc : c.toNat < 128) :
    At b (i + 1 + (bytes body).length + 1) rest :=
  ((h.exists_mark hc).2.append.exists_mark hc).2

theorem At.valueEnd_enclosed (h : At b i (c :: (body ++ c :: rest))) (hquote : isQuote c = true)
    (hbody : Enclosed c body) (d : Depth) :
    valueEnd b d i = valueEnd b d (i + 1 + (bytes body).length + 1) := by
  have hnext := (h.exists_mark (lt_of_isQuote hquote)).2
  obtain ⟨q, rfl, hend⟩ := h.valueEnd_quoted hquote d
  rw [hend, hnext.quotedEnd_enclosed hquote hbody]

theorem At.valueEnd_unclosed (h : At b i (c :: s)) (hquote : isQuote c = true)
    (hs : Unclosed c s) (d : Depth) : valueEnd b d i = b.length := by
  have hnext := (h.exists_mark (lt_of_isQuote hquote)).2
  obtain ⟨q, rfl, hend⟩ := h.valueEnd_quoted hquote d
  rw [hend, hnext.quotedEnd_unclosed hquote hs, valueEnd, dif_neg (Nat.lt_irrefl _)]

/-- A value ends where its last character does. -/
theorem At.valueEnd_eq {i : Nat} {s : List Char} (h : At b i s) (d : Depth) :
    valueEnd b d i = i + (bytes ((Place.plain d).taken s)).length := by
  match s with
  | [] =>
    have hend : b.length = i := h.length_eq
    rw [valueEnd, dif_neg (by omega), hend]
    rfl
  | c :: s =>
    cases hquote : isQuote c with
    | true =>
      have hstep : (Place.plain d).step c = some (.quoted c d) := by
        rw [Place.plain_step, if_pos hquote]
      have hascii := lt_of_isQuote hquote
      rw [Place.taken_cons hstep, length_bytes_cons hascii]
      -- The quote is closed, and the value goes on behind, or all the rest belongs to it.
      obtain ⟨body, rest, rfl, hbody⟩ | hs := enclosed_or_unclosed c s
      · rw [h.valueEnd_enclosed hquote hbody, (h.behind_enclosed hascii).valueEnd_eq d,
          hbody.taken (ne_backslash_of_isQuote hquote), bytes_append, List.length_append,
          length_bytes_cons hascii]
        omega
      · rw [h.valueEnd_unclosed hquote hs, hs.taken d, h.length_eq, length_bytes_cons hascii]
    | false =>
      cases hopen : isSpace c && d.isNone with
      | true =>
        obtain ⟨x, l, henc, hdrop⟩ := h.exists_bytes
        have halike := henc.alike x List.mem_cons_self
        have hstep : (Place.plain d).step c = none := by
          rw [Place.plain_step, hquote, hopen]
          rfl
        rw [valueEnd_of_drop d hdrop (by rw [halike.isQuote_eq, hquote]), halike.isSpace_eq, hopen,
          Place.taken, hstep]
        rfl
      | false =>
        have hstep : (Place.plain d).step c = some (.plain (d.after c)) := by
          rw [Place.plain_step, hquote, hopen]
          rfl
        have hrest : At b (i + (bytes [c]).length) s := append (s := [c]) h
        rw [valueEnd_char h hquote hopen, hrest.valueEnd_eq (d.after c), Place.taken_cons hstep]
        simp [Nat.add_assoc]
termination_by s.length

theorem At.valueStop_eq (h : At b i s) :
    valueStop b i = i + (bytes (Place.start.taken s)).length := by
  have hlength := h.length_eq
  rw [← Place.start.taken_append_left s, bytes_append, List.length_append] at hlength
  rw [valueStop, h.valueEnd_eq, Nat.min_eq_left]
  · rfl
  · show i + (bytes (Place.start.taken s)).length ≤ b.length
    omega

theorem At.slice_value (h : At b i s) :
    slice? b i (valueStop b i) = some (String.ofList (Place.start.taken s)) := by
  have h' := h
  rw [← Place.start.taken_append_left s] at h'
  rw [h.valueStop_eq, h'.slice_eq]

theorem At.left (h : At b i s) : At b (valueStop b i) (Place.start.left s) := by
  have h' := h
  rw [← Place.start.taken_append_left s] at h'
  rw [h.valueStop_eq]
  exact h'.append

/-- Behind what a value leaves comes a blank, or the text has ended. -/
theorem At.left_tail (h : At b i s) : b.length ≤ valueStop b i ∧ Place.start.left s = [] ∨
    At b (valueStop b i + 1) (Place.start.left s).tail := by
  have hleft := h.left
  match hs : Place.start.left s with
  | [] =>
    rw [hs] at hleft
    exact .inl ⟨Nat.le_of_eq hleft.length_eq, rfl⟩
  | c :: s' =>
    rw [hs] at hleft
    exact .inr (hleft.exists_mark (lt_of_isSpace (Place.isSpace_of_left hs))).2

/-! ## Pairs -/

theorem pairsFrom?_of_le (h : b.length ≤ i) : pairsFrom? b i = some [] := by
  have hend : keyEnd b i = i := by rw [keyEnd, keyStart, seek_of_le h, seek_of_le h]
  rw [pairsFrom?, dif_neg (by omega)]

theorem At.pairsFrom_eq {i : Nat} {s : List Char} (h : At b i s) :
    pairsFrom? b i = some (pairsFrom (.key []) s) := by
  obtain ⟨w, k, t, rfl, hw, hk, ht, hstart, hend⟩ := h.exists_keyEnd
  have hkey : At b (keyStart b i) (k ++ t) := by
    rw [hstart]
    exact h.append
  have hmark : At b (keyEnd b i) t := by
    rw [hend]
    exact hkey.append
  rw [pairsFrom?, pairsFrom_blanks hw]
  obtain rfl | ⟨c, s, rfl, hc⟩ := ht
  · have hlength : b.length = keyEnd b i := hmark.length_eq
    rw [dif_neg (by omega), List.append_nil, pairsFrom_last hk]
  · -- A blank and a mark alike are one byte, and behind it the scan goes on.
    have hascii : c.toNat < 128 := hc.elim lt_of_isSpace fun heq => by rw [heq]; decide
    obtain ⟨⟨hi, hchar⟩, hnext⟩ := hmark.exists_mark hascii
    rw [dif_pos hi, hchar]
    by_cases heq : c = '='
    · have hslice : slice? b (keyStart b i) (keyEnd b i) = some (String.ofList k) := by
        rw [hend, hkey.slice_eq]
      have hrest : pairsFrom? b (valueStop b (keyEnd b i + 1) + 1) =
          some (pairsFrom (.key []) (Place.start.left s).tail) := by
        obtain ⟨hle, hnone⟩ | htail := hnext.left_tail
        · rw [pairsFrom?_of_le (by omega), hnone]
          rfl
        · exact htail.pairsFrom_eq
      rw [if_pos (beq_iff_eq.2 heq), hslice, Option.bind_some, hnext.slice_value,
        Option.bind_some, hrest, heq, pairsFrom_pair hk]
      rfl
    · have hspace : isSpace c = true := hc.resolve_right heq
      rw [if_neg (by simpa using heq), pairsFrom_word hk hspace]
      exact hnext.pairsFrom_eq
termination_by b.length - i
decreasing_by
  all_goals
    have := le_keyEnd b i
    have := le_valueStop (b := b) (i := keyEnd b i + 1) (by omega)
    omega

theorem pairs?_eq (s : String) : pairs? s = some (pairs s) := (At.zero s.toList).pairsFrom_eq

/-! ## Quoted texts -/

theorem unescape_cons (h : char x ≠ '\\') (r : List UInt8) :
    unescape (x :: r) = x :: unescape r := by
  cases r with
  | nil => rfl
  | cons y r => rw [unescape, if_neg (by simpa using h)]

theorem unescape_append (hl : ∀ y ∈ l, char y ≠ '\\') (r : List UInt8) :
    unescape (l ++ r) = l ++ unescape r := by
  induction l with
  | nil => rfl
  | cons x l ih =>
    rw [List.cons_append, unescape_cons (hl x List.mem_cons_self),
      ih fun y hy => hl y (List.mem_cons_of_mem x hy), List.cons_append]

theorem unescape_bytes (s : List Char) : unescape (bytes s) = bytes (KeyValue.unescape s) := by
  have hslash : String.utf8EncodeChar '\\' = [92] := rfl
  fun_induction KeyValue.unescape s with
  | case1 => rfl
  | case2 c s ih =>
    obtain ⟨x, l, henc⟩ := exists_encodes c
    have hwide : ∀ y ∈ l, char y ≠ '\\' := fun y hy heq =>
      absurd (henc.wide hy) (by rw [heq]; decide)
    rw [bytes_cons, bytes_cons, bytes_cons, hslash, henc.eq, List.singleton_append,
      List.cons_append, unescape, if_pos (by decide), unescape_append hwide, ih, List.cons_append]
  | case3 c s hpair ih =>
    by_cases hc : c = '\\'
    · subst hc
      cases s with
      | nil => rfl
      | cons c s => exact absurd rfl (hpair c s rfl)
    · have hbytes : ∀ y ∈ String.utf8EncodeChar c, char y ≠ '\\' := fun y hy heq =>
        hc (((alike_of_mem_utf8EncodeChar hy).eq_iff (by decide)).1 heq)
      rw [bytes_cons, unescape_append hbytes, ih, bytes_cons]

/-- A text ends in a mark just if its bytes end in that of the mark. -/
theorem getLast?_bytes (hq : (char q).toNat < 128) (s : List Char) :
    (bytes s).getLast? = some q ↔ s.getLast? = some (char q) := by
  rcases s.eq_nil_or_concat with rfl | ⟨t, c, rfl⟩
  · simp
  · obtain ⟨x, l, hc⟩ := exists_encodes c
    have halike := hc.alike _ (List.getLast_mem (List.cons_ne_nil x l))
    rw [List.concat_eq_append, bytes_append, bytes_cons, bytes_nil, List.append_nil, hc.eq,
      List.getLast?_append, List.getLast?_eq_some_getLast (List.cons_ne_nil x l), Option.some_or,
      List.getLast?_concat, Option.some_inj, Option.some_inj, ← char_inj]
    exact halike.eq_iff hq

/-- The last byte is that of the mark at an offset, and another one, just if the mark ends the
text behind it too. -/
theorem At.last_iff (h : At b i (c :: s)) (hc : c.toNat < 128) :
    i + 1 < b.length ∧ b[b.length - 1]? = b[i]? ↔ s.getLast? = some c := by
  obtain ⟨⟨hi, rfl⟩, hnext⟩ := h.exists_mark hc
  have hlast : i + 1 < b.length → b[b.length - 1]? = (bytes s).getLast? := by
    intro hlt
    rw [← List.getLast?_eq_getElem?, ← hnext.drop, List.getLast?_drop, if_neg (by omega)]
  rw [List.getElem?_eq_getElem hi, ← getLast?_bytes hc]
  constructor
  · rintro ⟨hlt, heq⟩
    rw [← hlast hlt, heq]
  · intro heq
    have hlength : 0 < (bytes s).length := by
      rw [List.length_pos_iff]
      rintro hnil
      rw [hnil] at heq
      cases heq
    have hlt : i + 1 < b.length := by
      rw [hnext.length_eq]
      omega
    exact ⟨hlt, by rw [hlast hlt, heq]⟩

theorem At.length_sub_one (h : At b i (s ++ [c])) (hc : c.toNat < 128) :
    b.length - 1 = i + (bytes s).length := by
  have hlength := h.length_eq
  rw [bytes_append, List.length_append, length_bytes_cons hc] at hlength
  rw [hlength]
  rfl

/-- What stands before a mark that ends the text. -/
theorem At.range_last (h : At b i s) (hc : c.toNat < 128) (hs : s.getLast? = some c) :
    range? b i (b.length - 1) = some (bytes s.dropLast) := by
  obtain ⟨t, rfl⟩ := List.getLast?_eq_some_iff.1 hs
  rw [h.length_sub_one hc, h.range_eq, List.dropLast_concat]

theorem At.any_isQuote (h : At b i (c :: s)) :
    b[i]?.any (fun q => isQuote (char q)) = isQuote c := by
  obtain ⟨x, l, hc, hdrop⟩ := h.exists_bytes
  obtain ⟨hi, rfl⟩ := exists_getElem hdrop
  rw [List.getElem?_eq_getElem hi, Option.any_some,
    (hc.alike _ List.mem_cons_self).isQuote_eq]

theorem unquote?_eq (s : String) : unquote? s = some (unquote s) := by
  have hs : String.ofList s.toList = s := String.ofList_toList
  have hat := At.zero s.toList
  unfold unquote? unquote
  cases htext : s.toList with
  | nil =>
    rw [htext] at hs
    rw [← hs]
    rfl
  | cons c t =>
    rw [htext] at hat hs
    simp only [List.head?_eq_getElem?, List.getLast?_eq_getElem?, hat.any_isQuote]
    have hiff : (isQuote c = true ∧ 2 ≤ (bytes (c :: t)).length ∧
        (bytes (c :: t))[(bytes (c :: t)).length - 1]? = (bytes (c :: t))[0]?) ↔
          isQuote c = true ∧ t.getLast? = some c :=
      and_congr_right fun hquote => hat.last_iff (lt_of_isQuote hquote)
    rw [unquoteChars]
    by_cases h : isQuote c = true ∧ t.getLast? = some c
    · have hascii := lt_of_isQuote h.1
      have hcond : (isQuote c && t.getLast? == some c) = true := by simpa using h
      rw [if_pos (hiff.2 h), (hat.exists_mark hascii).2.range_last hascii h.2, if_pos hcond,
        Option.map_some, unescape_bytes, decode_bytes]
    · have hcond : ¬(isQuote c && t.getLast? == some c) = true := by simpa using h
      rw [if_neg fun hbytes => h (hiff.1 hbytes), if_neg hcond, hs]

/-! ## Elements -/

theorem unfinished_reverse (c : Char) (s : List Char) : unfinished c s.reverse =
    if s.getLast? = some c then KeyValue.unescape s.dropLast else c :: s := by
  rcases s.eq_nil_or_concat with rfl | ⟨t, c', rfl⟩
  · rfl
  · rw [List.concat_eq_append, List.reverse_append, List.reverse_singleton, List.singleton_append,
      unfinished, List.getLast?_concat, List.dropLast_concat, List.reverse_cons,
      List.reverse_reverse]
    simp only [beq_iff_eq, Option.some_inj]

section

variable {j : Nat}

theorem At.element_plain (h : At b i (c :: s)) (hquote : isQuote c = false) :
    elementStop b i = valueStop b i ∧ element? b i j = slice? b i j := by
  have hany := h.any_isQuote
  unfold elementStop element?
  rw [hany, hquote]
  obtain ⟨x, hx⟩ : ∃ x, b[i]? = some x := ⟨_, List.getElem?_eq_getElem h.lt⟩
  rw [hx, Option.any_some, hquote] at hany
  simp [hx, hany]

theorem At.elementStop_quoted (h : At b i (c :: s)) (hquote : isQuote c = true) :
    ∃ q, char q = c ∧ elementStop b i = quotedEnd b q (i + 1) := by
  obtain ⟨⟨hi, hchar⟩, _⟩ := h.exists_mark (lt_of_isQuote hquote)
  refine ⟨b[i], hchar, ?_⟩
  have hmin := quotedEnd_le b b[i] (i + 1)
  unfold elementStop
  simp only [List.getElem?_eq_getElem hi, hchar, hquote, if_true]
  omega

theorem At.element_enclosed (h : At b i (c :: (body ++ c :: rest))) (hquote : isQuote c = true)
    (hbody : Enclosed c body) : elementStop b i = i + 1 + (bytes body).length + 1 ∧
      element? b i (i + 1 + (bytes body).length + 1) =
        some (String.ofList (KeyValue.unescape body)) := by
  have hascii := lt_of_isQuote hquote
  obtain ⟨q, rfl, hstop⟩ := h.elementStop_quoted hquote
  obtain ⟨⟨hi, hchar⟩, hnext⟩ := h.exists_mark hascii
  obtain ⟨⟨hj, hchar'⟩, _⟩ := hnext.append.exists_mark hascii
  have hsame : b[i + 1 + (bytes body).length]? = b[i]? := by
    rw [List.getElem?_eq_getElem hi, List.getElem?_eq_getElem hj,
      char_inj.1 (hchar'.trans hchar.symm)]
  refine ⟨by rw [hstop, hnext.quotedEnd_enclosed hquote hbody], ?_⟩
  unfold element?
  rw [h.any_isQuote, Nat.add_sub_cancel, if_pos ⟨hquote, by omega, hsame⟩, hnext.range_eq,
    Option.map_some, unescape_bytes, decode_bytes]

theorem At.element_unclosed (h : At b i (c :: s)) (hquote : isQuote c = true)
    (hs : Unclosed c s) : elementStop b i = b.length ∧
      element? b i b.length = some (String.ofList (unfinished c s.reverse)) := by
  have hascii := lt_of_isQuote hquote
  obtain ⟨q, rfl, hstop⟩ := h.elementStop_quoted hquote
  obtain ⟨_, hnext⟩ := h.exists_mark hascii
  refine ⟨by rw [hstop, hnext.quotedEnd_unclosed hquote hs], ?_⟩
  have hiff := h.last_iff hascii
  unfold element?
  rw [h.any_isQuote, unfinished_reverse]
  by_cases hlast : s.getLast? = some (char q)
  · rw [if_pos ⟨hquote, hiff.2 hlast⟩, if_pos hlast, hnext.range_last hascii hlast, Option.map_some,
      unescape_bytes, decode_bytes]
  · have hall : At b i (char q :: s ++ []) := by rwa [List.append_nil]
    rw [if_neg fun hcond => hlast (hiff.1 hcond.2), if_neg hlast, h.length_eq, hall.slice_eq]

end

theorem elementsFrom?_of_le (h : b.length ≤ i) : elementsFrom? b i = some [] := by
  rw [elementsFrom?, keyStart, seek_of_le h, dif_neg (by omega)]

/-- Text is not taken inside a character. -/
theorem At.elementsFrom_inside (h : At b i (c :: s)) (hc : 128 ≤ c.toNat) :
    elementsFrom? b (i + 1) = none := by
  obtain ⟨x, l, henc, hdrop⟩ := h.exists_bytes
  obtain ⟨y, l, rfl⟩ := List.exists_cons_of_ne_nil
    fun hnil => absurd (henc.nil_iff.1 hnil) (Nat.not_lt.2 hc)
  have hwide := henc.wide List.mem_cons_self
  have hnext : b.drop (i + 1) = y :: (l ++ bytes s) := drop_succ hdrop
  obtain ⟨hi, hy⟩ := exists_getElem hnext
  have hstart : keyStart b (i + 1) = i + 1 := by
    rw [keyStart, seek_of_drop _ hnext, isSpace_of_le hwide]
    rfl
  have hboundary : isBoundary b (i + 1) = false := by
    unfold isBoundary
    rw [List.getElem?_eq_getElem hi, hy]
    exact decide_eq_false (henc.behind y List.mem_cons_self)
  have hnone : ∀ j, element? b (i + 1) j = none := by
    intro j
    unfold element? slice?
    rw [List.getElem?_eq_getElem hi, hy, Option.any_some, isQuote_of_le hwide, hboundary]
    simp
  rw [elementsFrom?, hstart, dif_pos hi, hnone, Option.bind_none]

theorem At.elementsFrom_eq {i : Nat} {s : List Char} (h : At b i s) :
    elementsFrom? b i = (elementsFrom .gap s).map fun es => es.map String.ofList := by
  obtain ⟨w, t, rfl, hw, ht, hstart⟩ := h.exists_keyStart
  have hat : At b (keyStart b i) t := by
    rw [hstart]
    exact h.append
  rw [elementsFrom?, elementsFrom_blanks hw]
  obtain rfl | ⟨c, s, rfl, hspace⟩ := ht
  · have hend : b.length = keyStart b i := hat.length_eq
    rw [dif_neg (by omega)]
    rfl
  · rw [dif_pos hat.lt]
    cases hquote : isQuote c with
    | false =>
      have hrest : elementsFrom? b (valueStop b (keyStart b i) + 1) =
          (elementsFrom .gap (Place.start.left (c :: s)).tail).map fun es =>
            es.map String.ofList := by
        obtain ⟨hle, hnone⟩ | htail := hat.left_tail
        · rw [elementsFrom?_of_le (by omega), hnone]
          rfl
        · exact htail.elementsFrom_eq
      rw [(hat.element_plain (j := 0) hquote).1, (hat.element_plain hquote).2, hat.slice_value,
        Option.bind_some, hrest, elementsFrom_value hquote hspace, Option.map_map, Option.map_map]
      rfl
    | true =>
      obtain ⟨body, rest, rfl, hbody⟩ | hs := enclosed_or_unclosed c s
      · obtain ⟨hstop, helement⟩ := hat.element_enclosed hquote hbody
        have hbehind := hat.behind_enclosed (lt_of_isQuote hquote)
        have hrest : elementsFrom? b (keyStart b i + 1 + (bytes body).length + 1 + 1) =
            (elementsFrom .closed rest).map fun es => es.map String.ofList := by
          -- One byte is passed over: the text ends, or the next character is that byte, or not.
          cases rest with
          | nil =>
            have hend : b.length = keyStart b i + 1 + (bytes body).length + 1 := hbehind.length_eq
            rw [elementsFrom?_of_le (by omega)]
            rfl
          | cons c' rest =>
            rw [elementsFrom]
            by_cases hc : c'.toNat < 128
            · rw [if_pos hc]
              exact (hbehind.exists_mark hc).2.elementsFrom_eq
            · rw [if_neg hc, hbehind.elementsFrom_inside (Nat.le_of_not_lt hc)]
              rfl
        rw [hstop, helement, Option.bind_some, hrest, elementsFrom_quoted hquote hbody,
          Option.map_map, Option.map_map]
        rfl
      · obtain ⟨hstop, helement⟩ := hat.element_unclosed hquote hs
        rw [hstop, helement, Option.bind_some, elementsFrom?_of_le (Nat.le_succ _),
          elementsFrom_unfinished hquote hs]
        rfl
termination_by b.length - i
decreasing_by
  · have := hat.lt
    have := le_valueStop hat.le
    omega
  · have := hat.lt
    omega

theorem elements?_eq (s : String) :
    elements? s = (KeyValue.elements? s.toList).map fun es => es.map String.ofList :=
  (At.zero s.toList).elementsFrom_eq

end TraceExplorer.KeyValue.Offsets
