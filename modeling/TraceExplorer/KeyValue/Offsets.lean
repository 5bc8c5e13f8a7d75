import TraceExplorer.KeyValue.Scan
import TraceExplorer.Text.Utf8

/-
  The scans by offsets into the bytes of a text. An offset moves on by one byte, by two over a
  backslash between quotes, and by one over whatever stands behind a value. Text can only be
  taken between two offsets at which characters start; where a scan tries to take it elsewhere,
  it fails.
-/

namespace TraceExplorer.KeyValue.Offsets

open Text.Utf8 (bytes decode)

/-- The character with the number of a byte: the one that it stands for if it is ASCII. -/
def char (x : UInt8) : Char := Char.ofNat x.toNat

/-- Whether a character starts at an offset, or the text ends there. -/
def isBoundary (b : List UInt8) (i : Nat) : Bool :=
  match b[i]? with
  | some x => decide x.IsUTF8FirstByte
  | none => i == b.length

/-- The bytes between two offsets of the text. -/
def range? (b : List UInt8) (i j : Nat) : Option (List UInt8) :=
  if i ≤ j ∧ j ≤ b.length then some ((b.drop i).take (j - i)) else none

/-- The text between two offsets at which characters start. -/
def slice? (b : List UInt8) (i j : Nat) : Option String :=
  if isBoundary b i ∧ isBoundary b j then (range? b i j).map decode else none

/-- The first offset from `i` on whose byte satisfies `p`. -/
def seek (p : Char → Bool) (b : List UInt8) (i : Nat) : Nat :=
  if _ : i < b.length then if p (char b[i]) then i else seek p b (i + 1) else i
termination_by b.length - i

theorem le_seek (p : Char → Bool) (b : List UInt8) (i : Nat) : i ≤ seek p b i := by
  fun_induction seek p b i <;> omega

/-- The offset behind the closing quote, or the end. -/
def quotedEnd (b : List UInt8) (q : UInt8) (i : Nat) : Nat :=
  if _ : i < b.length then
    if char b[i] == '\\' then quotedEnd b q (i + 2)
    else if b[i] == q then i + 1
    else quotedEnd b q (i + 1)
  else b.length
termination_by b.length - i

theorem quotedEnd_le (b : List UInt8) (q : UInt8) (i : Nat) : quotedEnd b q i ≤ b.length := by
  fun_induction quotedEnd b q i <;> omega

theorem le_quotedEnd {b : List UInt8} (q : UInt8) {i : Nat} (h : i ≤ b.length) :
    i ≤ quotedEnd b q i := by
  fun_induction quotedEnd b q i with
  | case1 i _ _ ih =>
    by_cases hi : i + 2 ≤ b.length
    · exact Nat.le_trans (by omega) (ih hi)
    · rw [quotedEnd, dif_neg (by omega)]
      exact h
  | case2 => omega
  | case3 i hi _ _ ih => exact Nat.le_trans (by omega) (ih (by omega))
  | case4 => exact h

/-- The offset of the blank that ends a value, or the end. -/
def valueEnd (b : List UInt8) (d : Depth) (i : Nat) : Nat :=
  if _ : i < b.length then
    if isQuote (char b[i]) then valueEnd b d (quotedEnd b b[i] (i + 1))
    else if isSpace (char b[i]) && d.isNone then i
    else valueEnd b (d.after (char b[i])) (i + 1)
  else b.length
termination_by b.length - i
decreasing_by
  · have := le_quotedEnd b[i] (b := b) (i := i + 1) (by omega)
    omega
  · omega

theorem le_valueEnd {b : List UInt8} (d : Depth) {i : Nat} (h : i ≤ b.length) :
    i ≤ valueEnd b d i := by
  fun_induction valueEnd b d i with
  | case1 d i hi _ ih =>
    have := le_quotedEnd b[i] (b := b) (i := i + 1) (by omega)
    have := ih (quotedEnd_le b _ _)
    omega
  | case2 => omega
  | case3 d i hi _ _ ih => exact Nat.le_trans (by omega) (ih (by omega))
  | case4 => exact h

/-! ## Pairs -/

def keyStart (b : List UInt8) (i : Nat) : Nat := seek (fun c => !isSpace c) b i

/-- The offset of the mark behind a key, or of the blank that ends a word without one. -/
def keyEnd (b : List UInt8) (i : Nat) : Nat :=
  seek (fun c => isSpace c || c == '=') b (keyStart b i)

theorem le_keyEnd (b : List UInt8) (i : Nat) : i ≤ keyEnd b i :=
  Nat.le_trans (le_seek _ b i) (le_seek _ b (keyStart b i))

/-- The end of a value that starts at an offset. -/
def valueStop (b : List UInt8) (i : Nat) : Nat := min (valueEnd b .none i) b.length

theorem le_valueStop {b : List UInt8} {i : Nat} (h : i ≤ b.length) : i ≤ valueStop b i :=
  Nat.le_min.2 ⟨le_valueEnd .none h, h⟩

/-- The pairs from an offset on. -/
def pairsFrom? (b : List UInt8) (i : Nat) : Option (List (String × String)) :=
  if _ : keyEnd b i < b.length then
    if char b[keyEnd b i] == '=' then
      (slice? b (keyStart b i) (keyEnd b i)).bind fun key =>
        (slice? b (keyEnd b i + 1) (valueStop b (keyEnd b i + 1))).bind fun value =>
          (pairsFrom? b (valueStop b (keyEnd b i + 1) + 1)).map ((key, value) :: ·)
    else pairsFrom? b (keyEnd b i + 1)
  else some []
termination_by b.length - i
decreasing_by
  all_goals
    have := le_keyEnd b i
    have := le_valueStop (b := b) (i := keyEnd b i + 1) (by omega)
    omega

def pairs? (s : String) : Option (List (String × String)) := pairsFrom? (bytes s.toList) 0

/-! ## Quoted texts -/

/-- Every backslash that stands before a byte is dropped, and that byte kept. -/
def unescape : List UInt8 → List UInt8
  | [] => []
  | [x] => [x]
  | x :: y :: s => if char x == '\\' then y :: unescape s else x :: unescape (y :: s)

/-- The text between two equal quotes at the ends; any other text is left as it is. -/
def unquote? (s : String) : Option String :=
  let b := bytes s.toList
  if b.head?.any (fun q => isQuote (char q)) ∧ 2 ≤ b.length ∧ b.getLast? = b.head? then
    (range? b 1 (b.length - 1)).map fun r => decode (unescape r)
  else some s

/-! ## Elements -/

/-- The end of an element that starts at an offset. -/
def elementStop (b : List UInt8) (i : Nat) : Nat :=
  match b[i]? with
  | some q => if isQuote (char q) then min (quotedEnd b q (i + 1)) b.length else valueStop b i
  | none => b.length

/-- The element between two offsets, without its quotes. -/
def element? (b : List UInt8) (i j : Nat) : Option String :=
  if b[i]?.any (fun q => isQuote (char q)) ∧ i + 1 < j ∧ b[j - 1]? = b[i]? then
    (range? b (i + 1) (j - 1)).map fun r => decode (unescape r)
  else slice? b i j

theorem le_elementStop {b : List UInt8} {i : Nat} (h : i ≤ b.length) : i ≤ elementStop b i := by
  unfold elementStop
  split
  · rename_i q hq
    have hi := (List.getElem?_eq_some_iff.1 hq).1
    split
    · have := le_quotedEnd q (b := b) (i := i + 1) hi
      omega
    · exact le_valueStop h
  · exact h

/-- The elements from an offset on. -/
def elementsFrom? (b : List UInt8) (i : Nat) : Option (List String) :=
  if _ : keyStart b i < b.length then
    (element? b (keyStart b i) (elementStop b (keyStart b i))).bind fun e =>
      (elementsFrom? b (elementStop b (keyStart b i) + 1)).map (e :: ·)
  else some []
termination_by b.length - i
decreasing_by
  have := le_seek (fun c => !isSpace c) b i
  have := le_elementStop (b := b) (i := keyStart b i) (by omega)
  unfold keyStart at *
  omega

def elements? (s : String) : Option (List String) := elementsFrom? (bytes s.toList) 0

end TraceExplorer.KeyValue.Offsets
