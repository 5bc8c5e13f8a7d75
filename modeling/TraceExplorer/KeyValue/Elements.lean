import TraceExplorer.KeyValue.Quoting

/-
  The elements of a list value, separated by blanks. Quoted elements lose their quotes.
  After a closing quote one byte is passed over, whatever it is; a character of several bytes
  there would be split, and then the list has no reading.
-/

namespace TraceExplorer.KeyValue

/-- Where in the body of a list the scan stands; what is read stands in reverse. -/
inductive ElementPlace where
  | gap
  | plain (read : List Char) (place : Place)
  | quoted (q : Char) (read : List Char)
  | escaped (q : Char) (read : List Char)
  | closed

/-- A quoted element that the text ends in: its last character may still be taken as the
closing quote. -/
def unfinished (q : Char) (read : List Char) : List Char :=
  match read with
  | c :: inner => if c == q then unescape inner.reverse else q :: read.reverse
  | [] => [q]

/-- The elements found from a place on. -/
def elementsFrom : ElementPlace → List Char → Option (List (List Char))
  | .gap, [] => some []
  | .closed, [] => some []
  | .plain v _, [] => some [v.reverse]
  | .quoted q v, [] => some [unfinished q v]
  | .escaped q v, [] => some [unfinished q v]
  | .gap, c :: s =>
    if isSpace c then elementsFrom .gap s
    else if isQuote c then elementsFrom (.quoted c []) s
    else elementsFrom (.plain [c] (.plain (Depth.none.after c))) s
  | .plain v p, c :: s =>
    match p.step c with
    | some p => elementsFrom (.plain (c :: v) p) s
    | none => (elementsFrom .gap s).map (v.reverse :: ·)
  | .quoted q v, c :: s =>
    if c == '\\' then elementsFrom (.escaped q (c :: v)) s
    else if c == q then (elementsFrom .closed s).map (unescape v.reverse :: ·)
    else elementsFrom (.quoted q (c :: v)) s
  | .escaped q v, c :: s => elementsFrom (.quoted q (c :: v)) s
  | .closed, c :: s => if c.toNat < 128 then elementsFrom .gap s else none

def elements? (s : List Char) : Option (List (List Char)) := elementsFrom .gap s

/-- How many characters a place has read. -/
def ElementPlace.weight : ElementPlace → Nat
  | .gap | .closed => 0
  | .plain v _ => v.length
  | .quoted _ v | .escaped _ v => v.length + 1

theorem length_unfinished_le (q : Char) (v : List Char) :
    (unfinished q v).length ≤ v.length + 1 := by
  unfold unfinished
  split
  · split
    · have := length_unescape_le (List.reverse ‹List Char›)
      simp at *; omega
    · simp
  · simp

theorem length_le_of_mem_elementsFrom {p : ElementPlace} {s : List Char} {es : List (List Char)}
    (h : elementsFrom p s = some es) {e : List Char} (he : e ∈ es) :
    e.length ≤ p.weight + s.length := by
  fun_induction elementsFrom p s generalizing es with
  | case1 => simp_all
  | case2 => simp_all
  | case3 v =>
    obtain rfl : es = [v.reverse] := by simpa using h.symm
    simp_all [ElementPlace.weight]
  | case4 q v =>
    obtain rfl : es = [unfinished q v] := by simpa using h.symm
    have := length_unfinished_le q v
    simp_all [ElementPlace.weight]
  | case5 q v =>
    obtain rfl : es = [unfinished q v] := by simpa using h.symm
    have := length_unfinished_le q v
    simp_all [ElementPlace.weight]
  | case6 c s _ ih => have := ih h he; simp [ElementPlace.weight] at *; omega
  | case7 c s _ _ ih => have := ih h he; simp [ElementPlace.weight] at *; omega
  | case8 c s _ _ ih => have := ih h he; simp [ElementPlace.weight] at *; omega
  | case9 v p c s p' hp ih => have := ih h he; simp [ElementPlace.weight] at *; omega
  | case10 v p c s hp ih =>
    obtain ⟨rest, hrest, rfl⟩ := Option.map_eq_some_iff.1 h
    rcases List.mem_cons.1 he with rfl | he
    · simp [ElementPlace.weight]
    · have := ih hrest he; simp [ElementPlace.weight] at *; omega
  | case11 q v c s _ ih => have := ih h he; simp [ElementPlace.weight] at *; omega
  | case12 q v c s _ _ ih =>
    obtain ⟨rest, hrest, rfl⟩ := Option.map_eq_some_iff.1 h
    rcases List.mem_cons.1 he with rfl | he
    · have := length_unescape_le v.reverse
      simp [ElementPlace.weight] at *; omega
    · have := ih hrest he; simp [ElementPlace.weight] at *; omega
  | case13 q v c s _ _ ih => have := ih h he; simp [ElementPlace.weight] at *; omega
  | case14 q v c s ih => have := ih h he; simp [ElementPlace.weight] at *; omega
  | case15 c s _ ih => have := ih h he; simp [ElementPlace.weight] at *; omega
  | case16 => simp at h

theorem length_le_of_mem_elements {s : List Char} {es : List (List Char)}
    (h : elements? s = some es) {e : List Char} (he : e ∈ es) : e.length ≤ s.length := by
  simpa [ElementPlace.weight] using length_le_of_mem_elementsFrom h he

end TraceExplorer.KeyValue
