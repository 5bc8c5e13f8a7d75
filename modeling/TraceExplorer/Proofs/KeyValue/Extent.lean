import TraceExplorer.KeyValue.Elements
import TraceExplorer.KeyValue.Pairs

/-
  How far values and quoted texts reach. From a place on, a value takes characters up to the blank
  that ends it (`Place.taken`, `Place.left`). After a quote come a text that can stand between
  quotes (`Enclosed`) and the closing quote, or the quote is never closed (`Unclosed`). The scans
  for pairs and for elements are told in these terms, one law for each thing they can meet.
-/

namespace TraceExplorer.KeyValue

variable {p : Place} {q c : Char} {s body rest : List Char}

/-! ## Values -/

/-- What a value takes of a text from a place on. -/
def Place.taken (p : Place) : List Char → List Char
  | [] => []
  | c :: s =>
    match p.step c with
    | some p => c :: p.taken s
    | none => []

/-- What it leaves. -/
def Place.left (p : Place) : List Char → List Char
  | [] => []
  | c :: s =>
    match p.step c with
    | some p => p.left s
    | none => c :: s

theorem Place.taken_cons {p' : Place} (h : p.step c = some p') (s : List Char) :
    p.taken (c :: s) = c :: p'.taken s := by
  rw [taken, h]

theorem Place.left_cons {p' : Place} (h : p.step c = some p') (s : List Char) :
    p.left (c :: s) = p'.left s := by
  rw [left, h]

theorem Place.taken_append_left (p : Place) (s : List Char) : p.taken s ++ p.left s = s := by
  induction s generalizing p with
  | nil => rfl
  | cons c s ih =>
    rw [taken, left]
    cases p.step c with
    | some p' => exact congrArg (c :: ·) (ih p')
    | none => rfl

theorem Place.length_left_le (p : Place) (s : List Char) : (p.left s).length ≤ s.length := by
  have h := congrArg List.length (p.taken_append_left s)
  rw [List.length_append] at h
  omega

theorem Place.plain_step (d : Depth) (c : Char) : (Place.plain d).step c =
    if isQuote c then some (.quoted c d)
    else if isSpace c && d.isNone then none
    else some (.plain (d.after c)) := rfl

theorem Place.quoted_step_eq (q : Char) (d : Depth) (c : Char) : (Place.quoted q d).step c =
    if c == '\\' then some (.escaped q d)
    else if c == q then some (.plain d)
    else some (.quoted q d) := rfl

theorem Place.step_eq_none : p.step c = none ↔
    isSpace c = true ∧ ∃ d, p = .plain d ∧ d.isNone = true ∧ isQuote c = false := by
  cases p with
  | plain d =>
    rw [plain_step]
    cases isQuote c <;> cases isSpace c <;> cases hd : d.isNone <;> simp [hd]
  | quoted q d =>
    rw [quoted_step_eq]
    cases c == '\\' <;> cases c == q <;> simp
  | escaped q d => simp [step]

/-- A value ends before a blank. -/
theorem Place.isSpace_of_left (h : p.left s = c :: rest) : isSpace c = true := by
  induction s generalizing p with
  | nil => cases h
  | cons c' s ih =>
    rw [left] at h
    split at h
    · exact ih h
    · rename_i hstep
      obtain ⟨rfl, rfl⟩ := List.cons.inj h
      exact (step_eq_none.1 hstep).1

theorem Place.start_step (hquote : isQuote c = false) (hspace : isSpace c = false) :
    Place.start.step c = some (.plain (Depth.none.after c)) := by
  simp [start, plain_step, hquote, hspace]

/-! ## Quoted texts -/

/-- A text that can stand between quotes `q`: such a quote is in it only behind a backslash. -/
inductive Enclosed (q : Char) : List Char → Prop where
  | nil : Enclosed q []
  | char {c : Char} {s : List Char} (hc : c ≠ '\\') (hq : c ≠ q) (h : Enclosed q s) :
      Enclosed q (c :: s)
  | pair (c : Char) {s : List Char} (h : Enclosed q s) : Enclosed q ('\\' :: c :: s)

/-- A text behind a quote `q` that is never closed. -/
inductive Unclosed (q : Char) : List Char → Prop where
  | nil : Unclosed q []
  | backslash : Unclosed q ['\\']
  | char {c : Char} {s : List Char} (hc : c ≠ '\\') (hq : c ≠ q) (h : Unclosed q s) :
      Unclosed q (c :: s)
  | pair (c : Char) {s : List Char} (h : Unclosed q s) : Unclosed q ('\\' :: c :: s)

/-- Behind a quote the text goes on to the closing quote, or to its end. -/
theorem enclosed_or_unclosed (q : Char) (s : List Char) :
    (∃ body rest, s = body ++ q :: rest ∧ Enclosed q body) ∨ Unclosed q s := by
  match s with
  | [] => exact .inr .nil
  | c :: s =>
    by_cases hc : c = '\\'
    · subst hc
      match s with
      | [] => exact .inr .backslash
      | c :: s =>
        obtain ⟨body, rest, rfl, hbody⟩ | hs := enclosed_or_unclosed q s
        · exact .inl ⟨'\\' :: c :: body, rest, rfl, .pair c hbody⟩
        · exact .inr (.pair c hs)
    · by_cases hq : c = q
      · exact .inl ⟨[], s, by rw [hq]; rfl, .nil⟩
      · obtain ⟨body, rest, rfl, hbody⟩ | hs := enclosed_or_unclosed q s
        · exact .inl ⟨c :: body, rest, rfl, .char hc hq hbody⟩
        · exact .inr (.char hc hq hs)
termination_by s.length

section

variable {d : Depth}

theorem Place.quoted_step (hc : c ≠ '\\') (hq : c ≠ q) :
    (Place.quoted q d).step c = some (.quoted q d) := by
  simp [quoted_step_eq, hc, hq]

theorem Place.quoted_step_quote (hq : q ≠ '\\') : (Place.quoted q d).step q = some (.plain d) := by
  simp [quoted_step_eq, hq]

theorem Place.quoted_step_backslash : (Place.quoted q d).step '\\' = some (.escaped q d) := by
  simp [step]

theorem Enclosed.taken (h : Enclosed q body) (hq : q ≠ '\\') (d : Depth) (rest : List Char) :
    (Place.quoted q d).taken (body ++ q :: rest) = body ++ q :: (Place.plain d).taken rest := by
  induction h with
  | nil => exact Place.taken_cons (Place.quoted_step_quote hq) rest
  | char hc hcq _ ih =>
    rw [List.cons_append, Place.taken_cons (Place.quoted_step hc hcq), ih, List.cons_append]
  | pair c _ ih =>
    rw [List.cons_append, Place.taken_cons Place.quoted_step_backslash, List.cons_append,
      Place.taken_cons rfl, ih, List.cons_append, List.cons_append]

theorem Enclosed.left (h : Enclosed q body) (hq : q ≠ '\\') (d : Depth) (rest : List Char) :
    (Place.quoted q d).left (body ++ q :: rest) = (Place.plain d).left rest := by
  induction h with
  | nil => exact Place.left_cons (Place.quoted_step_quote hq) rest
  | char hc hcq _ ih => rw [List.cons_append, Place.left_cons (Place.quoted_step hc hcq), ih]
  | pair c _ ih =>
    rw [List.cons_append, Place.left_cons Place.quoted_step_backslash, List.cons_append,
      Place.left_cons rfl, ih]

theorem Unclosed.taken (h : Unclosed q s) (d : Depth) : (Place.quoted q d).taken s = s := by
  induction h with
  | nil => rfl
  | backslash => rw [Place.taken_cons Place.quoted_step_backslash, Place.taken]
  | char hc hcq _ ih => rw [Place.taken_cons (Place.quoted_step hc hcq), ih]
  | pair c _ ih => rw [Place.taken_cons Place.quoted_step_backslash, Place.taken_cons rfl, ih]

end

/-! ## Pairs -/

theorem pairsFrom_value (k v : List Char) (p : Place) (s : List Char) :
    pairsFrom (.value k v p) s =
      (String.ofList k, String.ofList (v.reverse ++ p.taken s)) ::
        pairsFrom (.key []) (p.left s).tail := by
  induction s generalizing v p with
  | nil => simp [pairsFrom, Place.taken, Place.left]
  | cons c s ih =>
    rw [pairsFrom, Place.taken, Place.left]
    cases p.step c with
    | some p' => simp [ih]
    | none => simp

theorem pairsFrom_key_append (k : List Char) {w : List Char}
    (hw : ∀ c ∈ w, isSpace c = false ∧ c ≠ '=') (s : List Char) :
    pairsFrom (.key k) (w ++ s) = pairsFrom (.key (w.reverse ++ k)) s := by
  induction w generalizing k with
  | nil => rfl
  | cons c w ih =>
    obtain ⟨hspace, hmark⟩ := hw c List.mem_cons_self
    rw [List.cons_append, pairsFrom]
    simp only [hspace, Bool.false_eq_true, if_false, beq_iff_eq, hmark]
    rw [ih (c :: k) fun d hd => hw d (List.mem_cons_of_mem c hd), List.reverse_cons,
      List.append_assoc]
    rfl

theorem pairsFrom_blanks {w : List Char} (hw : ∀ c ∈ w, isSpace c = true) (s : List Char) :
    pairsFrom (.key []) (w ++ s) = pairsFrom (.key []) s := by
  induction w with
  | nil => rfl
  | cons c w ih =>
    rw [List.cons_append, pairsFrom, if_pos (hw c List.mem_cons_self)]
    exact ih fun d hd => hw d (List.mem_cons_of_mem c hd)

/-- A pair at the front. -/
theorem pairsFrom_pair {k : List Char} (hk : ∀ c ∈ k, isSpace c = false ∧ c ≠ '=')
    (s : List Char) : pairsFrom (.key []) (k ++ '=' :: s) =
      (String.ofList k, String.ofList (Place.start.taken s)) ::
        pairsFrom (.key []) (Place.start.left s).tail := by
  have hmark : isSpace '=' = false := by decide
  rw [pairsFrom_key_append [] hk, List.append_nil, pairsFrom]
  simp only [hmark, Bool.false_eq_true, if_false, beq_self_eq_true, if_true, List.reverse_reverse]
  rw [pairsFrom_value]
  rfl

/-- A word without a mark. -/
theorem pairsFrom_word {k : List Char} (hk : ∀ c ∈ k, isSpace c = false ∧ c ≠ '=')
    (hc : isSpace c = true) (s : List Char) :
    pairsFrom (.key []) (k ++ c :: s) = pairsFrom (.key []) s := by
  rw [pairsFrom_key_append [] hk, pairsFrom, if_pos hc]

theorem pairsFrom_last {k : List Char} (hk : ∀ c ∈ k, isSpace c = false ∧ c ≠ '=') :
    pairsFrom (.key []) k = [] := by
  have h := pairsFrom_key_append [] hk []
  rw [List.append_nil] at h
  rw [h, pairsFrom]

/-! ## Elements -/

theorem elementsFrom_plain (v : List Char) (p : Place) (s : List Char) :
    elementsFrom (.plain v p) s =
      (elementsFrom .gap (p.left s).tail).map ((v.reverse ++ p.taken s) :: ·) := by
  induction s generalizing v p with
  | nil => simp [elementsFrom, Place.taken, Place.left]
  | cons c s ih =>
    rw [elementsFrom, Place.taken, Place.left]
    cases p.step c with
    | some p' => simp [ih]
    | none => simp

/-- An element that does not start with a quote. -/
theorem elementsFrom_value (hquote : isQuote c = false) (hspace : isSpace c = false)
    (s : List Char) : elementsFrom .gap (c :: s) =
      (elementsFrom .gap (Place.start.left (c :: s)).tail).map
        (Place.start.taken (c :: s) :: ·) := by
  rw [elementsFrom, Place.taken_cons (Place.start_step hquote hspace),
    Place.left_cons (Place.start_step hquote hspace)]
  simp only [hspace, hquote, Bool.false_eq_true, if_false]
  rw [elementsFrom_plain]
  rfl

theorem elementsFrom_blanks {w : List Char} (hw : ∀ c ∈ w, isSpace c = true) (s : List Char) :
    elementsFrom .gap (w ++ s) = elementsFrom .gap s := by
  induction w with
  | nil => rfl
  | cons c w ih =>
    rw [List.cons_append, elementsFrom, if_pos (hw c List.mem_cons_self)]
    exact ih fun d hd => hw d (List.mem_cons_of_mem c hd)

theorem elementsFrom_enclosed (h : Enclosed q body) (hq : q ≠ '\\') (v rest : List Char) :
    elementsFrom (.quoted q v) (body ++ q :: rest) =
      (elementsFrom .closed rest).map (unescape (v.reverse ++ body) :: ·) := by
  induction h generalizing v with
  | nil => simp [elementsFrom, hq]
  | char hc hcq _ ih => simp [elementsFrom, hc, hcq, ih]
  | pair c _ ih => simp [elementsFrom, ih]

theorem elementsFrom_unclosed (h : Unclosed q s) (v : List Char) :
    elementsFrom (.quoted q v) s = some [unfinished q (s.reverse ++ v)] := by
  induction h generalizing v with
  | nil => rfl
  | backslash => simp [elementsFrom]
  | char hc hcq _ ih => simp [elementsFrom, hc, hcq, ih]
  | pair c _ ih => simp [elementsFrom, ih]

theorem isSpace_of_isQuote (h : isQuote q = true) : isSpace q = false := by
  unfold isQuote at h
  rcases Bool.or_eq_true_iff.1 h with h | h <;> rw [beq_iff_eq.1 h] <;> decide

theorem isQuote_of_isSpace (h : isSpace c = true) : isQuote c = false :=
  Bool.eq_false_iff.2 fun hq => Bool.false_ne_true ((isSpace_of_isQuote hq).symm.trans h)

theorem ne_backslash_of_isQuote (h : isQuote q = true) : q ≠ '\\' := by
  rintro rfl
  cases h

/-- An element between quotes. -/
theorem elementsFrom_quoted (hq : isQuote q = true) (h : Enclosed q body) (rest : List Char) :
    elementsFrom .gap (q :: (body ++ q :: rest)) =
      (elementsFrom .closed rest).map (unescape body :: ·) := by
  rw [elementsFrom]
  simp only [isSpace_of_isQuote hq, hq, Bool.false_eq_true, if_false, if_true]
  exact elementsFrom_enclosed h (ne_backslash_of_isQuote hq) [] rest

/-- An element whose quote is never closed. -/
theorem elementsFrom_unfinished (hq : isQuote q = true) (h : Unclosed q s) :
    elementsFrom .gap (q :: s) = some [unfinished q s.reverse] := by
  rw [elementsFrom]
  simp only [isSpace_of_isQuote hq, hq, Bool.false_eq_true, if_false, if_true]
  rw [elementsFrom_unclosed h, List.append_nil]

end TraceExplorer.KeyValue
