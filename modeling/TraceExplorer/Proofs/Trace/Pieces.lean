import TraceExplorer.Proofs.MachineId.Canonical
import TraceExplorer.Trace.Line
import Mathlib.Data.List.Infix

/-
  The pieces of a line, read off texts that are put together from them: a run of characters of
  one kind, a header with or without a place in front of it, a mark, and the last address that
  follows a space, where a record is cut (`cutAtIp?_gap`). Spaces in any number stand between.
-/

namespace TraceExplorer.Trace

open CharClass (isBlank isDecimalDigit isWord)

variable {p q : Char → Bool} {run rest s t front before ds after : List Char} {c : Char}

/-! ## Runs of characters -/

/-- One or more characters of `p`, and no others. -/
def Filled (p : Char → Bool) (s : List Char) : Prop := s ≠ [] ∧ ∀ c ∈ s, p c = true

instance : Decidable (Filled p s) :=
  decidable_of_iff (s ≠ [] ∧ s.all p = true) (and_congr_right' List.all_eq_true)

theorem isSpace_iff : isSpace c = true ↔ c = ' ' := by
  unfold isSpace
  exact beq_iff_eq

/-- What holds of the space holds of all spaces. -/
theorem of_isSpace {b : Bool} (hp : p ' ' = b) (h : isSpace c = true) : p c = b := by
  rw [isSpace_iff.1 h, hp]

theorem isSpace_eq_false (hp : p ' ' = false) (h : p c = true) : isSpace c = false := by
  rw [Bool.eq_false_iff]
  intro hspace
  rw [of_isSpace hp hspace] at h
  cases h

theorem isBlank_of_isSpace (h : isSpace c = true) : isBlank c = true := of_isSpace (by decide) h

theorem isSpace_of_isBlank (h : isBlank c = false) : isSpace c = false := by
  rw [Bool.eq_false_iff] at h ⊢
  exact mt isBlank_of_isSpace h

theorem not_mem_of_forall (hp : p c = false) (hs : ∀ d ∈ s, p d = true) : c ∉ s := by
  intro hmem
  rw [hs c hmem] at hp
  cases hp

theorem Filled.head? (h : Filled p run) (ht : ∀ c, p c = true → q c = false) :
    ∀ c ∈ (run ++ t).head?, q c = false := by
  intro c hc
  rw [List.head?_append_of_ne_nil _ h.1] at hc
  exact ht c (h.2 c (List.mem_of_mem_head? hc))

theorem filled_of_writes {n : UInt64} (h : Number.Writes s n) : Filled isDecimalDigit s :=
  ⟨h.ne_nil, fun c hc => CharClass.isDecimalDigit_of_isDigit (h.digits c hc)⟩

theorem skip?_run (hrun : Filled p run) (hrest : ∀ c ∈ rest.head?, p c = false) :
    skip? p (run ++ rest) = some rest := by
  obtain ⟨hne, hall⟩ := hrun
  have hdrop := Text.dropWhile_run hall hrest
  cases run with
  | nil => exact absurd rfl hne
  | cons c run =>
    have hc : p c = true := hall c List.mem_cons_self
    rw [List.cons_append, List.dropWhile_cons_of_pos hc] at hdrop
    rw [List.cons_append, skip?, if_pos hc, hdrop]

/-! ## The last address -/

/-- An address `@0x…` at the front. -/
def StartsAddress (s : List Char) : Prop :=
  ∃ c, c.isAlphanum = true ∧ ['@', '0', 'x', c] <+: s

/-- An address right after a space. -/
def HasAddress (s : List Char) : Prop :=
  ∃ c, c.isAlphanum = true ∧ [' ', '@', '0', 'x', c] <:+: s

instance : Decidable (StartsAddress s) :=
  decidable_of_iff
    (s.any (fun c => c.isAlphanum && decide (['@', '0', 'x', c] <+: s)) = true) <| by
    simp only [List.any_eq_true, Bool.and_eq_true, decide_eq_true_eq]
    exact ⟨fun ⟨c, _, h⟩ => ⟨c, h⟩, fun ⟨c, h⟩ => ⟨c, h.2.subset (by simp), h⟩⟩

instance : Decidable (HasAddress s) :=
  decidable_of_iff
    (s.any (fun c => c.isAlphanum && decide ([' ', '@', '0', 'x', c] <:+: s)) = true) <| by
    simp only [List.any_eq_true, Bool.and_eq_true, decide_eq_true_eq]
    exact ⟨fun ⟨c, _, h⟩ => ⟨c, h⟩, fun ⟨c, h⟩ => ⟨c, h.2.subset (by simp), h⟩⟩

theorem ipHere?_eq_none (h : ¬ StartsAddress s) : ipHere? s = none := by
  unfold ipHere?
  split
  · rename_i t
    cases t with
    | nil => rfl
    | cons c t =>
      have hc : ¬ c.isAlphanum = true := fun hc => h ⟨c, hc, t, rfl⟩
      rw [List.takeWhile_cons_of_neg hc]
      rfl
  · rfl

theorem ipHere?_run (hrun : Filled Char.isAlphanum run)
    (hrest : ∀ c ∈ rest.head?, c.isAlphanum = false) :
    ipHere? ('@' :: '0' :: 'x' :: (run ++ rest)) = some (run, rest) := by
  have hne : run.isEmpty = false := List.isEmpty_eq_false_iff.2 hrun.1
  unfold ipHere?
  simp only [Text.takeWhile_run hrun.2 hrest, Text.dropWhile_run hrun.2 hrest, hne,
    Bool.false_eq_true, if_false]

theorem cutAtIp?_eq_none (h : ¬ HasAddress s) : cutAtIp? s = none := by
  induction s with
  | nil => rfl
  | cons c s ih =>
    have hs : ¬ HasAddress s := by
      rintro ⟨d, hd, hinfix⟩
      exact h ⟨d, hd, hinfix.trans (List.suffix_cons c s).isInfix⟩
    rw [cutAtIp?, ih hs]
    dsimp only
    split
    · rename_i hc
      obtain rfl := isSpace_iff.1 hc
      have hstart : ¬ StartsAddress s := by
        rintro ⟨d, hd, hprefix⟩
        exact h ⟨d, hd, ((List.prefix_cons_inj ' ').2 hprefix).isInfix⟩
      rw [ipHere?_eq_none hstart, Option.map_none]
    · rfl

/-- What stands in front of the last address does not matter, be it an address itself. -/
theorem cutAtIp?_append (front : List Char) (h : cutAtIp? s = some (before, ds, after)) :
    cutAtIp? (front ++ s) = some (front ++ before, ds, after) := by
  induction front with
  | nil => exact h
  | cons c front ih => rw [List.cons_append, cutAtIp?, ih, List.cons_append]

theorem cutAtIp?_append_eq_none (hfront : ∀ c ∈ front, isSpace c = false)
    (h : cutAtIp? s = none) : cutAtIp? (front ++ s) = none := by
  induction front with
  | nil => exact h
  | cons c front ih =>
    have hc : isSpace c = false := hfront c List.mem_cons_self
    rw [List.cons_append, cutAtIp?, ih fun d hd => hfront d (List.mem_cons_of_mem c hd)]
    simp only [hc, Bool.false_eq_true, if_false]

theorem cutAtIp?_spaces_eq_none (hrun : ∀ c ∈ run, isSpace c = true)
    (hstart : ipHere? s = none) (h : cutAtIp? s = none) : cutAtIp? (run ++ s) = none := by
  induction run with
  | nil => exact h
  | cons c run ih =>
    have hrun' : ∀ d ∈ run, isSpace d = true := fun d hd => hrun d (List.mem_cons_of_mem c hd)
    have hnext : ipHere? (run ++ s) = none := by
      cases run with
      | nil => exact hstart
      | cons d run =>
        obtain rfl := isSpace_iff.1 (hrun' d List.mem_cons_self)
        rfl
    rw [List.cons_append, cutAtIp?, ih hrun', hnext, Option.map_none, ite_self]

/-- A text is cut at the last of the spaces in front of its last address. -/
theorem cutAtIp?_gap (front : List Char) (hgap : Filled isSpace run)
    (hip : ipHere? s = some (ds, after)) (hnone : cutAtIp? s = none) :
    ∃ spaces, (∀ c ∈ spaces, isSpace c = true) ∧
      cutAtIp? (front ++ (run ++ s)) = some (front ++ spaces, ds, after) := by
  obtain ⟨hne, hall⟩ := hgap
  obtain ⟨spaces, c, rfl⟩ : ∃ spaces c, run = spaces ++ [c] :=
    ⟨run.dropLast, run.getLast hne, (List.dropLast_concat_getLast hne).symm⟩
  have hc : isSpace c = true := hall c (by simp)
  -- Only the last space belongs to the address; the others stay with what is in front.
  have hlast : cutAtIp? (c :: s) = some ([], ds, after) := by
    rw [cutAtIp?, hnone]
    simp only [hc, hip, if_true, Option.map_some]
  refine ⟨spaces, fun d hd => hall d (List.mem_append_left [c] hd), ?_⟩
  have h := cutAtIp?_append (front ++ spaces) hlast
  rw [List.append_nil, List.append_assoc] at h
  rw [List.append_assoc]
  exact h

/-! ## Headers -/

/-- The text is a place in a program, `file.ext:12:`, and the spaces behind it. -/
def Placed (s : List Char) : Prop :=
  ∃ file ext digits gap, s = file ++ '.' :: (ext ++ ':' :: (digits ++ ':' :: gap)) ∧
    Filled isWord file ∧ Filled isWord ext ∧ Filled isDecimalDigit digits ∧ Filled isSpace gap

theorem skip?_run_cons (hrun : Filled p run) (hc : p c = false) :
    skip? p (run ++ c :: rest) = some (c :: rest) :=
  skip?_run hrun fun d hd => by rwa [← Option.some.inj hd]

theorem headerHere?_written {id : MachineId} (hs : MachineId.Written s id)
    (hrun : Filled isSpace run) (hc : isSpace c = false) :
    ∃ x, headerHere? (s ++ (run ++ c :: rest)) = some ⟨x, c :: rest⟩ ∧ x.id? = some id := by
  obtain ⟨root, parent, mach, rfl, hroot, hparent, hmach⟩ := hs
  refine ⟨⟨root, parent, mach, run ++ c :: rest⟩, ?_,
    MachineId.Shape.id?_eq_some_iff.2 ⟨hroot, hparent, hmach⟩⟩
  unfold headerHere?
  simp only [List.append_assoc, List.cons_append, List.nil_append,
    MachineId.shape?_written hroot hparent hmach, Option.bind_some, skip?_run_cons hrun hc]
  rfl

/-- Behind the digits that a word starts with there is no bracket. -/
theorem dropWhile_word_ne (hrun : ∀ c ∈ run, isWord c = true) :
    (run ++ '.' :: rest).dropWhile isDecimalDigit ≠ '(' :: t := by
  induction run with
  | nil =>
    have hdot : ¬ isDecimalDigit '.' = true := by decide
    rw [List.nil_append, List.dropWhile_cons_of_neg hdot]
    intro h
    exact absurd (List.cons.inj h).1 (by decide)
  | cons c run ih =>
    rw [List.cons_append, List.dropWhile_cons]
    split
    · exact ih fun d hd => hrun d (List.mem_cons_of_mem c hd)
    · intro h
      obtain rfl := (List.cons.inj h).1
      have hbracket : isWord '(' = false := by decide
      exact not_mem_of_forall hbracket hrun List.mem_cons_self

theorem Placed.newline_not_mem (h : Placed s) : '\n' ∉ s := by
  obtain ⟨file, ext, digits, gap, rfl, hfile, hext, hdigits, hgap⟩ := h
  have hword : isWord '\n' = false := by decide
  have hdigit : isDecimalDigit '\n' = false := by decide
  have hspace : isSpace '\n' = false := by decide
  simp [not_mem_of_forall hword hfile.2, not_mem_of_forall hword hext.2,
    not_mem_of_forall hdigit hdigits.2, not_mem_of_forall hspace hgap.2]

theorem Placed.shape?_eq_none (h : Placed s) : MachineId.shape? (s ++ rest) = none := by
  obtain ⟨file, ext, digits, gap, rfl, hfile, -⟩ := h
  unfold MachineId.shape?
  split
  · rename_i hrun
    unfold MachineId.digitRun? at hrun
    dsimp only at hrun
    split at hrun
    · cases hrun
    · rw [List.append_assoc] at hrun
      exact absurd (Prod.mk.inj (Option.some.inj hrun)).2 (dropWhile_word_ne hfile.2)
  · rfl

theorem Placed.skipPlace?_eq (h : Placed s) (hrest : ∀ c ∈ rest.head?, isSpace c = false) :
    skipPlace? (s ++ rest) = some rest := by
  obtain ⟨file, ext, digits, gap, rfl, hfile, hext, hdigits, hgap⟩ := h
  have hdot : isWord '.' = false := by decide
  have hcolon : isWord ':' = false := by decide
  have hend : isDecimalDigit ':' = false := by decide
  unfold skipPlace?
  simp only [List.append_assoc, List.cons_append, skip?_run_cons hfile hdot,
    skip?_run_cons hext hcolon, skip?_run_cons hdigits hend, skip?_run hgap hrest]

theorem Placed.header?_eq {x : Header} (h : Placed s) (hrest : ∀ c ∈ rest.head?, isSpace c = false)
    (hx : headerHere? rest = some x) : header? (s ++ rest) = some x := by
  have hhere : headerHere? (s ++ rest) = none := by
    rw [headerHere?, h.shape?_eq_none, Option.bind_none]
  have hplaced : (skipPlace? (s ++ rest)).bind headerHere? = some x := by
    rw [h.skipPlace?_eq hrest, Option.bind_some, hx]
  unfold header?
  rw [hhere]
  cases hs : s ++ rest with
  | nil =>
    rw [hs] at hplaced
    cases hplaced
  | cons c t =>
    rw [hs] at hplaced
    dsimp only
    rw [placedHeader?, hplaced]

/-! ## Marks -/

def Mark.text : Mark → String
  | .pre => ">>>"
  | .post => "..."
  | .copy => "+++"
  | .frame => "==="

theorem takeMark_eq_none (h : ∀ m : Mark, ¬ m.text.toList <+: s) : takeMark s = (none, s) := by
  unfold takeMark
  split
  · exact absurd ⟨_, rfl⟩ (h .pre)
  · exact absurd ⟨_, rfl⟩ (h .post)
  · exact absurd ⟨_, rfl⟩ (h .copy)
  · exact absurd ⟨_, rfl⟩ (h .frame)
  · rfl

theorem takeMark_text (m : Mark) (s : List Char) :
    takeMark (m.text.toList ++ s) = (some m, Text.trimStart s) := by
  cases m <;> rfl

end TraceExplorer.Trace
