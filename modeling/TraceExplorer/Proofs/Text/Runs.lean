import TraceExplorer.Text.Basic

/-
  Runs of characters of one kind. A run at the front of a text is taken off whole, and nothing
  more with it, if the text does not go on with a character of the kind; so is a run at the end.
-/

namespace TraceExplorer.Text

variable {p : Char → Bool} {run rest s : List Char}

theorem takeWhile_run (hrun : ∀ c ∈ run, p c = true) (hrest : ∀ c ∈ rest.head?, p c = false) :
    (run ++ rest).takeWhile p = run := by
  rw [List.takeWhile_append_of_pos hrun]
  cases rest with
  | nil => exact List.append_nil run
  | cons c rest => rw [List.takeWhile_cons, hrest c rfl, if_neg Bool.false_ne_true, List.append_nil]

theorem dropWhile_run (hrun : ∀ c ∈ run, p c = true) (hrest : ∀ c ∈ rest.head?, p c = false) :
    (run ++ rest).dropWhile p = rest := by
  rw [List.dropWhile_append_of_pos hrun]
  cases rest with
  | nil => rfl
  | cons c rest => rw [List.dropWhile_cons, hrest c rfl, if_neg Bool.false_ne_true]

theorem dropEndWhile_run (hrun : ∀ c ∈ run, p c = true) (hs : ∀ c ∈ s.getLast?, p c = false) :
    dropEndWhile p (s ++ run) = s := by
  unfold dropEndWhile
  rw [List.reverse_append, dropWhile_run, List.reverse_reverse]
  · exact fun c hc => hrun c (List.mem_reverse.1 hc)
  · rwa [List.head?_reverse]

theorem dropEndWhile_self (hs : ∀ c ∈ s.getLast?, p c = false) : dropEndWhile p s = s := by
  have h : dropEndWhile p (s ++ []) = s := dropEndWhile_run (fun _ hc => nomatch hc) hs
  rwa [List.append_nil] at h

end TraceExplorer.Text
