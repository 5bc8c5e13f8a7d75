import TraceExplorer.Log.Normalized

/-
  Which records of a session a normalized log takes in, and what it does with each. `Consumed`
  says where a session is left for the next one: behind the operation during which the next one
  was first made. The cut is there (`consumed_cutBefore`), and so is the stop of one who reads the
  records one by one, with a call for a stop pending from that copy on (`readUntil_eq`). `Taken`
  lists what taking in one record can do (`taken_step`).
-/

namespace TraceExplorer

namespace Event

/-- The record of a machine's end. -/
def isEnd (e : Event) : Bool := (e.kind = .stop || e.kind = .other) && e.action = "End"

/-- The record has a row in the log of a session at `depth`. -/
def hasRow (depth : Nat) (e : Event) : Bool :=
  match e.kind with
  | .start => depth = 0
  | .preOp | .copy => false
  | .postOp | .stop | .other => true

/-- The record decides about an operation that was begun. -/
def settles (e : Event) : Bool := e.kind = .preOp || e.kind = .postOp || e.isEnd

theorem kind_ne_of_isEnd {e : Event} (h : e.isEnd = true) : e.kind ≠ .preOp ∧ e.kind ≠ .postOp := by
  constructor <;> intro hkind <;> simp [isEnd, hkind] at h

theorem hasRow_of_isEnd {e : Event} (h : e.isEnd = true) (depth : Nat) :
    e.hasRow depth = true := by
  obtain ⟨hstop, _⟩ | ⟨hother, _⟩ : e.kind = .stop ∧ e.action = "End" ∨
      e.kind = .other ∧ e.action = "End" := by simpa [isEnd, or_and_right] using h
  · rw [hasRow, hstop]
  · rw [hasRow, hother]

end Event

namespace NormalizedLog

/-! ## Where a session is left -/

/-- `Consumed next records taken rest`: a log that goes on with `next` takes in `taken` of the
    records and leaves `rest` out. -/
inductive Consumed : Option Entry → List Event → List Event → List Event → Prop
  | last {records : List Event} : Consumed none records records []
  | operation {next : Entry} {before during rest : List Event} {copy op : Event}
      (hbefore : ∀ f ∈ before, f.copiesTo next.id = false) (hcopy : copy.copiesTo next.id = true)
      (hduring : ∀ f ∈ during, f.kind ≠ .postOp) (hop : op.kind = .postOp) :
      Consumed (some next) (before ++ copy :: (during ++ op :: rest))
        (before ++ copy :: (during ++ [op])) rest
  | unfinished {next : Entry} {before during : List Event} {copy : Event}
      (hbefore : ∀ f ∈ before, f.copiesTo next.id = false) (hcopy : copy.copiesTo next.id = true)
      (hduring : ∀ f ∈ during, f.kind ≠ .postOp) :
      Consumed (some next) (before ++ copy :: during) (before ++ copy :: during) []
  | uncopied {next : Entry} {records : List Event}
      (h : ∀ f ∈ records, f.copiesTo next.id = false) : Consumed (some next) records records []

theorem Consumed.append_eq {next : Option Entry} {records taken rest : List Event}
    (h : Consumed next records taken rest) : records = taken ++ rest := by
  cases h with
  | operation => simp
  | last | unfinished | uncopied => rw [List.append_nil]

theorem cutAfter?_eq_some {α : Type} {p : α → Bool} {l front rest : List α}
    (h : cutAfter? p l = some (front, rest)) :
    ∃ before a, l = before ++ a :: rest ∧ front = before ++ [a] ∧ p a = true ∧
      ∀ b ∈ before, p b = false := by
  induction l generalizing front with
  | nil => cases h
  | cons b l ih =>
    unfold cutAfter? at h
    split at h
    · rename_i hb
      cases h
      exact ⟨[], b, rfl, rfl, hb, by simp⟩
    · rename_i hb
      obtain ⟨⟨front', rest'⟩, hcut, heq⟩ := Option.map_eq_some_iff.1 h
      cases heq
      obtain ⟨before, a, rfl, rfl, ha, hbefore⟩ := ih hcut
      refine ⟨b :: before, a, rfl, rfl, ha, fun c hc => ?_⟩
      rcases List.mem_cons.1 hc with rfl | hc
      · exact eq_false_of_ne_true hb
      · exact hbefore c hc

theorem cutAfter?_eq_none {α : Type} {p : α → Bool} {l : List α} (h : cutAfter? p l = none) :
    ∀ a ∈ l, p a = false := by
  induction l with
  | nil => simp
  | cons b l ih =>
    unfold cutAfter? at h
    split at h
    · cases h
    · rename_i hb
      intro a ha
      rcases List.mem_cons.1 ha with rfl | ha
      · exact eq_false_of_ne_true hb
      · exact ih (Option.map_eq_none_iff.1 h) a ha

theorem consumed_cutBefore (next : Option Entry) (records : List Event) :
    Consumed next records (cutBefore next records).1 (cutBefore next records).2 := by
  cases next with
  | none => exact .last
  | some next =>
    unfold cutBefore
    simp only [Option.bind_eq_bind, Option.bind_some]
    cases hcopy : cutAfter? (fun e : Event => e.copiesTo next.id) records with
    | none => exact .uncopied (cutAfter?_eq_none hcopy)
    | some cut =>
      obtain ⟨front, after⟩ := cut
      obtain ⟨before, copy, rfl, rfl, hc, hbefore⟩ := cutAfter?_eq_some hcopy
      simp only [Option.bind_some]
      cases hop : cutAfter? (fun e : Event => decide (e.kind = .postOp)) after with
      | none =>
        refine .unfinished hbefore hc fun f hf => ?_
        exact of_decide_eq_false (cutAfter?_eq_none hop f hf)
      | some cut =>
        obtain ⟨front, rest⟩ := cut
        obtain ⟨during, op, rfl, rfl, ho, hduring⟩ := cutAfter?_eq_some hop
        have hduring : ∀ f ∈ during, f.kind ≠ .postOp := fun f hf =>
          of_decide_eq_false (hduring f hf)
        have h : Consumed (some next) (before ++ copy :: (during ++ op :: rest))
            (before ++ copy :: (during ++ [op])) rest :=
          .operation hbefore hc hduring (of_decide_eq_true ho)
        simpa using h

namespace Draft

variable {depth : Nat} {row : Event → Row}

/-- Takes in records one by one. A copy that makes `next` calls for a stop, which is at the first
    operation finished after it; the records behind are left. -/
def readUntil (next : Option Entry) (depth : Nat) (row : Event → Row) (stop : Bool) (d : Draft) :
    List Event → Draft × List Event
  | [] => (d, [])
  | e :: records =>
    let d := d.step depth row e
    if stop && e.kind = .postOp then (d, records)
    else readUntil next depth row (stop || next.any fun child => e.copiesTo child.id) d records

theorem readUntil_of_not_copied {next : Option Entry} {records : List Event}
    (h : ∀ e ∈ records, (next.any fun child => e.copiesTo child.id) = false) (d : Draft)
    (more : List Event) : readUntil next depth row false d (records ++ more) =
      readUntil next depth row false (records.foldl (step depth row) d) more := by
  induction records generalizing d with
  | nil => rfl
  | cons e records ih =>
    rw [List.cons_append, readUntil, h e List.mem_cons_self]
    exact ih (fun f hf => h f (List.mem_cons_of_mem _ hf)) (d.step depth row e)

theorem readUntil_of_not_finished {next : Option Entry} {records : List Event}
    (h : ∀ e ∈ records, e.kind ≠ .postOp) (d : Draft) (more : List Event) :
    readUntil next depth row true d (records ++ more) =
      readUntil next depth row true (records.foldl (step depth row) d) more := by
  induction records generalizing d with
  | nil => rfl
  | cons e records ih =>
    rw [List.cons_append, readUntil, Bool.true_and, Bool.true_or,
      if_neg (by simpa using h e List.mem_cons_self)]
    exact ih (fun f hf => h f (List.mem_cons_of_mem _ hf)) (d.step depth row e)

theorem readUntil_all {next : Option Entry} {records : List Event}
    (h : ∀ e ∈ records, (next.any fun child => e.copiesTo child.id) = false) (d : Draft) :
    readUntil next depth row false d records = (records.foldl (step depth row) d, []) := by
  have hall : readUntil next depth row false d (records ++ []) =
      (records.foldl (step depth row) d, []) := readUntil_of_not_copied h d []
  rwa [List.append_nil] at hall

theorem readUntil_copy {next : Entry} {copy : Event} (hcopy : copy.copiesTo next.id = true)
    (d : Draft) (more : List Event) : readUntil (some next) depth row false d (copy :: more) =
      readUntil (some next) depth row true (d.step depth row copy) more := by
  rw [readUntil, Bool.false_and, if_neg Bool.false_ne_true, Bool.false_or, Option.any_some, hcopy]

/-- Who reads the records one by one takes in those before the cut. -/
theorem readUntil_of_consumed {next : Option Entry} {records taken rest : List Event}
    (h : Consumed next records taken rest) (d : Draft) :
    readUntil next depth row false d records = (taken.foldl (step depth row) d, rest) := by
  cases h with
  | last => exact readUntil_all (fun _ _ => rfl) d
  | uncopied hnone => exact readUntil_all hnone d
  | @unfinished next before during copy hbefore hcopy hduring =>
    have hcalled : readUntil (some next) depth row true
        ((before ++ [copy]).foldl (step depth row) d) (during ++ []) =
          (during.foldl (step depth row) ((before ++ [copy]).foldl (step depth row) d), []) :=
      readUntil_of_not_finished hduring _ []
    rw [readUntil_of_not_copied hbefore, readUntil_copy hcopy]
    simpa using hcalled
  | operation hbefore hcopy hduring hop =>
    rw [readUntil_of_not_copied hbefore, readUntil_copy hcopy,
      readUntil_of_not_finished hduring, readUntil, hop]
    simp

theorem readUntil_eq (next : Option Entry) (d : Draft) (records : List Event) :
    readUntil next depth row false d records =
      ((cutBefore next records).1.foldl (step depth row) d, (cutBefore next records).2) :=
  readUntil_of_consumed (consumed_cutBefore next records) d

/-! ## What taking in a record does -/

/-- The draft after taking in the record `e`. -/
inductive Taken (depth : Nat) (row : Event → Row) (d : Draft) (e : Event) : Draft → Prop
  | start (hkind : e.kind = .start) (hdepth : depth ≠ 0) : Taken depth row d e d
  | preOp (hkind : e.kind = .preOp) : Taken depth row d e { d.dropPre with pre := some e }
  | copy (hkind : e.kind = .copy) : Taken depth row d e { d with copy := some e.extra }
  | postOp (hkind : e.kind = .postOp) :
      Taken depth row d e ({ d with pre := none, copy := none }.addOp row (merge e d.pre d.copy))
  | stop (hend : e.isEnd = true) : Taken depth row d e (d.addEnd row e)
  | plain (hrow : e.hasRow depth = true) (hkind : e.kind ≠ .postOp) (hend : e.isEnd = false) :
      Taken depth row d e (d.push (row e) d.spans.depth)

theorem taken_step (depth : Nat) (row : Event → Row) (d : Draft) (e : Event) :
    Taken depth row d e (d.step depth row e) := by
  unfold step
  cases hkind : e.kind with
  | start =>
    by_cases hdepth : depth = 0
    · simp only [if_pos hdepth]
      exact .plain (by simp [Event.hasRow, hkind, hdepth]) (by simp [hkind])
        (by simp [Event.isEnd, hkind])
    · simp only [if_neg hdepth]
      exact .start hkind hdepth
  | preOp => exact .preOp hkind
  | copy => exact .copy hkind
  | postOp => exact .postOp hkind
  | stop | other =>
    by_cases haction : e.action = "End"
    · simp only [if_pos haction]
      exact .stop (by simp [Event.isEnd, hkind, haction])
    · simp only [if_neg haction]
      exact .plain (by simp [Event.hasRow, hkind]) (by simp [hkind])
        (by simp [Event.isEnd, haction])

end Draft

end NormalizedLog

end TraceExplorer
