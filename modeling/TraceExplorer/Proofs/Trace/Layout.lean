import TraceExplorer.Proofs.Address
import TraceExplorer.Proofs.KeyValue.Splits
import TraceExplorer.Proofs.Number.Hexadecimal
import TraceExplorer.Proofs.Trace.Line
import TraceExplorer.Proofs.Trace.Pieces
import TraceExplorer.Proofs.Trace.Story

/-
  Records as they are written. A `Layout` puts a record into a line, with or without a place in
  front, with numbers that may have zeros in front and with spaces in any number. The line of a
  plain record is read as the record (`ofString_chars`): no address stands behind its own
  (`cutAtIp?_address`), so the line is cut there. Taken in, the record is the last one of its
  session (`Layout.enters`).
-/

namespace TraceExplorer.Trace

open CharClass (isBlank isDecimalDigit isWord)

/-! ## Records and lines -/

/-- There is no white space at either end. -/
def Trimmed (s : List Char) : Prop :=
  (∀ c ∈ s.head?, isBlank c = false) ∧ ∀ c ∈ s.getLast?, isBlank c = false

instance (s : List Char) : Decidable (Trimmed s) :=
  decidable_of_iff (s.head?.all (! isBlank ·) = true ∧ s.getLast?.all (! isBlank ·) = true) <| by
    simp only [Trimmed, Option.all_eq_true, Bool.not_eq_true', Option.mem_def]

/-- The action and the tail of the record fit into a line, and are told apart from what stands
around them. -/
structure Record.Plain (r : Record) : Prop where
  action_ne : r.action ≠ ""
  action_line : '\n' ∉ r.action.toList
  action_trimmed : Trimmed r.action.toList
  action_mark : ∀ m : Mark, ¬ m.text.toList <+: r.action.toList
  tail_line : '\n' ∉ r.tail.toList
  tail_trimmed : Trimmed r.tail.toList
  tail_start : ¬ StartsAddress r.tail.toList
  tail_address : ¬ HasAddress r.tail.toList

theorem Record.Plain.toList_ne {r : Record} (hr : r.Plain) : r.action.toList ≠ [] :=
  fun h => hr.action_ne (String.toList_eq_nil_iff.1 h)

/-- What a line has besides the record itself, and how it writes the numbers. -/
structure Layout where
  place : List Char
  id : List Char
  beforeSign : List Char
  beforeCount : List Char
  count : List Char
  behindCount : List Char
  behindMark : List Char
  beforeIp : List Char
  ip : List Char
  beforeTail : List Char

namespace Layout

/-- The action with the mark in front. -/
def marked (l : Layout) (r : Record) : List Char :=
  match r.mark with
  | some m => m.text.toList ++ (l.behindMark ++ r.action.toList)
  | none => r.action.toList

/-- The tail with the spaces in front, if there is one. -/
def tailed (l : Layout) (r : Record) : List Char :=
  if r.tail = "" then [] else l.beforeTail ++ r.tail.toList

def address (l : Layout) (r : Record) : List Char := '@' :: '0' :: 'x' :: (l.ip ++ l.tailed r)

def body (l : Layout) (r : Record) : List Char :=
  l.beforeCount ++ (l.count ++ (l.behindCount ++ (l.marked r ++ (l.beforeIp ++ l.address r))))

/-- The line. -/
def chars (l : Layout) (r : Record) : List Char :=
  l.place ++ (l.id ++ (l.beforeSign ++ '#' :: l.body r))

/-- The layout writes a record of `id`. Only behind a mark there may be no space. -/
structure Fits (l : Layout) (id : MachineId) (r : Record) : Prop where
  place : l.place = [] ∨ Placed l.place
  id : MachineId.Written l.id id
  beforeSign : Filled isSpace l.beforeSign
  beforeCount : Filled isSpace l.beforeCount
  count : Number.Writes l.count r.count
  behindCount : Filled isSpace l.behindCount
  behindMark : ∀ c ∈ l.behindMark, isSpace c = true
  beforeIp : Filled isSpace l.beforeIp
  ip : Number.WritesHex l.ip r.ip
  beforeTail : Filled isSpace l.beforeTail

end Layout

/-- What a mark makes of a record with the action. -/
inductive Stands (action : String) : Option Mark → EventKind → Prop where
  | pre : Stands action (some .pre) .preOp
  | post : Stands action (some .post) .postOp
  | copy : Stands action (some .copy) .copy
  | start (h : action = "Begin") : Stands action (some .frame) .start
  | stop (h : action = "End") : Stands action (some .frame) .stop
  | frame (hstart : action ≠ "Begin") (hstop : action ≠ "End") :
      Stands action (some .frame) .other
  | unmarked : Stands action none .other

theorem Record.stands_kind (r : Record) : Stands r.action r.mark r.kind := by
  unfold kind
  cases r.mark with
  | none => exact .unmarked
  | some m =>
    cases m with
    | pre => exact .pre
    | post => exact .post
    | copy => exact .copy
    | frame =>
      dsimp only
      split
      · exact .start ‹_›
      · split
        · exact .stop ‹_›
        · exact .frame ‹_› ‹_›

/-! ## Lines of a layout -/

namespace Layout

variable {l : Layout} {id : MachineId} {r : Record}

theorem takeMark_marked (h : l.Fits id r) (hr : r.Plain) :
    takeMark (l.marked r) = (r.mark, r.action.toList) := by
  unfold marked
  cases hmark : r.mark with
  | none => exact takeMark_eq_none hr.action_mark
  | some m =>
    have hspaces : ∀ c ∈ l.behindMark, isBlank c = true := fun c hc =>
      isBlank_of_isSpace (h.behindMark c hc)
    dsimp only
    rw [takeMark_text, Text.trimStart, Text.dropWhile_run hspaces hr.action_trimmed.1]

theorem head?_marked (hr : r.Plain) (s : List Char) :
    ∀ c ∈ (l.marked r ++ s).head?, isSpace c = false := by
  intro c hc
  unfold marked at hc
  cases hmark : r.mark with
  | none =>
    rw [hmark, List.head?_append_of_ne_nil _ hr.toList_ne] at hc
    exact isSpace_of_isBlank (hr.action_trimmed.1 c hc)
  | some m =>
    rw [hmark] at hc
    cases m <;>
    · obtain rfl := Option.some.inj hc
      rfl

theorem getLast?_marked (hr : r.Plain) : ∀ c ∈ (l.marked r).getLast?, isBlank c = false := by
  have hne := hr.toList_ne
  unfold marked
  cases r.mark with
  | none => exact hr.action_trimmed.2
  | some m =>
    dsimp only
    rw [← List.append_assoc, List.getLast?_append_of_ne_nil _ hne]
    exact hr.action_trimmed.2

theorem head?_tailed (h : l.Fits id r) : ∀ c ∈ (l.tailed r).head?, c.isAlphanum = false := by
  unfold tailed
  split
  · nofun
  · exact h.beforeTail.head? fun c => of_isSpace rfl

theorem ipHere?_address (h : l.Fits id r) :
    ipHere? (l.address r) = some (l.ip, l.tailed r) :=
  ipHere?_run ⟨h.ip.ne_nil, h.ip.isAlphanum⟩ (head?_tailed h)

/-- No address follows that of the record. -/
theorem cutAtIp?_address (h : l.Fits id r) (hr : r.Plain) : cutAtIp? (l.address r) = none := by
  have hfront : ∀ c ∈ '@' :: '0' :: 'x' :: l.ip, isSpace c = false := by
    intro c hc
    simp only [List.mem_cons] at hc
    obtain rfl | rfl | rfl | hc := hc
    · rfl
    · rfl
    · rfl
    · exact isSpace_eq_false rfl (h.ip.isAlphanum c hc)
  refine cutAtIp?_append_eq_none hfront ?_
  unfold tailed
  split
  · rfl
  · exact cutAtIp?_spaces_eq_none h.beforeTail.2 (ipHere?_eq_none hr.tail_start)
      (cutAtIp?_eq_none hr.tail_address)

theorem tail_tailed (h : l.Fits id r) (hr : r.Plain) :
    (if (l.tailed r).head?.any isSpace then String.ofList ((l.tailed r).dropWhile isSpace)
      else "") = r.tail := by
  unfold tailed
  split
  · rename_i htail
    exact htail.symm
  · have hhead : ∀ c ∈ r.tail.toList.head?, isSpace c = false := fun c hc =>
      isSpace_of_isBlank (hr.tail_trimmed.1 c hc)
    have hspace : (l.beforeTail ++ r.tail.toList).head?.any isSpace = true := by
      obtain ⟨c, s, hs⟩ := List.exists_cons_of_ne_nil h.beforeTail.1
      have hc : isSpace c = true := h.beforeTail.2 c (hs ▸ List.mem_cons_self)
      rw [hs, List.cons_append, List.head?_cons, Option.any_some, hc]
    rw [if_pos hspace, Text.dropWhile_run h.beforeTail.2 hhead, String.ofList_toList]

theorem ofParts_eq {spaces : List Char} (h : l.Fits id r) (hr : r.Plain)
    (hspaces : ∀ c ∈ spaces, isSpace c = true) :
    Record.ofParts l.count (l.marked r ++ spaces) l.ip (l.tailed r) = r := by
  have htrim : Text.trimEnd (l.marked r ++ spaces) = l.marked r :=
    Text.dropEndWhile_run (fun c hc => isBlank_of_isSpace (hspaces c hc)) (getLast?_marked hr)
  have hcount : countOf l.count = r.count := by
    rw [countOf, Number.wordDigits?_eq_some_iff.2 h.count, Option.getD_some]
  have hip : ipOf l.ip = r.ip := by rw [ipOf, h.ip.word_eq, Option.getD_some]
  have haction : Text.trim r.action.toList = r.action.toList :=
    Text.trim_eq hr.action_trimmed.1 hr.action_trimmed.2
  unfold Record.ofParts
  simp only [htrim, takeMark_marked h hr, hcount, hip, haction, tail_tailed h hr,
    String.ofList_toList]

theorem recordBehind?_body (h : l.Fits id r) (hr : r.Plain) :
    recordBehind? (l.body r) = some r := by
  have hcount : Filled isDecimalDigit l.count := filled_of_writes h.count
  have hspace : isDecimalDigit ' ' = false := by decide
  have hcountEnd : ∀ s, ∀ c ∈ (l.behindCount ++ s).head?, isDecimalDigit c = false := fun s =>
    h.behindCount.head? fun c => of_isSpace hspace
  have hnonempty : l.behindCount.isEmpty = false := List.isEmpty_eq_false_iff.2 h.behindCount.1
  obtain ⟨spaces, hspaces, hcut⟩ := cutAtIp?_gap (l.marked r) h.beforeIp (ipHere?_address h)
    (cutAtIp?_address h hr)
  unfold recordBehind? body
  simp only [skip?_run h.beforeCount (hcount.head? fun c => isSpace_eq_false hspace),
    Option.bind_some, skip?_run hcount (hcountEnd _), Text.takeWhile_run hcount.2 (hcountEnd _),
    Text.takeWhile_run h.behindCount.2 (head?_marked hr _),
    Text.dropWhile_run h.behindCount.2 (head?_marked hr _),
    hnonempty, Bool.false_eq_true, if_false, hcut, ofParts_eq h hr hspaces]

theorem record?_body (h : l.Fits id r) (hr : r.Plain) :
    record? ('#' :: l.body r) = some r := by
  rw [record?, if_pos (beq_self_eq_true '#'), recordBehind?_body h hr]

theorem header?_chars (h : l.Fits id r) :
    ∃ x, header? (l.chars r) = some ⟨x, '#' :: l.body r⟩ ∧ x.id? = some id := by
  obtain ⟨x, hx, hid⟩ : ∃ x, headerHere? (l.id ++ (l.beforeSign ++ '#' :: l.body r)) =
      some ⟨x, '#' :: l.body r⟩ ∧ x.id? = some id :=
    headerHere?_written h.id h.beforeSign (by decide)
  refine ⟨x, ?_, hid⟩
  unfold chars
  rcases h.place with hplace | hplace
  · rw [hplace, List.nil_append, header?, hx]
  · refine hplace.header?_eq ?_ hx
    obtain ⟨root, parent, mach, hs, hroot, -⟩ := h.id
    rw [hs, List.append_assoc]
    exact (filled_of_writes hroot).head? fun c => isSpace_eq_false (by decide)

theorem getLast?_chars (h : l.Fits id r) (hr : r.Plain) :
    ∀ c ∈ (l.chars r).getLast?, (c == ' ' || c == '\r' || c == '\n') = false := by
  have hend : ∀ c : Char, (c == ' ' || c == '\r' || c == '\n') = true →
      isBlank c = true ∧ c.isAlphanum = false := by
    intro c hc
    simp only [Bool.or_eq_true, beq_iff_eq] at hc
    rcases hc with (rfl | rfl) | rfl <;> decide
  obtain ⟨front, hfront⟩ : ∃ front, l.chars r = front ++ (l.ip ++ l.tailed r) :=
    ⟨l.place ++ l.id ++ l.beforeSign ++ '#' :: l.beforeCount ++ l.count ++ l.behindCount
      ++ l.marked r ++ l.beforeIp ++ ['@', '0', 'x'], by simp [chars, body, address]⟩
  intro c hc
  rw [hfront, ← List.append_assoc] at hc
  rw [Bool.eq_false_iff]
  intro hcend
  obtain ⟨hblank, halnum⟩ := hend c hcend
  -- The line ends in the tail, or in the address if there is none.
  unfold tailed at hc
  split at hc
  · rw [List.append_nil, List.getLast?_append_of_ne_nil _ h.ip.ne_nil] at hc
    rw [h.ip.isAlphanum c (List.mem_of_getLast? hc)] at halnum
    cases halnum
  · rename_i htail
    have hne : r.tail.toList ≠ [] := fun hnil => htail (String.toList_eq_nil_iff.1 hnil)
    rw [← List.append_assoc, List.getLast?_append_of_ne_nil _ hne] at hc
    rw [hr.tail_trimmed.2 c hc] at hblank
    cases hblank

theorem newline_not_mem_marked (h : l.Fits id r) (hr : r.Plain) : '\n' ∉ l.marked r := by
  unfold marked
  cases r.mark with
  | none => exact hr.action_line
  | some m =>
    have hmark : '\n' ∉ m.text.toList := by cases m <;> decide
    have hspace : isSpace '\n' = false := by decide
    simp [hmark, not_mem_of_forall hspace h.behindMark, hr.action_line]

theorem newline_not_mem_chars (h : l.Fits id r) (hr : r.Plain) : '\n' ∉ l.chars r := by
  have hspaces : ∀ s : List Char, Filled isSpace s → '\n' ∉ s := fun s hs =>
    not_mem_of_forall (by decide) hs.2
  have hdigits : ∀ (s : List Char) (n : UInt64), Number.Writes s n → '\n' ∉ s := fun s n hs =>
    not_mem_of_forall (by decide) hs.digits
  have hplace : '\n' ∉ l.place := by
    rcases h.place with hnil | hplaced
    · rw [hnil]
      exact List.not_mem_nil
    · exact hplaced.newline_not_mem
  have hid : '\n' ∉ l.id := by
    obtain ⟨root, parent, mach, hs, hroot, hparent, hmach⟩ := h.id
    rw [hs]
    simp [hdigits root _ hroot, hdigits parent _ hparent, hdigits mach _ hmach]
  have hip : '\n' ∉ l.ip := not_mem_of_forall (by decide) h.ip.isAlphanum
  have htailed : '\n' ∉ l.tailed r := by
    unfold tailed
    split
    · exact List.not_mem_nil
    · simp [hspaces _ h.beforeTail, hr.tail_line]
  unfold chars body address
  simp [hplace, hid, hspaces _ h.beforeSign, hspaces _ h.beforeCount, hdigits _ _ h.count,
    hspaces _ h.behindCount, newline_not_mem_marked h hr, hspaces _ h.beforeIp, hip, htailed]

/-- The line of a plain record is read as the record. -/
theorem ofString_chars (h : l.Fits id r) (hr : r.Plain) :
    Line.ofString (String.ofList (l.chars r)) = .record id r := by
  have htrimmed : Line.trimmed (String.ofList (l.chars r)) = l.chars r := by
    rw [Line.trimmed, String.toList_ofList, Text.dropEndWhile_self (getLast?_chars h hr)]
  obtain ⟨x, hx, hid⟩ := header?_chars h
  rw [Line.ofString_eq_iff]
  refine .record ⟨⟨x, '#' :: l.body r⟩, ?_, hid, rfl⟩ (record?_body h hr)
  rw [htrimmed, hx]

/-- One space in each place, no place in a program in front, and no zeros that are not needed. -/
def canonical (id : MachineId) (r : Record) : Layout where
  place := []
  id := id.chars
  beforeSign := [' ']
  beforeCount := [' ']
  count := Nat.toDigits 10 r.count.toNat
  behindCount := [' ']
  behindMark := [' ']
  beforeIp := [' ']
  ip := Nat.toDigits 16 r.ip.toNat
  beforeTail := [' ']

theorem fits_canonical (id : MachineId) (r : Record) : (canonical id r).Fits id r := by
  have hspace : Filled isSpace [' '] := by decide
  exact
    { place := .inl rfl
      id := MachineId.read?_eq_some_iff.1 (MachineId.read?_chars id)
      beforeSign := hspace
      beforeCount := hspace
      count := Number.wordDigits?_eq_some_iff.1 (Number.wordDigits?_toDigits r.count)
      behindCount := hspace
      behindMark := hspace.2
      beforeIp := hspace
      ip := Number.writesHex_toDigits r.ip
      beforeTail := hspace }

/-- Every plain record of every machine is read back from its canonical line. -/
theorem ofString_canonical (id : MachineId) (hr : r.Plain) :
    Line.ofString (String.ofList ((canonical id r).chars r)) = .record id r :=
  ofString_chars (fits_canonical id r) hr

end Layout

/-! ## Sessions -/

/-- The event is now the last record of `id`, behind the records that were there. A machine that
copies itself has a link in between. -/
def Draft.Records (d d' : Draft) (id : MachineId) (e : Event) : Prop :=
  ∃ s links, sessionOf? d'.sessions id = some s ∧
    s.records = (sessionOf? d.sessions id).elim [] Session.records ++ links ++ [e] ∧
    (Draft.child? e ≠ some id → links = [])

/-- The text is one line, and the draft takes it in as the record of `id`. -/
structure Draft.Enters (d : Draft) (line : String) (id : MachineId) (r : Record) : Prop where
  single : '\n' ∉ line.toList
  reads : Line.ofString line = .record id r
  event : ∃ extra kind d', tailExtra? r.tail = some extra ∧ Stands r.action r.mark kind ∧
    d.step (Line.ofString line) = some d' ∧ d.Records d' id
      { kind, count := r.count, ip := r.ip, action := r.action, extra, notes := [] }

theorem Draft.records_addEvent (d : Draft) (id : MachineId) (r : Record) (e : Event) :
    d.Records (d.addEvent id r e) id e := by
  have hnew : ∀ found : Option Session,
      (found.getD (Session.ofId id.text)).records = found.elim [] Session.records := by
    intro found
    cases found <;> rfl
  unfold Records
  rw [sessions_addEvent, sessionOf?_foldl_write, story_recordWrites, ← hnew]
  -- An end is no copy, so there is a report or a link before the event, or neither.
  by_cases hstop : e.kind = .stop
  · have hchild : child? e = none := by
      rw [child?, hstop]
      rfl
    obtain ⟨error, extra, hreport⟩ :=
      r.report_eq ((sessionOf? d.sessions id).getD (Session.ofId id.text))
    simp only [hstop, hchild, true_and, if_true, reduceCtorEq, if_false, List.append_nil,
      List.singleton_append, List.foldl_cons, List.foldl_nil]
    refine ⟨_, [], rfl, ?_, fun _ => rfl⟩
    simp only [tellTo, Option.getD_some, Part.tell, hreport, List.append_nil]
  · by_cases hchild : child? e = some id
    · simp only [hstop, hchild, false_and, if_true, if_false, List.nil_append,
        List.singleton_append, List.foldl_cons, List.foldl_nil]
      exact ⟨_, _, rfl, rfl, fun h => absurd rfl h⟩
    · simp only [hstop, hchild, false_and, if_true, if_false, List.nil_append,
        List.foldl_cons, List.foldl_nil]
      exact ⟨_, [], rfl, by rw [List.append_nil]; rfl, fun _ => rfl⟩

/-- The line of a plain record, with values that can be read, is taken in as the record. -/
theorem Layout.enters {l : Layout} {id : MachineId} {r : Record} (h : l.Fits id r) (hr : r.Plain)
    (hvalues : ∀ e ∈ KeyValue.pairs r.tail, KeyValue.value? e.2.toList ≠ none) (d : Draft) :
    d.Enters (String.ofList (l.chars r)) id r := by
  have hreads : Line.ofString (String.ofList (l.chars r)) = .record id r := ofString_chars h hr
  obtain ⟨extra, hextra⟩ : ∃ extra, tailExtra? r.tail = some extra := by
    rw [← Option.ne_none_iff_exists']
    intro hnone
    obtain ⟨e, he, -, hvalue⟩ := tailExtra?_eq_none_iff.1 hnone
    rw [KeyValue.Offsets.value?_eq] at hvalue
    exact hvalues e he hvalue
  have hevent : r.event? = some
      { kind := r.kind, count := r.count, ip := r.ip, action := r.action, extra, notes := [] } := by
    rw [Record.event?, hextra, Option.map_some]
  refine ⟨?_, hreads, extra, r.kind, d.addEvent id r _, hextra, r.stands_kind, ?_,
    d.records_addEvent id r _⟩
  · rw [String.toList_ofList]
    exact newline_not_mem_chars h hr
  · rw [hreads, Draft.step, hevent, Option.map_some]

/-- A record with all that makes its line hard to read: a place that starts with digits, zeros in
front of the numbers, an address inside the action, and one in the tail that follows no space. -/
def crowdedRecord : Record :=
  { count := 3, mark := some .post, action := "add @0x5 b", ip := 255, tail := "k=@0x1 l=[1 2]" }

def crowdedLayout : Layout where
  place := "12_main.rs:12:  ".toList
  id := "007(0:010)".toList
  beforeSign := "  ".toList
  beforeCount := "   ".toList
  count := "03".toList
  behindCount := " ".toList
  behindMark := "  ".toList
  beforeIp := "  ".toList
  ip := "00fF".toList
  beforeTail := "  ".toList

theorem enters_crowdedLayout :
    crowdedLayout.Fits ⟨7, 0, 10⟩ crowdedRecord ∧ crowdedRecord.Plain ∧
    (∀ e ∈ KeyValue.pairs crowdedRecord.tail, KeyValue.value? e.2.toList ≠ none) ∧
    Draft.empty.Enters
      "12_main.rs:12:  007(0:010)  #   03 ...  add @0x5 b  @0x00fF  k=@0x1 l=[1 2]"
      ⟨7, 0, 10⟩ crowdedRecord := by
  have hspaces : ∀ n, Filled isSpace (List.replicate (n + 1) ' ') := fun n =>
    ⟨List.cons_ne_nil _ _, fun c hc => by rw [List.eq_of_mem_replicate hc]; rfl⟩
  have hplace : Placed "12_main.rs:12:  ".toList := by
    refine ⟨"12_main".toList, "rs".toList, "12".toList, "  ".toList, rfl, ?_, ?_, ?_, hspaces 1⟩
    all_goals decide +kernel
  have hfits : crowdedLayout.Fits ⟨7, 0, 10⟩ crowdedRecord :=
    { place := .inr hplace
      id := MachineId.read?_eq_some_iff.1 (by decide +kernel)
      beforeSign := hspaces 1
      beforeCount := hspaces 2
      count := Number.wordDigits?_eq_some_iff.1 (by decide +kernel)
      behindCount := hspaces 0
      behindMark := (hspaces 1).2
      beforeIp := hspaces 1
      ip := ⟨2, by decide⟩
      beforeTail := hspaces 1 }
  have hplain : crowdedRecord.Plain :=
    { action_ne := by decide
      action_line := by decide +kernel
      action_trimmed := by decide +kernel
      action_mark := fun m => by cases m <;> decide +kernel
      tail_line := by decide +kernel
      tail_trimmed := by decide +kernel
      tail_start := by decide +kernel
      tail_address := by decide +kernel }
  have hvalues : ∀ e ∈ KeyValue.pairs crowdedRecord.tail,
      KeyValue.value? e.2.toList ≠ none := by decide +kernel
  refine ⟨hfits, hplain, hvalues, ?_⟩
  have h := Layout.enters hfits hplain hvalues .empty
  have hline : String.ofList (crowdedLayout.chars crowdedRecord) =
    "12_main.rs:12:  007(0:010)  #   03 ...  add @0x5 b  @0x00fF  k=@0x1 l=[1 2]" := by rfl
  rwa [hline] at h

end TraceExplorer.Trace
