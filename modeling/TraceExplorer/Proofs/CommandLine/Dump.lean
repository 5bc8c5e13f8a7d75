import TraceExplorer.CommandLine.Query
import TraceExplorer.Proofs.Index.Walk
import TraceExplorer.Proofs.MachineId
import Mathlib.Data.List.Forall2

/-
  What a dump shows. The sessions stand in the order of their identifiers (`dumpOrder_ascends`).
  One that a root leads to is shown by its summary and, unless the dump is terse, by lines behind
  a tab and an empty line, so the summaries can be told from the other lines
  (`filter_shownLines`). One that no root leads to has no summary: it ends the dump, and the
  sessions behind it are not shown although a root may lead to them (`exists_shown`).
-/

namespace TraceExplorer

/-- What is wrong with a session whose walk ends so. -/
def Summit.fault? (id : String) : Summit → Option Fault
  | .root => none
  | .missing parent => some (.notFound parent)
  | .metAgain again => some (.brokenPath id (.cycleAt again.id))

namespace Report

variable {x : Index} {e : Entry} {chain : List Entry}

/-! ## Sessions by identifier -/

theorem dumpOrder_perm (x : Index) : (dumpOrder x).Perm x.entries := List.mergeSort_perm _ _

/-- No two sessions have one place, as their machines are distinct. -/
theorem dumpOrder_ascends (x : Index) :
    (dumpOrder x).Pairwise fun a b => a.mid.Before b.mid := by
  have hle : (dumpOrder x).Pairwise fun a b => (compare a.mid b.mid).isLE = true := by
    refine List.pairwise_mergeSort (fun a b c hab hbc => ?_) (fun a b => ?_) _
    · exact Std.TransOrd.isLE_trans hab hbc
    · rw [Std.OrientedOrd.eq_swap (a := b.mid)]
      cases compare a.mid b.mid <;> rfl
  have hne := (dumpOrder_perm x).symm.pairwise x.distinct fun h => Ne.symm h
  refine (hle.and hne).imp fun {a b} h => ?_
  rw [← MachineId.compare_eq_lt_iff]
  cases hcompare : compare a.mid b.mid with
  | lt => rfl
  | eq => exact absurd (MachineId.mach_eq_of_compare_eq hcompare) h.2
  | gt =>
    rw [hcompare] at h
    exact absurd h.1 Bool.false_ne_true

/-! ## The lines of a session -/

/-- The summary of `e` behind the machines of `chain`. -/
def summaryText (chain : List Entry) (e : Entry) : String :=
  Number.decimal e.mid.root ++ "(" ++ ":".intercalate (chain.map fun a => Number.decimal a.mach)
    ++ ")" ++ "\t" ++ (if e.session.error = "" then "values=" ++ e.session.values
      else "err=" ++ e.session.error)

/-- The lines behind the summary of `e`, whose chain is `chain`. -/
def detailLines (chain : List Entry) (e : Entry) : List String :=
  ((RawLog.ofChain none chain).rows.flatMap fun r =>
    ("\t" ++ eventLine r.nodeId r.event) :: noteLines "\t" r.event) ++
    (e.session.extra.entries.map fun entry => "\t" ++ entry.1 ++ "=" ++ entry.2) ++ [""]

def shownLines (terse : Bool) (chain : List Entry) (e : Entry) : List String :=
  summaryText chain e :: if terse then [] else detailLines chain e

theorem summaryLine_eq (he : e ∈ x.entries) :
    summaryLine x e.id = (x.chain e.id).map fun chain => summaryText chain e := by
  have hget : x.get? e.id = some e := Index.get?_id he
  unfold summaryLine fullId
  rw [hget]
  cases hchain : x.chain e.id with
  | error fault => rfl
  | ok chain =>
    obtain ⟨e', hget', hway, _⟩ := Index.walk_of_chain hchain
    obtain rfl : e = e' := Option.some.inj (hget.symm.trans hget')
    have hlast : chain.getLast? = some e := by
      rw [← List.head?_reverse]
      exact hway.first
    simp only [Except.map, hlast, Option.map_some, Option.getD_some]
    rfl

theorem sessionLines_eq (he : e ∈ x.entries) :
    sessionLines x e.id = (x.chain e.id).map fun chain => summaryText chain e ::
      detailLines chain e := by
  have hget : x.get? e.id = some e := Index.get?_id he
  unfold sessionLines RawLog.assemble
  rw [summaryLine_eq he, hget]
  cases x.chain e.id with
  | error fault => rfl
  | ok chain => rfl

/-! ## Summaries and other lines -/

/-- The line is not empty and does not start with a tab. -/
def isSummary (line : String) : Bool := line.toList.head?.any (· != '\t')

theorem isSummary_tab (s : String) : isSummary ("\t" ++ s) = false := by
  rw [isSummary, String.toList_append]
  rfl

theorem isSummary_summaryText (chain : List Entry) (e : Entry) :
    isSummary (summaryText chain e) = true := by
  obtain ⟨c, digits, hdigits⟩ := List.exists_cons_of_ne_nil
    (Nat.toDigits_ne_nil (b := 10) (n := e.mid.root.toNat))
  have hdigit : c.isDigit = true := by
    refine Nat.isDigit_of_mem_toDigits (by omega) (Nat.le_refl 10) (n := e.mid.root.toNat) ?_
    rw [hdigits]
    exact List.mem_cons_self
  have hne : c ≠ '\t' := by
    rintro rfl
    exact absurd hdigit (by decide)
  unfold isSummary summaryText Number.decimal
  simp only [String.toList_append, String.toList_ofList, hdigits, List.cons_append,
    List.head?_cons, Option.any_some]
  exact bne_iff_ne.2 hne

theorem isSummary_detailLines (chain : List Entry) (e : Entry) :
    ∀ line ∈ detailLines chain e, isSummary line = false := by
  intro line hline
  unfold detailLines at hline
  rw [List.mem_append, List.mem_append, List.mem_flatMap, List.mem_map] at hline
  rcases hline with (⟨r, _, hline⟩ | ⟨entry, _, rfl⟩) | hline
  · rcases List.mem_cons.1 hline with rfl | hline
    · exact isSummary_tab _
    · obtain ⟨note, _, rfl⟩ := List.mem_map.1 hline
      rw [String.append_assoc]
      exact isSummary_tab _
  · rw [String.append_assoc, String.append_assoc]
    exact isSummary_tab _
  · rw [List.mem_singleton.1 hline]
    rfl

theorem filter_shownLines (terse : Bool) (chain : List Entry) (e : Entry) :
    (shownLines terse chain e).filter isSummary = [summaryText chain e] := by
  have hdetails : (detailLines chain e).filter isSummary = [] := by
    rw [List.filter_eq_nil_iff]
    intro line hline
    rw [isSummary_detailLines chain e line hline]
    exact Bool.false_ne_true
  unfold shownLines
  rw [List.filter_cons_of_pos (isSummary_summaryText chain e)]
  cases terse with
  | true => rfl
  | false => exact congrArg (summaryText chain e :: ·) hdetails

end Report

namespace CommandLine

open Report

variable {x : Index} {e : Entry}

/-- The line is the summary of `e` behind the machines from a root down to it. -/
def Summarizes (x : Index) (e : Entry) (line : String) : Prop :=
  ∃ way, x.IsWalk e way ∧ x.EndsIn way .root ∧ line = summaryText way.reverse e

/-- How a dump ends that has come to `rest`: it fails if there is a session left. -/
inductive Stops (x : Index) : List Entry → Option String → Prop where
  | all : Stops x [] none
  | lost {e : Entry} {rest way : List Entry} {s : Summit} {fault : Fault} : x.IsWalk e way →
      x.EndsIn way s → s.fault? e.id = some fault → Stops x (e :: rest) (some fault.message)

/-- One session is shown, or the dump fails at it. -/
theorem sessionsAnswer_cons (terse : Bool) (he : e ∈ x.entries) (rest : List Entry) :
    sessionsAnswer x terse (e :: rest) =
      (Answer.orFailed (x.chain e.id) fun chain => .lines (shownLines terse chain e)).andThen
        (sessionsAnswer x terse rest) := by
  rw [sessionsAnswer, summaryLine_eq he, sessionLines_eq he]
  cases x.chain e.id with
  | error fault => cases terse <;> rfl
  | ok chain => cases terse <;> rfl

/-- The sessions before the first that no root leads to are shown. -/
theorem exists_shown (terse : Bool) {l : List Entry} (h : ∀ e ∈ l, e ∈ x.entries) :
    ∃ shown rest, l = shown ++ rest ∧ (∀ e ∈ shown, x.EndsIn (x.ascent e).1 .root) ∧
      Stops x rest (sessionsAnswer x terse l).error ∧
      sessionsAnswer x terse l =
        ⟨shown.flatMap fun e => shownLines terse (x.ascent e).1.reverse e, [],
          (sessionsAnswer x terse l).error⟩ := by
  induction l with
  | nil => exact ⟨[], [], rfl, fun _ he => by (cases he), .all, rfl⟩
  | cons e l ih =>
    have he : e ∈ x.entries := h e List.mem_cons_self
    have hway := Index.isWalk_ascent he
    have hend := Index.endsIn_ascent he
    have hchain := Index.chain_eq (Index.get?_id he) hway hend
    rw [sessionsAnswer_cons terse he, hchain]
    cases hs : (x.ascent e).2 with
    | root =>
      obtain ⟨shown, rest, hl, hshown, hstops, hanswer⟩ :=
        ih fun a ha => h a (List.mem_cons_of_mem _ ha)
      refine ⟨e :: shown, rest, congrArg (e :: ·) hl, ?_, hstops, ?_⟩
      · intro a ha
        rcases List.mem_cons.1 ha with rfl | ha
        · exact hs ▸ hend
        · exact hshown a ha
      · simp only [Answer.orFailed, Answer.andThen, Answer.lines]
        rw [hanswer]
        rfl
    | missing | metAgain =>
      rw [hs] at hend
      exact ⟨[], e :: l, rfl, fun _ ha => by (cases ha), .lost hway hend rfl, rfl⟩

/-- The sessions by identifier are those of `shown`, which have one summary each in the answer,
    and those of `rest`, at the first of which it fails. -/
structure Dumps (x : Index) (terse : Bool) (shown rest : List Entry) (a : Answer) : Prop where
  sessions : (shown ++ rest).Perm x.entries
  ascend : (shown ++ rest).Pairwise fun a b => a.mid.Before b.mid
  summaries : List.Forall₂ (Summarizes x) shown (a.output.filter isSummary)
  /-- If it is terse, there are no other lines. -/
  terse : terse = true → ∀ line ∈ a.output, isSummary line = true
  diagnostics : a.diagnostics = []
  stops : Stops x rest a.error

theorem exists_dumps (x : Index) (terse : Bool) :
    ∃ shown rest, Dumps x terse shown rest (dumpAnswer terse false x) := by
  have hperm := dumpOrder_perm x
  obtain ⟨shown, rest, horder, hshown, hstops, hanswer⟩ :=
    exists_shown terse fun e he => hperm.mem_iff.1 he
  have hentries : ∀ e ∈ shown, e ∈ x.entries := by
    intro e he
    rw [← hperm.mem_iff, horder]
    exact List.mem_append_left _ he
  have houtput : (dumpAnswer terse false x).output =
      shown.flatMap fun e => shownLines terse (x.ascent e).1.reverse e :=
    congrArg Answer.output hanswer
  refine ⟨shown, rest,
    { sessions := horder ▸ hperm
      ascend := horder ▸ dumpOrder_ascends x
      summaries := ?_
      terse := ?_
      diagnostics := congrArg Answer.diagnostics hanswer
      stops := hstops }⟩
  · rw [houtput, List.filter_flatMap]
    simp only [filter_shownLines]
    rw [← List.map_eq_flatMap, List.forall₂_map_right_iff, List.forall₂_same]
    intro e he
    exact ⟨_, Index.isWalk_ascent (hentries e he), hshown e he, rfl⟩
  · rintro rfl line hline
    rw [houtput, List.mem_flatMap] at hline
    obtain ⟨e, _, hline⟩ := hline
    rw [List.mem_singleton.1 hline]
    exact isSummary_summaryText _ e

/-- A root leads to the session. -/
def Rooted (x : Index) (e : Entry) : Prop := ∃ way, x.IsWalk e way ∧ x.EndsIn way .root

theorem Summarizes.rooted {line : String} (h : Summarizes x e line) : Rooted x e := by
  obtain ⟨way, hway, hend, _⟩ := h
  exact ⟨way, hway, hend⟩

theorem Dumps.rooted {terse : Bool} {shown rest : List Entry} {a : Answer}
    (h : Dumps x terse shown rest a) : ∀ e ∈ shown, Rooted x e := by
  have hboth := h.summaries.imp fun e line hline => And.intro hline.rooted hline
  exact ((List.forall₂_and_left _ _).1 hboth).1

/-- A dump shows the sessions by identifier up to the first that no root leads to. It shows all
    of them if and only if a root leads to each. -/
theorem dumpAnswer_dumps (x : Index) (terse : Bool) :
    (∃ shown rest, Dumps x terse shown rest (dumpAnswer terse false x)) ∧
      ((∃ shown, Dumps x terse shown [] (dumpAnswer terse false x)) ↔
        ∀ e ∈ x.entries, Rooted x e) := by
  obtain ⟨shown, rest, hdumps⟩ := exists_dumps x terse
  refine ⟨⟨shown, rest, hdumps⟩, ?_, ?_⟩
  · rintro ⟨all, hall⟩ e he
    have hmem : e ∈ all := by
      have hperm := hall.sessions
      rw [List.append_nil] at hperm
      exact hperm.mem_iff.2 he
    exact hall.rooted e hmem
  · intro hrooted
    have hrest := hdumps.stops
    have hsessions := hdumps.sessions
    cases rest with
    | nil => exact ⟨shown, hdumps⟩
    | cons e rest =>
      generalize (dumpAnswer terse false x).error = error at hrest
      cases hrest with
      | lost hway hend hfault =>
        have he : e ∈ x.entries := hsessions.mem_iff.1 (by simp)
        obtain ⟨way, hrootway, hroot⟩ := hrooted e he
        obtain rfl := hway.unique hrootway
        obtain rfl := hend.unique hroot
        cases hfault

/-- A session whose parent is not loaded, and a root. -/
def orphanSessions : List Session :=
  [{ Session.ofId "0(9:5)" with parentId := "0(0:9)" }, Session.ofId "1(0:1)"]

/-- The session without its parent keeps the root from being shown. -/
theorem dumpAnswer_orphanSessions :
    (Index.ofTrace ⟨orphanSessions, []⟩).entries.map Entry.id = ["0(9:5)", "1(0:1)"] ∧
      summaryLine (Index.ofTrace ⟨orphanSessions, []⟩) "1(0:1)" = .ok "1(1)\tvalues=" ∧
      dumpAnswer true false (Index.ofTrace ⟨orphanSessions, []⟩) =
        ⟨[], [], some "Node not found: 0(0:9)"⟩ ∧
      dumpAnswer false false (Index.ofTrace ⟨orphanSessions, []⟩) =
        ⟨[], [], some "Node not found: 0(0:9)"⟩ := by
  have hsorted : (Index.ofTrace ⟨orphanSessions, []⟩).entries.Pairwise fun a b =>
      (compare a.mid b.mid).isLE = true := by
    decide +kernel
  have horder : dumpOrder (Index.ofTrace ⟨orphanSessions, []⟩) =
      (Index.ofTrace ⟨orphanSessions, []⟩).entries := List.mergeSort_of_pairwise hsorted
  unfold dumpAnswer
  rw [horder]
  refine ⟨?_, ?_, ?_, ?_⟩
  · decide +kernel
  · decide +kernel
  · decide +kernel
  · decide +kernel

end CommandLine

end TraceExplorer
