import TraceExplorer.Proofs.CommandLine.Log
import TraceExplorer.Proofs.Explorer.Views

/-
  The flag for raw logs puts a raw mark behind the address as it is given. Reading an address
  takes the blanks around it away, but a mark behind them leaves them where they are
  (`HasBody.exists_after`): they then belong to the identifier. So the raw log is shown just for
  the addresses that do not end in a blank (`followsRaw_logAddress`).
-/

namespace TraceExplorer

open CharClass (isBlank)
open Text (Trims endsBlank)

/-! ## A mark behind an address -/

namespace Address

variable {s : String} {cs body : List Char}

/-- No identifier ends in a raw mark. -/
theorem not_rawMark_suffix {mid : MachineId} (h : MachineId.decode s = .ok mid)
    (front : List Char) : ¬ rawMark <:+ front ++ s.toList := by
  intro hmark
  obtain ⟨more, hs⟩ := MachineId.exists_concat_of_read? (MachineId.decode_eq_ok_iff.1 h)
  have hlast := getLast?_of_rawMark_suffix hmark
  rw [hs, ← List.append_assoc, List.getLast?_concat] at hlast
  exact absurd (Option.some.inj hlast) (by decide)

/-- Where the body is in a text, and how it goes on with a raw mark at the end of the text. -/
theorem HasBody.exists_after (h : HasBody cs body) (hne : body ≠ []) : ∃ front after,
    cs = front ++ (body ++ after) ∧ (∀ c ∈ after, isBlank c = true) ∧
      (after = [] ↔ endsBlank cs = false) ∧
      HasBody (cs ++ rawMark) (body ++ (after ++ rawMark)) := by
  have hmark : endsBlank rawMark = false := by decide
  obtain h | ⟨h, hsign⟩ := h
  · obtain ⟨before, after, rfl, hbefore, hafter, hend⟩ := h.exists_after (List.cons_ne_nil _ _)
    refine ⟨before ++ ['#'], after, by simp, hafter, hend, .inl ?_⟩
    exact h.append (List.cons_ne_nil _ _) hbefore (by decide) hmark
  · obtain ⟨before, after, rfl, hbefore, hafter, hend⟩ := h.exists_after hne
    refine ⟨before, after, rfl, hafter, hend, .inr ⟨h.append hne hbefore (by decide) hmark, ?_⟩⟩
    rwa [List.head?_append_of_ne_nil body hne]

theorem decode_of_endsBlank (h : endsBlank s.toList = true) :
    MachineId.decode s = .error (.malformedId s) := by
  cases hid : MachineId.decode s with
  | error fault => rw [(MachineId.decode_eq_error_iff.1 hid).1]
  | ok mid =>
    obtain ⟨front, hs⟩ := MachineId.exists_concat_of_read? (MachineId.decode_eq_ok_iff.1 hid)
    rw [endsBlank, hs, List.getLast?_concat] at h
    exact absurd h (by decide)

end Address

namespace CommandLine

variable {s : String} {a : Address}

theorem logAddress_of_suffix (h : Address.rawMark <:+ s.toList) : logAddress s true = s := by
  have hmark := List.isSuffixOf_iff_suffix.2 h
  rw [logAddress, hmark]
  rfl

theorem toList_logAddress (h : ¬ Address.rawMark <:+ s.toList) :
    (logAddress s true).toList = s.toList ++ Address.rawMark := by
  have hmark : Address.rawMark.isSuffixOf s.toList = false :=
    Bool.eq_false_iff.2 fun hmark => h (List.isSuffixOf_iff_suffix.1 hmark)
  rw [logAddress, hmark]
  exact String.toList_append.trans (congrArg _ String.toList_ofList)

/-- With the flag an address is that of the raw log, if no blank stands at its end. -/
theorem parse_logAddress (h : Address.parse s = .ok (some a)) (hend : endsBlank s.toList = false) :
    Address.parse (logAddress s true) = .ok (some ⟨a.id, true⟩) := by
  obtain ⟨hbody, mid, hmid⟩ := Address.parse_eq_ok_some_iff.1 h
  obtain ⟨front, after, hs, _, hafter, hmarked⟩ := hbody.exists_after (Address.body_ne_nil hmid)
  obtain rfl := hafter.2 hend
  rw [List.append_nil] at hs
  by_cases hraw : a.raw = true
  · have hmark : Address.rawMark <:+ s.toList := by
      rw [hs, Address.body, if_pos hraw, ← List.append_assoc]
      exact List.suffix_append _ _
    rw [logAddress_of_suffix hmark, h, ← hraw]
  · have hform : a.body = a.id.toList := by rw [Address.body, if_neg hraw, List.append_nil]
    have hmark : ¬ Address.rawMark <:+ s.toList := by
      rw [hs, hform]
      exact Address.not_rawMark_suffix hmid front
    rw [Address.parse_eq_ok_some_iff, toList_logAddress hmark]
    rw [hform, List.nil_append] at hmarked
    exact ⟨hmarked, mid, hmid⟩

/-- A blank at the end of an address comes to stand between the identifier and the mark. -/
theorem parse_logAddress_of_endsBlank (h : Address.parse s = .ok (some a))
    (hend : endsBlank s.toList = true) : ∃ after, after ≠ [] ∧ (∀ c ∈ after, isBlank c = true) ∧
      Address.parse (logAddress s true) =
        .error (.malformedId (String.ofList (a.body ++ after))) := by
  obtain ⟨hbody, mid, hmid⟩ := Address.parse_eq_ok_some_iff.1 h
  obtain ⟨front, after, hs, hblank, hafter, hmarked⟩ :=
    hbody.exists_after (Address.body_ne_nil hmid)
  have hne : after ≠ [] := fun hnil => by
    rw [hafter.1 hnil] at hend
    cases hend
  have hmark : ¬ Address.rawMark <:+ s.toList := fun hmark => by
    rw [endsBlank, Address.getLast?_of_rawMark_suffix hmark] at hend
    exact absurd hend (by decide)
  have hlast : endsBlank (String.ofList (a.body ++ after)).toList = true := by
    rw [String.toList_ofList, endsBlank, List.getLast?_append_of_ne_nil _ hne]
    rw [endsBlank, hs, ← List.append_assoc, List.getLast?_append_of_ne_nil _ hne] at hend
    exact hend
  refine ⟨after, hne, hblank, ?_⟩
  rw [← toList_logAddress hmark, ← List.append_assoc] at hmarked
  rw [Address.parse_of_hasBody hmarked (by simp [Address.rawMark])
    ((Address.splitRaw_rawMark _).trans (by rw [String.toList_ofList])),
    Address.decode_of_endsBlank hlast]
  rfl

/-! ## What `log` shows -/

/-- `log` shows a log in the explorer `y`: the address leads there, or what it falls back to
does. -/
inductive ShowsLog (x : Explorer) (address : String) (y : Explorer) (shown : String)
    (path : List PathStep) (log : NodeLog) : Prop where
  | leads {signals : List Signal} (h : x.navigate address = (y, signals, .log shown path log)) :
      ShowsLog x address y shown path log
  | fallsBack {z : Explorer} {signals signals' : List Signal} {fallback reason : String}
      (h : x.navigate address = (z, signals, .cleared fallback reason))
      (hback : z.navigate fallback = (y, signals', .log shown path log)) :
      ShowsLog x address y shown path log

variable {x y : Explorer} {address shown : String} {path : List PathStep} {log : NodeLog}

theorem ShowsLog.logAnswer {raw : Bool} (h : ShowsLog x (logAddress s raw) y shown path log)
    (colored json : Bool) : ∃ said, logAnswer colored json x s raw =
      (⟨[], said, none⟩ : Answer).andThen
        (navigationAnswer colored json (.log shown path log)) := by
  unfold CommandLine.logAnswer
  cases h with
  | leads h =>
    rw [h]
    exact ⟨[], rfl⟩
  | @fallsBack z signals signals' fallback reason h hback =>
    have hne : fallback ≠ "" := by
      rintro rfl
      cases hback
    rw [h]
    simp only [if_neg hne, hback]
    exact ⟨_, rfl⟩

/-- An address that does not lead to a log of its session does not fall back to one either. -/
theorem ShowsLog.leads_of_shown (hparse : Address.parse address = .ok (some a))
    (h : ShowsLog x address y shown path log) {raw : Bool}
    (hshown : shown = Address.text ⟨a.id, raw⟩) :
    ∃ signals, x.navigate address = (y, signals, .log shown path log) := by
  cases h with
  | leads h => exact ⟨_, h⟩
  | @fallsBack z signals signals' fallback reason h hback =>
    -- The address fallen back to has the same identifier, so entering its run again changes nothing
    -- and the log is in view there: the first address would have led to a log.
    exfalso
    obtain ⟨_, mid, hmid⟩ := Address.parse_eq_ok_some_iff.1 hparse
    obtain ⟨b, entered, hb, henter, hview, _⟩ := Explorer.navigate_eq_log_iff.1 hback
    obtain rfl : b = ⟨a.id, raw⟩ := by
      obtain ⟨_, _, _, _, heq⟩ := Explorer.view_eq_ok_iff.1 hview
      have htext : b.text = Address.text ⟨a.id, raw⟩ := (Navigation.log.inj heq).1.symm.trans hshown
      have hread := Address.parse_text_of_parse hb
      rw [htext, Address.parse_text (a := ⟨a.id, raw⟩) hmid] at hread
      exact (Option.some.inj (Except.ok.inj hread)).symm
    obtain ⟨⟨w, entered', reason'⟩, hfirst⟩ : ∃ r, x.enter a.id = r := ⟨_, rfl⟩
    obtain rfl : z = w := by
      have hnav := Explorer.navigate_of_enter hparse hfirst
      exact congrArg Prod.fst (h.symm.trans hnav)
    obtain ⟨rfl, hagain⟩ | ⟨hreason, rfl⟩ := Explorer.enter_again hfirst
    · cases hagain.symm.trans henter
      obtain ⟨log', _, hlog'⟩ := Explorer.view_raw hview a.raw
      have hleads := Explorer.navigate_eq_log_iff.2 ⟨a, _, hparse, hfirst, hlog', rfl⟩
      cases h.symm.trans hleads
    · cases hfirst.symm.trans henter
      cases hreason

/-- The raw log of a session is shown where a log of it is, in the same explorer and with the same
path, if no blank stands at the end of the address. -/
theorem ShowsLog.raw (hparse : Address.parse s = .ok (some a)) (hend : endsBlank s.toList = false)
    (h : ShowsLog x s y shown path log) {raw : Bool} (hshown : shown = Address.text ⟨a.id, raw⟩) :
    ∃ rows signals, y.rawLog a.id = .ok rows ∧ x.navigate (logAddress s true) =
      (y, signals, .log (Address.text ⟨a.id, true⟩) path (.raw rows)) := by
  obtain ⟨signals, hleads⟩ := h.leads_of_shown hparse hshown
  obtain ⟨b, entered, hb, henter, hview, _⟩ := Explorer.navigate_eq_log_iff.1 hleads
  obtain rfl := Option.some.inj (Except.ok.inj (hparse.symm.trans hb))
  obtain ⟨log', hlog, hview'⟩ := Explorer.view_raw hview true
  obtain ⟨rows, hrows, rfl⟩ := exists_ok_of_map_ok (f := NodeLog.raw) hlog
  exact ⟨rows, _, hrows, Explorer.navigate_eq_log_iff.2
    ⟨⟨a.id, true⟩, entered, parse_logAddress hparse hend, henter, hview', rfl⟩⟩

theorem navigate_logAddress_of_endsBlank (h : Address.parse s = .ok (some a))
    (hend : endsBlank s.toList = true) : ∃ after, after ≠ [] ∧ (∀ c ∈ after, isBlank c = true) ∧
      x.navigate (logAddress s true) =
        (x, x.clear (Fault.malformedId (String.ofList (a.body ++ after))).message) := by
  obtain ⟨after, hne, hblank, hparse⟩ := parse_logAddress_of_endsBlank h hend
  refine ⟨after, hne, hblank, ?_⟩
  rw [Explorer.navigate, hparse]

/-- What is fallen back to is never a raw log. -/
theorem ShowsLog.normalized_of_clear {reason : String}
    (h : ShowsLog x address y shown path log) (hclear : x.navigate address = (x, x.clear reason)) :
    ∃ rows, log = .normalized rows := by
  cases h with
  | leads h => cases hclear.symm.trans h
  | @fallsBack z signals signals' fallback reason' h hback =>
    cases hclear.symm.trans h
    obtain ⟨b, _, hb, _, hview, _⟩ := Explorer.navigate_eq_log_iff.1 hback
    obtain ⟨_, found, _, hlog, heq⟩ := Explorer.view_eq_ok_iff.1 hview
    obtain ⟨_, _, rfl⟩ := Navigation.log.inj heq
    rw [Explorer.raw_of_rootAddress hb] at hlog
    obtain ⟨rows, _, rfl⟩ := exists_ok_of_map_ok (f := NodeLog.normalized) hlog
    exact ⟨rows, rfl⟩

/-- What `log` does with the flag for raw logs, where its address is `a`. Without a blank at its
end the address is followed as that of the raw log; with one it is none. -/
structure FollowsRaw (x : Explorer) (s : String) (a : Address) : Prop where
  follows : endsBlank s.toList = false →
    Address.parse (logAddress s true) = .ok (some ⟨a.id, true⟩) ∧
      x.navigate (logAddress s true) = x.navigate (Address.text ⟨a.id, true⟩)
  /-- Where a log of the session is shown without the flag, the raw log is shown with it, in the
  same explorer and with the same path. -/
  shows : endsBlank s.toList = false → ∀ y shown path log raw,
    ShowsLog x (logAddress s false) y shown path log → shown = Address.text ⟨a.id, raw⟩ →
      ∃ rows, y.rawLog a.id = .ok rows ∧
        ShowsLog x (logAddress s true) y (Address.text ⟨a.id, true⟩) path (.raw rows) ∧
        ∀ colored json, logAnswer colored json x s true =
          navigationAnswer colored json (.log (Address.text ⟨a.id, true⟩) path (.raw rows))
  malformed : endsBlank s.toList = true → ∃ after, after ≠ [] ∧ (∀ c ∈ after, isBlank c = true) ∧
    x.navigate (logAddress s true) =
      (x, x.clear (Fault.malformedId (String.ofList (a.body ++ after))).message)
  lost : endsBlank s.toList = true → ∀ y shown path rows,
    ¬ ShowsLog x (logAddress s true) y shown path (.raw rows)

theorem followsRaw_logAddress (x : Explorer) (h : Address.parse s = .ok (some a)) :
    FollowsRaw x s a where
  follows hend := by
    obtain ⟨_, mid, hmid⟩ := Address.parse_eq_ok_some_iff.1 h
    have hparse := parse_logAddress h hend
    refine ⟨hparse, Explorer.navigate_congr ?_⟩
    rw [hparse, Address.parse_text (a := ⟨a.id, true⟩) hmid]
  shows hend y shown path log raw hshows hshown := by
    obtain ⟨rows, signals, hrows, hmarked⟩ := hshows.raw h hend hshown
    refine ⟨rows, hrows, .leads hmarked, fun colored json => ?_⟩
    rw [logAnswer, hmarked]
  malformed hend := navigate_logAddress_of_endsBlank h hend
  lost hend y shown path rows hshows := by
    obtain ⟨after, _, _, hclear⟩ := navigate_logAddress_of_endsBlank (x := x) h hend
    obtain ⟨_, hlog⟩ := hshows.normalized_of_clear hclear
    cases hlog

/-- A root, and a copy of it that carries out one operation. -/
def workingCopy : Trace :=
  ⟨[Session.ofId "1(0:1)", { Session.ofId "1(1:2)" with
    parentId := "1(0:1)"
    records := [⟨.preOp, 1, 16, "op", .empty, []⟩, ⟨.postOp, 1, 16, "op", .empty, []⟩] }], []⟩

theorem followsRaw_workingCopy : Address.parse " #1(1:2)" = .ok (some ⟨"1(1:2)", false⟩) ∧
    FollowsRaw (Explorer.after workingCopy [.selectDefault none]) " #1(1:2)" ⟨"1(1:2)", false⟩ := by
  have hparse : Address.parse " #1(1:2)" = .ok (some ⟨"1(1:2)", false⟩) := by decide +kernel
  exact ⟨hparse, followsRaw_logAddress _ hparse⟩

/-- With a blank at its end the address leads to the log of the copy, but with the flag for raw
logs it is malformed, and the log of the root is shown. -/
theorem logAnswer_blankBehind :
    Address.parse "1(1:2) " = .ok (some ⟨"1(1:2)", false⟩) ∧
    logAnswer false false (Explorer.after workingCopy [.selectDefault none]) "1(1:2) " false =
      ⟨["#1(1:2)", "    1(1:2) #   1 @0x0010 op"], [], none⟩ ∧
    logAnswer false false (Explorer.after workingCopy [.selectDefault none]) "1(1:2) " true =
      ⟨["#1(0:1)"], ["Cleared: Malformed identifier: \"1(1:2) \""], none⟩ := by
  refine ⟨by decide +kernel, by decide +kernel, by decide +kernel⟩

end CommandLine

end TraceExplorer
