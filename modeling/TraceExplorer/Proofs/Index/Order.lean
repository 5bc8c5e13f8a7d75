import TraceExplorer.Proofs.Index.Consistency
import TraceExplorer.Proofs.Index.Walk
import Mathlib.Data.List.Perm.Basic

/-
  Indexes of the same sessions in two load orders. If every identifier decodes and every machine
  is that of one session, all sessions are indexed in either order (`sameEntries_ofTrace`). What
  an index finds by an identifier, how it climbs and what it sorts by machine is then the same
  (`SameEntries.alike`); the entries and the kids of a session keep the load order.
-/

namespace TraceExplorer

theorem Entry.session_injective : Function.Injective Entry.session := by
  intro a b h
  obtain ⟨mid, session, hmid⟩ := a
  obtain ⟨mid', session', hmid'⟩ := b
  obtain rfl : session = session' := h
  obtain rfl : mid = mid' := Except.ok.inj (hmid.symm.trans hmid')
  rfl

namespace Session

/-- Every identifier decodes, and every machine is that of one session. -/
structure Distinct (sessions : List Session) : Prop where
  decodes : ∀ s ∈ sessions, s.Decodes
  machs : sessions.Pairwise fun r s => ∀ a b, MachineId.decode r.id = .ok a →
    MachineId.decode s.id = .ok b → a.mach ≠ b.mach

theorem isSome_entry?_iff {s : Session} : s.entry?.isSome = true ↔ s.Decodes := by
  rw [Option.isSome_iff_exists]
  constructor
  · rintro ⟨e, he⟩
    exact (entry?_eq_some_iff.1 he).1
  · intro hs
    obtain ⟨mid, hid⟩ := hs.id
    exact ⟨⟨mid, s, hid⟩, entry?_eq_some_iff.2 ⟨hs, rfl⟩⟩

theorem distinct_iff {sessions : List Session} : Distinct sessions ↔
    (∀ s ∈ sessions, s.entry?.isSome = true) ∧
      ((sessions.filterMap entry?).map Entry.mach).Nodup := by
  rw [List.Nodup, List.pairwise_map, List.pairwise_filterMap]
  simp only [isSome_entry?_iff]
  constructor
  · intro h
    refine ⟨h.decodes, h.machs.imp fun hne a ha b hb => ?_⟩
    obtain ⟨_, rfl⟩ := entry?_eq_some_iff.1 ha
    obtain ⟨_, rfl⟩ := entry?_eq_some_iff.1 hb
    exact hne a.mid b.mid a.decoded b.decoded
  · rintro ⟨hdecodes, hmachs⟩
    refine ⟨hdecodes, hmachs.imp_of_mem fun {r s} hr hs hne a b ha hb => ?_⟩
    have hentry := entry?_eq_some_iff.2 ⟨hdecodes r hr, (rfl : (⟨a, r, ha⟩ : Entry).session = r)⟩
    have hentry' := entry?_eq_some_iff.2 ⟨hdecodes s hs, (rfl : (⟨b, s, hb⟩ : Entry).session = s)⟩
    exact hne _ hentry _ hentry'

instance (sessions : List Session) : Decidable (Distinct sessions) :=
  decidable_of_iff _ distinct_iff.symm

theorem Distinct.perm {sessions sessions' : List Session} (h : Distinct sessions)
    (hperm : sessions.Perm sessions') : Distinct sessions' where
  decodes s hs := h.decodes s (hperm.mem_iff.2 hs)
  machs := hperm.pairwise h.machs fun hne a b ha hb heq => hne b a hb ha heq.symm

end Session

namespace Index

/-- Each of distinct sessions is new when it comes in. -/
theorem newSessions_eq {sessions : List Session} (h : Session.Distinct sessions) :
    newSessions sessions = sessions := by
  induction sessions using List.reverseRecOn with
  | nil => rfl
  | append_singleton sessions s ih =>
    obtain ⟨hfront, _, hlast⟩ := List.pairwise_append.1 h.machs
    have hfresh : s.IsNew sessions :=
      ⟨h.decodes s (by simp), fun r hr _ => hlast r hr s List.mem_cons_self⟩
    rw [newSessions_concat, if_pos hfresh,
      ih ⟨fun r hr => h.decodes r (List.mem_append_left _ hr), hfront⟩]

/-- The indexes have the same sessions, each in an order of its own. -/
def SameEntries (x y : Index) : Prop := x.entries.Perm y.entries

theorem sameEntries_ofTrace {t t' : Trace} (h : Session.Distinct t.sessions)
    (hperm : t.sessions.Perm t'.sessions) : (ofTrace t).SameEntries (ofTrace t') := by
  refine (List.map_perm_map_iff Entry.session_injective).1 ?_
  rw [entries_ofTrace, entries_ofTrace, newSessions_eq h, newSessions_eq (h.perm hperm)]
  exact hperm

/-- Two orders of the same sessions are one if both ascend. -/
theorem eq_of_perm_of_ascend {l l' : List Entry} (hperm : l.Perm l')
    (hl : l.Pairwise fun a b => a.mach < b.mach) (hl' : l'.Pairwise fun a b => a.mach < b.mach) :
    l = l' :=
  hperm.eq_of_pairwise (fun _ _ _ _ hab hba => absurd hba (UInt64.lt_asymm hab)) hl hl'

namespace SameEntries

variable {x y : Index} (h : x.SameEntries y)
include h

theorem symm : y.SameEntries x := List.Perm.symm h

/-! ## Looking up and climbing -/

theorem get?_eq : x.get? = y.get? := by
  funext id
  refine Option.ext fun e => ?_
  rw [get?_eq_some_iff, get?_eq_some_iff, List.Perm.mem_iff h]

theorem parent?_eq : x.parent? = y.parent? := by
  funext e
  rw [parent?, parent?, h.get?_eq]

theorem isWalk {e : Entry} {way : List Entry} (hway : x.IsWalk e way) : y.IsWalk e way where
  first := hway.first
  linked := h.parent?_eq ▸ hway.linked
  nodup := hway.nodup
  stops := h.parent?_eq ▸ hway.stops

theorem endsIn {way : List Entry} {s : Summit} (hend : x.EndsIn way s) : y.EndsIn way s := by
  cases hend with
  | root hlast hnone => exact .root hlast hnone
  | missing hlast hid hnone => exact .missing hlast hid (h.get?_eq ▸ hnone)
  | metAgain hlast hup hmem => exact .metAgain hlast (h.parent?_eq ▸ hup) hmem

theorem chain_eq (id : String) : x.chain id = y.chain id := by
  cases he : x.get? id with
  | none =>
    have he' : y.get? id = none := h.get?_eq ▸ he
    rw [chain, chain, he, he']
  | some e =>
    have he' : y.get? id = some e := h.get?_eq ▸ he
    obtain ⟨way, s, hway, hend⟩ := exists_walk (get?_eq_some_iff.1 he).1
    rw [Index.chain_eq he hway hend, Index.chain_eq he' (h.isWalk hway) (h.endsIn hend)]

/-! ## Sessions by machine -/

theorem roots_eq : x.roots = y.roots := by
  refine eq_of_perm_of_ascend ?_ x.roots_ascend y.roots_ascend
  exact (List.mergeSort_perm _ _).trans
    ((List.Perm.filter _ h).trans (List.mergeSort_perm _ _).symm)

theorem root?_eq : x.root? = y.root? := by
  funext mach
  rw [root?, root?, h.roots_eq]

theorem runSize_eq : x.runSize = y.runSize := by
  funext mach
  exact List.Perm.countP_eq _ h

theorem kids_perm (id : String) : (x.kids id).Perm (y.kids id) := List.Perm.filter _ h

end SameEntries

/-- What two indexes of the same sessions agree on. -/
structure Alike (x y : Index) : Prop where
  sessions : x.entries.Perm y.entries
  get? : ∀ id, x.get? id = y.get? id
  roots : x.roots = y.roots
  root? : ∀ mach, x.root? mach = y.root? mach
  runSize : ∀ mach, x.runSize mach = y.runSize mach
  /-- Also the faults are the same where there is no chain. -/
  chain : ∀ id, x.chain id = y.chain id

theorem SameEntries.alike {x y : Index} (h : x.SameEntries y) : x.Alike y where
  sessions := h
  get? id := congrFun h.get?_eq id
  roots := h.roots_eq
  root? mach := congrFun h.root?_eq mach
  runSize mach := congrFun h.runSize_eq mach
  chain := h.chain_eq

end Index

end TraceExplorer
