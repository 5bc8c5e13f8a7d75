import TraceExplorer.Proofs.Index.Walk
import Mathlib.Data.List.Perm.Subperm
import Mathlib.Logic.Function.Iterate

/-
  What a chain says about the walk up from a text. `walkId?` numbers what the walk comes to, and
  goes round and round where parents form a cycle. A walk comes to a session without a parent, to
  a text that is not indexed, or to a session again, and it does no two of these
  (`ReachesRoot.not_misses`, `Returns.isSome_walk?`). The chain says which, and where
  (`chain_followsWalk`). `Search` follows the walk in turns and remembers the machines met. They
  are distinct in an index, so there are at most as many turns as sessions, and one more to find a
  session again (`Search.turns_eq_done`).
-/

namespace TraceExplorer.Index

variable {x : Index} {id : String}

/-! ## The walk by numbers -/

/-- The `n`-th text of the walk from `id`: `id`, and then what each session names as its parent. -/
def walkId? (x : Index) (id : String) : Nat → Option String
  | 0 => some id
  | n + 1 => ((x.walkId? id n).bind x.get?).bind Entry.parentId

/-- The `n`-th session of the walk from `id`. -/
def walk? (x : Index) (id : String) (n : Nat) : Option Entry := (x.walkId? id n).bind x.get?

theorem walkId?_succ (x : Index) (id : String) (n : Nat) :
    x.walkId? id (n + 1) = (x.walk? id n).bind Entry.parentId := rfl

theorem walk?_succ (x : Index) (id : String) (n : Nat) :
    x.walk? id (n + 1) = (x.walk? id n).bind x.parent? := by
  rw [walk?, walkId?_succ, Option.bind_assoc]
  rfl

/-- Before a text of the walk there are sessions only. -/
theorem isSome_walk?_of_lt {m n : Nat} (h : (x.walkId? id n).isSome) (hmn : m < n) :
    (x.walk? id m).isSome := by
  induction n with
  | zero => cases hmn
  | succ n ih =>
    rw [walkId?_succ] at h
    have hn : (x.walk? id n).isSome := Option.isSome_of_isSome_bind h
    rcases Nat.lt_or_eq_of_le (Nat.le_of_lt_succ hmn) with hmn | rfl
    · exact ih (Option.isSome_of_isSome_bind hn) hmn
    · exact hn

/-- The walk comes to a session without a parent. -/
def ReachesRoot (x : Index) (id : String) : Prop :=
  ∃ n e, x.walk? id n = some e ∧ e.parentId = none

/-- The walk comes to the text `parent`, which is not indexed. -/
def Misses (x : Index) (id parent : String) : Prop :=
  ∃ n, x.walkId? id n = some parent ∧ x.get? parent = none

/-- The walk comes to the session `e` again. -/
def Returns (x : Index) (id : String) (e : Entry) : Prop :=
  ∃ m n, m < n ∧ x.walk? id m = some e ∧ x.walk? id n = some e

/-- The walk comes to `n` sessions, each of them another one. -/
def Fresh (x : Index) (id : String) (n : Nat) : Prop :=
  ∀ m, m < n → ∃ e, x.walk? id m = some e ∧ ∀ l, l < m → x.walk? id l ≠ some e

/-! ## The walk does one thing -/

/-- A walk that misses a text has no session there. -/
theorem Misses.exists_end {parent : String} (h : x.Misses id parent) :
    ∃ n, x.walkId? id n = some parent ∧ x.walk? id n = none := by
  obtain ⟨n, hn, hnone⟩ := h
  refine ⟨n, hn, ?_⟩
  rw [walk?, hn]
  exact hnone

/-- Where the walk has no session it ends. -/
theorem le_of_walk?_eq_none {m n : Nat} {text : String} (hn : x.walk? id n = none)
    (hm : x.walkId? id m = some text) : m ≤ n := by
  refine Nat.le_of_not_lt fun hnm => ?_
  have hsome := isSome_walk?_of_lt (Option.isSome_of_eq_some hm) hnm
  rw [hn] at hsome
  cases hsome

theorem Misses.unique {a b : String} (ha : x.Misses id a) (hb : x.Misses id b) : a = b := by
  obtain ⟨m, hm, hmnone⟩ := ha.exists_end
  obtain ⟨n, hn, hnnone⟩ := hb.exists_end
  obtain rfl : m = n :=
    Nat.le_antisymm (le_of_walk?_eq_none hnnone hm) (le_of_walk?_eq_none hmnone hn)
  exact Option.some.inj (hm.symm.trans hn)

theorem ReachesRoot.not_misses (h : x.ReachesRoot id) (parent : String) :
    ¬ x.Misses id parent := by
  intro hmiss
  obtain ⟨m, e, hm, hroot⟩ := h
  obtain ⟨n, hn, hnone⟩ := hmiss.exists_end
  have htop : x.walkId? id (m + 1) = none := by rw [walkId?_succ, hm, Option.bind_some, hroot]
  obtain ⟨text, htext, _⟩ := Option.bind_eq_some_iff.1 hm
  have hle : m ≤ n := le_of_walk?_eq_none hnone htext
  have hge : n ≤ m + 1 := le_of_walk?_eq_none (by rw [walk?, htop]; rfl) hn
  rcases Nat.lt_or_eq_of_le hge with hlt | rfl
  · obtain rfl : n = m := by omega
    rw [hm] at hnone
    cases hnone
  · rw [htop] at hn
    cases hn

/-- A walk that comes to a session again goes on for ever. -/
theorem Returns.isSome_walk? {e : Entry} (h : x.Returns id e) (k : Nat) :
    (x.walk? id k).isSome := by
  obtain ⟨m, n, hmn, hm, hn⟩ := h
  -- From the session on, the walk repeats itself with the period `n - m`.
  have hround : ∀ k, x.walk? id (m + k) = x.walk? id (n + k) := by
    intro k
    induction k with
    | zero => exact hm.trans hn.symm
    | succ k ih => rw [← Nat.add_assoc, ← Nat.add_assoc, walk?_succ, walk?_succ, ih]
  induction k using Nat.strongRecOn with
  | ind k ih =>
    rcases Nat.lt_trichotomy k n with hk | rfl | hk
    · exact isSome_walk?_of_lt (Option.isSome_of_isSome_bind (Option.isSome_of_eq_some hn)) hk
    · exact Option.isSome_of_eq_some hn
    · obtain ⟨j, rfl⟩ := Nat.exists_eq_add_of_le (Nat.le_of_lt hk)
      rw [← hround]
      exact ih (m + j) (by omega)

theorem Returns.not_misses {e : Entry} (h : x.Returns id e) (parent : String) :
    ¬ x.Misses id parent := by
  intro hmiss
  obtain ⟨n, _, hnone⟩ := hmiss.exists_end
  have hsome := h.isSome_walk? n
  rw [hnone] at hsome
  cases hsome

theorem Returns.not_reachesRoot {e : Entry} (h : x.Returns id e) : ¬ x.ReachesRoot id := by
  rintro ⟨n, top, hn, hroot⟩
  have hsome := h.isSome_walk? (n + 1)
  rw [walk?_succ, hn, Option.bind_some, parent?_eq_none hroot] at hsome
  cases hsome

/-! ## The walk of a session -/

section

variable {e : Entry} {way : List Entry} (hget : x.get? id = some e) (hway : x.IsWalk e way)
include hget hway

theorem IsWalk.walk?_eq {n : Nat} (hn : n < way.length) : x.walk? id n = way[n]? := by
  induction n with
  | zero =>
    rw [← List.head?_eq_getElem?, hway.first]
    exact hget
  | succ n ih =>
    rw [walk?_succ, ih (by omega), List.getElem?_eq_getElem (by omega), Option.bind_some,
      List.getElem?_eq_getElem hn]
    exact hway.linked.getElem n hn

theorem IsWalk.fresh : x.Fresh id way.length := by
  intro m hm
  refine ⟨way[m], ?_, fun l hl heq => ?_⟩
  · rw [hway.walk?_eq hget hm, List.getElem?_eq_getElem hm]
  · rw [hway.walk?_eq hget (by omega), List.getElem?_eq_getElem (by omega)] at heq
    have := (hway.nodup.getElem_inj_iff).1 (Option.some.inj heq)
    omega

theorem IsWalk.walk?_last {last : Entry} (hlast : way.getLast? = some last) :
    ∃ n, way.length = n + 1 ∧ x.walk? id n = some last := by
  obtain ⟨front, rfl⟩ := List.getLast?_eq_some_iff.1 hlast
  refine ⟨front.length, List.length_append, ?_⟩
  rw [hway.walk?_eq hget (by simp), List.getElem?_concat_length]

end

/-- The walk misses the text `parent`, after sessions that are each another one. -/
def FirstMisses (x : Index) (id parent : String) : Prop :=
  ∃ n, x.Fresh id n ∧ x.walkId? id n = some parent ∧ x.get? parent = none

/-- The session `e` is the first that the walk comes to again. -/
def FirstReturns (x : Index) (id : String) (e : Entry) : Prop :=
  ∃ m n, m < n ∧ x.Fresh id n ∧ x.walk? id m = some e ∧ x.walk? id n = some e

theorem FirstMisses.misses {parent : String} (h : x.FirstMisses id parent) :
    x.Misses id parent := by
  obtain ⟨n, _, hn⟩ := h
  exact ⟨n, hn⟩

theorem FirstReturns.returns {e : Entry} (h : x.FirstReturns id e) : x.Returns id e := by
  obtain ⟨m, n, hmn, _, hm, hn⟩ := h
  exact ⟨m, n, hmn, hm, hn⟩

/-- Where a session is met again, no more sessions are new. -/
theorem Fresh.le {e : Entry} {m n k : Nat} (h : x.Fresh id k) (hmn : m < n)
    (hm : x.walk? id m = some e) (hn : x.walk? id n = some e) : k ≤ n := by
  refine Nat.le_of_not_lt fun hnk => ?_
  obtain ⟨f, hf, hnew⟩ := h n hnk
  rw [Option.some.inj (hf.symm.trans hn)] at hnew
  exact hnew m hmn hm

theorem FirstReturns.unique {e f : Entry} (he : x.FirstReturns id e) (hf : x.FirstReturns id f) :
    e = f := by
  obtain ⟨m, n, hmn, hfresh, hm, hn⟩ := he
  obtain ⟨m', n', hmn', hfresh', hm', hn'⟩ := hf
  obtain rfl : n = n' := Nat.le_antisymm (hfresh.le hmn' hm' hn') (hfresh'.le hmn hm hn)
  exact Option.some.inj (hn.symm.trans hn')

/-- What the walk does, for each answer. -/
inductive WalkEnd (x : Index) (id : String) : Except Fault (List Entry) → Prop where
  | root {chain : List Entry} (h : x.ReachesRoot id) : WalkEnd x id (.ok chain)
  | missing {parent : String} (h : x.FirstMisses id parent) :
      WalkEnd x id (.error (.notFound parent))
  | again {e : Entry} (h : x.FirstReturns id e) :
      WalkEnd x id (.error (.brokenPath id (.cycleAt e.id)))

theorem walkEnd_of_endsIn {e : Entry} {way : List Entry} {s : Summit} (hget : x.get? id = some e)
    (hway : x.IsWalk e way) (hend : x.EndsIn way s) : x.WalkEnd id (x.chain id) := by
  rw [chain_eq hget hway hend]
  cases hend with
  | root hlast hroot =>
    obtain ⟨n, _, hn⟩ := hway.walk?_last hget hlast
    exact .root ⟨n, _, hn, hroot⟩
  | missing hlast hparent hnone =>
    obtain ⟨n, hlen, hn⟩ := hway.walk?_last hget hlast
    refine .missing ⟨way.length, hway.fresh hget, ?_, hnone⟩
    rw [hlen, walkId?_succ, hn]
    exact hparent
  | metAgain hlast hup hmem =>
    obtain ⟨n, hlen, hn⟩ := hway.walk?_last hget hlast
    obtain ⟨m, hm, rfl⟩ := List.mem_iff_getElem.1 hmem
    refine .again ⟨m, way.length, hm, hway.fresh hget, ?_, ?_⟩
    · rw [hway.walk?_eq hget hm, List.getElem?_eq_getElem hm]
    · rw [hlen, walk?_succ, hn]
      exact hup

theorem walkEnd_chain (x : Index) (id : String) : x.WalkEnd id (x.chain id) := by
  cases hget : x.get? id with
  | none =>
    rw [chain, hget]
    exact .missing ⟨0, fun m hm => absurd hm (Nat.not_lt_zero m), rfl, hget⟩
  | some e =>
    obtain ⟨way, s, hway, hend⟩ := exists_walk (get?_eq_some_iff.1 hget).1
    exact walkEnd_of_endsIn hget hway hend

/-! ## The chain of a root -/

/-- The chain leads down from a root to `id`. -/
structure LeadsDown (x : Index) (id : String) (chain : List Entry) : Prop where
  first : ∃ root, chain.head? = some root ∧ root.parentId = none
  last : ∃ e, chain.getLast? = some e ∧ e.id = id
  linked : chain.IsChain fun a b => b.parentId = some a.id
  /-- Upwards it is the walk. -/
  walk : ∀ n, chain.reverse[n]? = x.walk? id n
  nodup : chain.Nodup
  length_le : chain.length ≤ x.size
  /-- Every session on the chain has the part down to it as its own chain. -/
  front : ∀ n e, chain[n]? = some e → x.chain e.id = .ok (chain.take (n + 1))

/-- The front of a chain is a walk to the root as well, turned round. -/
theorem chain_take {chain : List Entry} (h : x.chain id = .ok chain) {n : Nat} {e : Entry}
    (he : chain[n]? = some e) : x.chain e.id = .ok (chain.take (n + 1)) := by
  have hentries := mem_entries_of_chain h
  obtain ⟨_, _, hway, hend⟩ := walk_of_chain h
  have hlast : (chain.take (n + 1)).getLast? = some e := by
    rw [List.take_add_one, he, Option.toList_some, List.getLast?_concat]
  cases hend with
  | @root top htop hroot =>
    rw [List.getLast?_reverse] at htop
    have hhead : (chain.take (n + 1)).reverse.getLast? = some top := by
      rw [List.getLast?_reverse, List.head?_take, if_neg (Nat.succ_ne_zero n)]
      exact htop
    have hwalk : x.IsWalk e (chain.take (n + 1)).reverse :=
      { first := by rw [List.head?_reverse, hlast]
        linked := List.isChain_reverse.2 ((chain_linked h).take (n + 1))
        nodup := List.nodup_reverse.2 ((List.nodup_reverse.1 hway.nodup).sublist
          (List.take_sublist _ _))
        stops := fun last up hlast hup => by
          rw [Option.some.inj (hlast.symm.trans hhead), parent?_eq_none hroot] at hup
          cases hup }
    have hchain := chain_eq (get?_id (hentries e (List.mem_of_getElem? he))) hwalk
      (.root hhead hroot)
    rwa [List.reverse_reverse] at hchain

theorem leadsDown_chain {chain : List Entry} (h : x.chain id = .ok chain) :
    x.LeadsDown id chain := by
  have hentries := mem_entries_of_chain h
  obtain ⟨e, hget, hway, hend⟩ := walk_of_chain h
  have hnodup := List.nodup_reverse.1 hway.nodup
  have hfirst := hway.first
  rw [List.head?_reverse] at hfirst
  cases hend with
  | root htop hroot =>
    refine
      { first := ⟨_, by rwa [List.getLast?_reverse] at htop, hroot⟩
        last := ⟨e, hfirst, (get?_eq_some_iff.1 hget).2⟩
        linked := (chain_linked h).imp fun a b hup => (parent?_eq_some_iff.1 hup).2
        walk := fun n => ?_
        nodup := hnodup
        length_le := (List.subperm_of_subset hnodup hentries).length_le
        front := fun n f => chain_take h }
    rcases Nat.lt_or_ge n chain.reverse.length with hn | hn
    · exact (hway.walk?_eq hget hn).symm
    · -- Behind the root the walk has no session.
      rw [List.getElem?_eq_none hn]
      obtain ⟨k, hlen, hk⟩ := hway.walk?_last hget htop
      have hnone : x.walk? id (k + 1) = none := by
        rw [walk?_succ, hk, Option.bind_some, parent?_eq_none hroot]
      refine (Option.eq_none_iff_forall_not_mem.2 fun f hf => ?_).symm
      obtain ⟨text, htext, _⟩ := Option.bind_eq_some_iff.1 hf
      have hle := le_of_walk?_eq_none hnone htext
      obtain rfl : n = k + 1 := by omega
      rw [hnone] at hf
      cases hf

/-! ## The search in turns -/

/-- A search for a chain: the session to visit next and those visited, or the answer. -/
inductive Search where
  | visit (e : Entry) (visited : List Entry)
  | done (answer : Except Fault (List Entry))

namespace Search

/-- The search for the chain of `id` begins with the session of that text. -/
def start (x : Index) (id : String) : Search :=
  match x.get? id with
  | none => .done (.error (.notFound id))
  | some e => .visit e []

/-- Visits a session, unless its machine was met, and goes on to its parent. -/
def turn (x : Index) (id : String) : Search → Search
  | .done answer => .done answer
  | .visit e visited =>
    if e.mach ∈ visited.map Entry.mach then .done (.error (.brokenPath id (.cycleAt e.id)))
    else
      match e.parentId with
      | none => .done (.ok (e :: visited))
      | some parent =>
        match x.get? parent with
        | none => .done (.error (.notFound parent))
        | some up => .visit up (e :: visited)

variable {e : Entry} {visited : List Entry}

theorem turn_of_parent? {up : Entry} (hnew : e.mach ∉ visited.map Entry.mach)
    (hup : x.parent? e = some up) : turn x id (.visit e visited) = .visit up (e :: visited) := by
  obtain ⟨parent, hparent, hget⟩ := Option.bind_eq_some_iff.1 hup
  rw [turn, if_neg hnew, hparent]
  simp only [hget]

/-- A way up through new machines is visited session by session. -/
theorem turns_of_linked {front : List Entry} {last : Entry}
    (hfirst : (front ++ [last]).head? = some e)
    (hlinked : (front ++ [last]).IsChain fun a b => x.parent? a = some b)
    (hnew : ((front ++ [last]).map Entry.mach ++ visited.map Entry.mach).Nodup) :
    (turn x id)^[front.length] (.visit e visited) = .visit last (front.reverse ++ visited) := by
  induction front generalizing e visited with
  | nil =>
    obtain rfl : last = e := Option.some.inj hfirst
    rfl
  | cons a front ih =>
    obtain rfl : a = e := Option.some.inj hfirst
    obtain ⟨up, hup⟩ : ∃ up, (front ++ [last]).head? = some up := by
      cases front with
      | nil => exact ⟨last, rfl⟩
      | cons b front => exact ⟨b, rfl⟩
    have hchain := List.isChain_cons.1 hlinked
    have hfresh : a.mach ∉ visited.map Entry.mach := fun hmem =>
      (List.nodup_append.1 hnew).2.2 a.mach List.mem_cons_self a.mach hmem rfl
    have hrest : ((front ++ [last]).map Entry.mach ++ (a :: visited).map Entry.mach).Nodup :=
      List.perm_middle.nodup_iff.2 hnew
    rw [List.length_cons, Function.iterate_succ_apply,
      turn_of_parent? hfresh (hchain.1 up hup), ih hup hchain.2 hrest, List.reverse_cons,
      List.append_assoc, List.singleton_append]

theorem turns_done (answer : Except Fault (List Entry)) (n : Nat) :
    (turn x id)^[n] (.done answer) = .done answer :=
  Function.iterate_fixed rfl n

/-- From the last session of a walk the search is done in two turns, the second of them on a
    session met before. -/
theorem turns_last {way front : List Entry} {last : Entry} {s : Summit}
    (hway : way = front ++ [last]) (hnew : last.mach ∉ front.reverse.map Entry.mach) :
    x.EndsIn way s → (turn x id)^[2] (.visit last front.reverse) = .done (match s with
      | .root => .ok way.reverse
      | .missing parent => .error (.notFound parent)
      | .metAgain again => .error (.brokenPath id (.cycleAt again.id))) := by
  intro hend
  have hlast : way.getLast? = some last := by rw [hway, List.getLast?_concat]
  have hreverse : last :: front.reverse = way.reverse := by rw [hway, List.reverse_concat]
  rw [Function.iterate_succ_apply, Function.iterate_one]
  cases hend with
  | root htop hroot =>
    obtain rfl := Option.some.inj (hlast.symm.trans htop)
    have hturn : turn x id (.visit last front.reverse) = .done (.ok way.reverse) := by
      rw [turn, if_neg hnew, hroot]
      simp only [hreverse]
    rw [hturn]
    rfl
  | @missing _ parent htop hparent hnone =>
    obtain rfl := Option.some.inj (hlast.symm.trans htop)
    have hturn : turn x id (.visit last front.reverse) = .done (.error (.notFound parent)) := by
      rw [turn, if_neg hnew, hparent]
      simp only [hnone]
    rw [hturn]
    rfl
  | @metAgain _ up htop hup hmem =>
    obtain rfl := Option.some.inj (hlast.symm.trans htop)
    have hmet : up.mach ∈ way.reverse.map Entry.mach :=
      List.mem_map_of_mem (List.mem_reverse.2 hmem)
    rw [turn_of_parent? hnew hup, hreverse, turn, if_pos hmet]

/-- The search is done after one turn for each indexed session and one more, and it finds the
    chain. -/
theorem turns_eq_done (x : Index) (id : String) :
    (turn x id)^[x.size + 1] (start x id) = .done (x.chain id) := by
  cases hget : x.get? id with
  | none =>
    rw [start, hget, chain, hget]
    exact turns_done _ _
  | some e =>
    have hmem := (get?_eq_some_iff.1 hget).1
    obtain ⟨way, s, hway, hend⟩ := exists_walk hmem
    obtain ⟨last, hlast⟩ : ∃ last, way.getLast? = some last := by
      cases hend with
      | root h | missing h | metAgain h => exact ⟨_, h⟩
    obtain ⟨front, hfront⟩ := List.getLast?_eq_some_iff.1 hlast
    have hmachs := hway.nodup_machs hmem
    have hlen : way.length ≤ x.size :=
      (List.subperm_of_subset hway.nodup (hway.mem_entries hmem)).length_le
    have hfirst := hway.first
    have hlinked := hway.linked
    rw [hfront] at hmachs hfirst hlinked hlen
    have hnew : last.mach ∉ front.reverse.map Entry.mach := by
      rw [List.map_append, List.nodup_append] at hmachs
      intro hmet
      rw [List.map_reverse, List.mem_reverse] at hmet
      exact hmachs.2.2 _ hmet _ List.mem_cons_self rfl
    obtain ⟨more, hmore⟩ : ∃ more, x.size + 1 = more + (2 + front.length) :=
      ⟨x.size + 1 - (2 + front.length), by
        rw [List.length_append, List.length_singleton] at hlen
        omega⟩
    rw [start, hget, hmore, Function.iterate_add_apply, Function.iterate_add_apply,
      turns_of_linked hfirst hlinked (by simpa using hmachs), List.append_nil,
      turns_last hfront hnew hend, turns_done]
    exact (congrArg done (chain_eq hget hway hend)).symm

end Search

/-! ## Chains and walks -/

/-- The search for the chain of `id` ends, and its answer tells what the walk from `id` does. -/
structure FollowsWalk (x : Index) (id : String) : Prop where
  ends : (Search.turn x id)^[x.size + 1] (Search.start x id) = .done (x.chain id)
  answers : (∃ chain, x.chain id = .ok chain) ∨
    (∃ parent, x.chain id = .error (.notFound parent)) ∨
      ∃ reason, x.chain id = .error (.brokenPath id reason)
  ok_iff : (∃ chain, x.chain id = .ok chain) ↔
    (∀ n text, x.walkId? id n = some text → (x.get? text).isSome) ∧ x.ReachesRoot id
  leadsDown : ∀ chain, x.chain id = .ok chain → x.LeadsDown id chain
  notFound_iff : ∀ parent, x.chain id = .error (.notFound parent) ↔ x.FirstMisses id parent
  broken_iff : (∃ reason, x.chain id = .error (.brokenPath id reason)) ↔ ∃ e, x.Returns id e
  brokenAt_iff : ∀ reason, x.chain id = .error (.brokenPath id reason) ↔
    ∃ e, x.FirstReturns id e ∧ reason = .cycleAt e.id

/-- Every text of a walk to a root is indexed. -/
theorem ReachesRoot.isSome_get? (h : x.ReachesRoot id) {n : Nat} {text : String}
    (hn : x.walkId? id n = some text) : (x.get? text).isSome := by
  cases hget : x.get? text with
  | some e => rfl
  | none => exact absurd ⟨n, hn, hget⟩ (h.not_misses text)

namespace WalkEnd

variable {answer : Except Fault (List Entry)} (hend : x.WalkEnd id answer)
include hend

theorem answers : (∃ chain, answer = .ok chain) ∨
    (∃ parent, answer = .error (.notFound parent)) ∨
      ∃ reason, answer = .error (.brokenPath id reason) := by
  cases hend with
  | root => exact Or.inl ⟨_, rfl⟩
  | missing => exact Or.inr (Or.inl ⟨_, rfl⟩)
  | again => exact Or.inr (Or.inr ⟨_, rfl⟩)

theorem ok_iff : (∃ chain, answer = .ok chain) ↔
    (∀ n text, x.walkId? id n = some text → (x.get? text).isSome) ∧ x.ReachesRoot id := by
  cases hend with
  | root h => exact ⟨fun _ => ⟨fun _ _ => h.isSome_get?, h⟩, fun _ => ⟨_, rfl⟩⟩
  | missing h =>
    refine ⟨fun ⟨_, hok⟩ => (by cases hok), fun ⟨_, hroot⟩ => ?_⟩
    exact absurd h.misses (hroot.not_misses _)
  | again h =>
    refine ⟨fun ⟨_, hok⟩ => (by cases hok), fun ⟨_, hroot⟩ => ?_⟩
    exact absurd hroot h.returns.not_reachesRoot

theorem notFound_iff (parent : String) :
    answer = .error (.notFound parent) ↔ x.FirstMisses id parent := by
  cases hend with
  | root h =>
    refine ⟨fun herr => (by cases herr), fun hmiss => ?_⟩
    exact absurd hmiss.misses (h.not_misses parent)
  | missing h =>
    refine ⟨fun herr => ?_, fun hmiss => ?_⟩
    · cases herr
      exact h
    · rw [h.misses.unique hmiss.misses]
  | again h =>
    refine ⟨fun herr => (by cases herr), fun hmiss => ?_⟩
    exact absurd hmiss.misses (h.returns.not_misses parent)

theorem brokenAt_iff (reason : Break) : answer = .error (.brokenPath id reason) ↔
    ∃ e, x.FirstReturns id e ∧ reason = .cycleAt e.id := by
  cases hend with
  | root h =>
    refine ⟨fun herr => (by cases herr), fun ⟨e, he, _⟩ => ?_⟩
    exact absurd h he.returns.not_reachesRoot
  | missing h =>
    refine ⟨fun herr => (by cases herr), fun ⟨e, he, _⟩ => ?_⟩
    exact absurd h.misses (he.returns.not_misses _)
  | again h =>
    refine ⟨fun herr => ?_, fun ⟨e, he, hreason⟩ => ?_⟩
    · cases herr
      exact ⟨_, h, rfl⟩
    · rw [hreason, h.unique he]

theorem broken_iff :
    (∃ reason, answer = .error (.brokenPath id reason)) ↔ ∃ e, x.Returns id e := by
  cases hend with
  | root h =>
    refine ⟨fun ⟨_, herr⟩ => (by cases herr), fun ⟨e, he⟩ => ?_⟩
    exact absurd h he.not_reachesRoot
  | missing h =>
    refine ⟨fun ⟨_, herr⟩ => (by cases herr), fun ⟨e, he⟩ => ?_⟩
    exact absurd h.misses (he.not_misses _)
  | again h => exact ⟨fun _ => ⟨_, h.returns⟩, fun _ => ⟨_, rfl⟩⟩

end WalkEnd

theorem chain_followsWalk (x : Index) (id : String) : x.FollowsWalk id := by
  have hend := x.walkEnd_chain id
  exact
    { ends := Search.turns_eq_done x id
      answers := hend.answers
      ok_iff := hend.ok_iff
      leadsDown := fun _ => leadsDown_chain
      notFound_iff := hend.notFound_iff
      broken_iff := hend.broken_iff
      brokenAt_iff := hend.brokenAt_iff }

end TraceExplorer.Index
