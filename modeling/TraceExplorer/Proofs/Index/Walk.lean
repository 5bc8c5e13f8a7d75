import TraceExplorer.Proofs.Index.Lookup
import Mathlib.Data.List.Chain

/-
  The walk from a session to its parent, to the parent of that, and so on.
  `IsWalk` says what the walk is, without the machines that `climb` has not met yet: linked by
  parents, no session twice, and no further only where the parent is not indexed or was met.
  Each session has one walk (`IsWalk.unique`), and `ascent` takes it (`isWalk_ascent`) and says
  how it ends (`endsIn_ascent`). A chain is a walk that ends at a root, turned round; why there is
  none says `Lost`. `ancestor?` counts the steps: a session without a parent is reached after one
  number of them (`ancestor?_unique`).
-/

namespace TraceExplorer.Index

variable {x : Index}

/-! ## Parents -/

/-- The session that `e` names as its parent, if it is indexed. -/
def parent? (x : Index) (e : Entry) : Option Entry := e.parentId.bind x.get?

theorem parent?_eq_some_iff {e p : Entry} :
    x.parent? e = some p ↔ p ∈ x.entries ∧ e.parentId = some p.id := by
  unfold parent?
  rw [Option.bind_eq_some_iff]
  constructor
  · rintro ⟨id, hid, hg⟩
    obtain ⟨hp, rfl⟩ := get?_eq_some_iff.1 hg
    exact ⟨hp, hid⟩
  · rintro ⟨hp, hid⟩
    exact ⟨p.id, hid, get?_id hp⟩

theorem parent?_eq_none {e : Entry} (h : e.parentId = none) : x.parent? e = none := by
  rw [parent?, h]
  rfl

/-! ## Ancestors by the number of steps -/

/-- The ancestor of `e` after `n` steps. -/
def ancestor? (x : Index) : Nat → Entry → Option Entry
  | 0, e => some e
  | n + 1, e => (x.parent? e).bind (x.ancestor? n)

theorem ancestor?_add (m n : Nat) (e : Entry) :
    x.ancestor? (m + n) e = (x.ancestor? m e).bind (x.ancestor? n) := by
  induction m generalizing e with
  | zero => rw [Nat.zero_add]; rfl
  | succ m ih =>
    rw [Nat.add_right_comm]
    simp only [ancestor?]
    rw [Option.bind_assoc, funext ih]

/-- A session without a parent is reached after one number of steps. -/
theorem ancestor?_unique {r e : Entry} (hr : r.parentId = none) {m n : Nat}
    (hm : x.ancestor? m e = some r) (hn : x.ancestor? n e = some r) : m = n := by
  induction m generalizing n e with
  | zero =>
    cases n with
    | zero => rfl
    | succ n =>
      rw [Option.some.inj hm] at hn
      rw [ancestor?, parent?_eq_none hr] at hn
      cases hn
  | succ m ih =>
    cases n with
    | zero =>
      rw [Option.some.inj hn] at hm
      rw [ancestor?, parent?_eq_none hr] at hm
      cases hm
    | succ n =>
      obtain ⟨p, hp, hm⟩ := Option.bind_eq_some_iff.1 hm
      rw [ancestor?, hp] at hn
      rw [ih hm hn]

/-! ## Walks -/

/-- The sessions from `e` upwards, each the parent of the one before, to the first whose parent
    is not indexed or was met before. -/
structure IsWalk (x : Index) (e : Entry) (way : List Entry) : Prop where
  first : way.head? = some e
  linked : way.IsChain fun a b => x.parent? a = some b
  nodup : way.Nodup
  stops : ∀ last up, way.getLast? = some last → x.parent? last = some up → up ∈ way

/-- Two ways up from one session part nowhere. -/
theorem prefix_or_prefix_of_linked {v w : List Entry} (h : v.head? = w.head?)
    (hv : v.IsChain fun a b => x.parent? a = some b)
    (hw : w.IsChain fun a b => x.parent? a = some b) : v <+: w ∨ w <+: v := by
  induction v generalizing w with
  | nil => exact Or.inl List.nil_prefix
  | cons a v ih =>
    cases w with
    | nil => exact Or.inr List.nil_prefix
    | cons b w =>
      obtain rfl : a = b := by simpa using h
      cases v with
      | nil => exact Or.inl (by simp)
      | cons c v =>
        cases w with
        | nil => exact Or.inr (by simp)
        | cons d w =>
          have hc := (List.isChain_cons_cons.1 hv).1
          have hd := (List.isChain_cons_cons.1 hw).1
          obtain rfl : c = d := Option.some.inj (hc.symm.trans hd)
          have hhead : (c :: v).head? = (c :: w).head? := rfl
          exact (ih hhead (List.isChain_cons_cons.1 hv).2 (List.isChain_cons_cons.1 hw).2).imp
            (List.prefix_cons_inj a).2 (List.prefix_cons_inj a).2

theorem mem_entries_of_linked {v : List Entry} (hv : v.IsChain fun a b => x.parent? a = some b)
    (he : ∀ e ∈ v.head?, e ∈ x.entries) : ∀ a ∈ v, a ∈ x.entries := by
  induction v with
  | nil => simp
  | cons e v ih =>
    have hc := List.isChain_cons.1 hv
    intro a ha
    rcases List.mem_cons.1 ha with rfl | ha
    · exact he a rfl
    · exact ih hc.2 (fun b hb => (parent?_eq_some_iff.1 (hc.1 b hb)).1) a ha

theorem IsWalk.mem_entries {e : Entry} {way : List Entry} (h : x.IsWalk e way)
    (he : e ∈ x.entries) : ∀ a ∈ way, a ∈ x.entries := by
  refine mem_entries_of_linked h.linked fun a ha => ?_
  rw [h.first] at ha
  exact Option.some.inj ha ▸ he

theorem IsWalk.nodup_machs {e : Entry} {way : List Entry} (h : x.IsWalk e way)
    (he : e ∈ x.entries) : (way.map Entry.mach).Nodup := by
  refine List.Nodup.map_on (fun a ha b hb hmach => ?_) h.nodup
  exact eq_of_mach_eq (h.mem_entries he a ha) (h.mem_entries he b hb) hmach

/-- A walk that comes by a session comes by its parent. -/
theorem IsWalk.mem_of_parent {e a p : Entry} {way : List Entry} (h : x.IsWalk e way)
    (ha : a ∈ way) (hp : x.parent? a = some p) : p ∈ way := by
  obtain ⟨below, rest, rfl⟩ := List.append_of_mem ha
  cases rest with
  | nil => exact h.stops a p List.getLast?_concat hp
  | cons q rest =>
    have hq := (List.isChain_cons_cons.1 (List.isChain_append.1 h.linked).2.1).1
    obtain rfl : p = q := Option.some.inj (hp.symm.trans hq)
    simp

/-- Every session of a way up leads to the last. -/
theorem exists_ancestor?_of_linked {v : List Entry} {last : Entry}
    (hv : v.IsChain fun a b => x.parent? a = some b) (hlast : v.getLast? = some last) :
    ∀ a ∈ v, ∃ n, x.ancestor? n a = some last := by
  induction v with
  | nil => simp
  | cons a v ih =>
    intro b hb
    cases v with
    | nil =>
      obtain rfl : b = a := by simpa using hb
      exact ⟨0, hlast⟩
    | cons c v =>
      have hc := List.isChain_cons_cons.1 hv
      rw [List.getLast?_cons_cons] at hlast
      rcases List.mem_cons.1 hb with rfl | hb
      · obtain ⟨n, hn⟩ := ih hc.2 hlast c List.mem_cons_self
        refine ⟨n + 1, ?_⟩
        rw [ancestor?, hc.1]
        exact hn
      · exact ih hc.2 hlast b hb

/-- A walk goes as far as any way up that meets no session twice. -/
theorem IsWalk.eq_of_prefix {e : Entry} {v w : List Entry} (hv : x.IsWalk e v)
    (hw : w.IsChain fun a b => x.parent? a = some b) (hn : w.Nodup) (h : v <+: w) : v = w := by
  obtain ⟨t, rfl⟩ := h
  cases t with
  | nil => rw [List.append_nil]
  | cons up t =>
    have hne : v ≠ [] := fun h0 => by
      rw [h0] at hv
      exact absurd hv.first (by simp)
    have hlast : v.getLast? = some (v.getLast hne) := List.getLast?_eq_some_getLast hne
    have hup : x.parent? (v.getLast hne) = some up :=
      (List.isChain_append.1 hw).2.2 _ (by rw [hlast]; rfl) _ (by simp)
    have hmem := hv.stops _ _ hlast hup
    exact absurd rfl ((List.nodup_append.1 hn).2.2 up hmem up List.mem_cons_self)

theorem IsWalk.unique {e : Entry} {v w : List Entry} (hv : x.IsWalk e v) (hw : x.IsWalk e w) :
    v = w := by
  rcases prefix_or_prefix_of_linked (hv.first.trans hw.first.symm) hv.linked hw.linked with h | h
  · exact hv.eq_of_prefix hw.linked hw.nodup h
  · exact (hw.eq_of_prefix hv.linked hv.nodup h).symm

/-- What the end of a way up says about the last session. -/
inductive EndsIn (x : Index) (way : List Entry) : Summit → Prop where
  | root {last : Entry} : way.getLast? = some last → last.parentId = none → EndsIn x way .root
  | missing {last : Entry} {id : String} : way.getLast? = some last →
      last.parentId = some id → x.get? id = none → EndsIn x way (.missing id)
  | metAgain {last up : Entry} : way.getLast? = some last →
      x.parent? last = some up → up ∈ way → EndsIn x way (.metAgain up)

/-- The end of a way up that goes no further than `last`. -/
def summit (x : Index) (last : Entry) : Summit :=
  match last.parentId with
  | none => .root
  | some id =>
    match x.get? id with
    | none => .missing id
    | some up => .metAgain up

theorem EndsIn.eq_summit {way : List Entry} {s : Summit} {last : Entry} (h : x.EndsIn way s)
    (hlast : way.getLast? = some last) : s = x.summit last := by
  unfold summit
  cases h with
  | root h hnone =>
    rw [Option.some.inj (hlast.symm.trans h), hnone]
  | missing h hid hnone =>
    rw [Option.some.inj (hlast.symm.trans h), hid]
    simp only [hnone]
  | metAgain h hup =>
    obtain ⟨hmem, hid⟩ := parent?_eq_some_iff.1 hup
    rw [Option.some.inj (hlast.symm.trans h), hid]
    simp only [get?_id hmem]

theorem EndsIn.unique {way : List Entry} {s t : Summit} (hs : x.EndsIn way s)
    (ht : x.EndsIn way t) : s = t := by
  obtain ⟨last, hlast⟩ : ∃ last, way.getLast? = some last := by
    cases hs with
    | root h | missing h | metAgain h => exact ⟨_, h⟩
  rw [hs.eq_summit hlast, ht.eq_summit hlast]

theorem EndsIn.mem_of_parent {way : List Entry} {summit : Summit} {last up : Entry}
    (h : x.EndsIn way summit) (hlast : way.getLast? = some last)
    (hup : x.parent? last = some up) : up ∈ way := by
  cases h with
  | root h hnone =>
    rw [Option.some.inj (hlast.symm.trans h), parent?_eq_none hnone] at hup
    cases hup
  | missing h hid hnone =>
    rw [Option.some.inj (hlast.symm.trans h), parent?, hid] at hup
    exact absurd (hnone.symm.trans hup) (by simp)
  | metAgain h hagain hmem =>
    rw [Option.some.inj (hlast.symm.trans h)] at hup
    exact Option.some.inj (hagain.symm.trans hup) ▸ hmem

/-! ## The climb -/

theorem climb_eq_cons (x : Index) (unmet : List UInt64) (e : Entry) :
    ∃ above, (x.climb unmet e).1 = e :: above := by
  fun_cases climb x unmet e with
  | case1 | case2 | case4 => exact ⟨[], rfl⟩
  | case3 => exact ⟨_, rfl⟩

theorem climb_linked (x : Index) (unmet : List UInt64) (e : Entry) :
    (x.climb unmet e).1.IsChain fun a b => x.parent? a = some b := by
  fun_induction climb x unmet e with
  | case1 | case2 | case4 => exact List.isChain_singleton _
  | case3 unmet e id hid up hup _ above summit hc ih =>
    obtain ⟨tail, htail⟩ := climb_eq_cons x (unmet.erase up.mach) up
    rw [hc] at htail ih
    obtain rfl : above = up :: tail := htail
    have hparent : x.parent? e = some up := by rw [parent?, hid]; exact hup
    exact List.isChain_cons_cons.2 ⟨hparent, ih⟩

theorem climb_subset (x : Index) (unmet : List UInt64) (e : Entry) :
    ∀ m ∈ (x.climb unmet e).1.map Entry.mach, m = e.mach ∨ m ∈ unmet := by
  fun_induction climb x unmet e with
  | case1 | case2 | case4 => simp
  | case3 unmet e id hid up hup hnew above summit hc ih =>
    rw [hc] at ih
    intro m hm
    rcases List.mem_cons.1 hm with rfl | hm
    · exact Or.inl rfl
    · rcases ih m hm with rfl | hm
      · exact Or.inr hnew
      · exact Or.inr (List.mem_of_mem_erase hm)

theorem climb_nodup (x : Index) (unmet : List UInt64) (e : Entry) (hu : unmet.Nodup)
    (he : e.mach ∉ unmet) : ((x.climb unmet e).1.map Entry.mach).Nodup := by
  fun_induction climb x unmet e with
  | case1 | case2 | case4 => exact List.nodup_singleton _
  | case3 unmet e id hid up hup hnew above summit hc ih =>
    have hsub := climb_subset x (unmet.erase up.mach) up
    rw [hc] at ih hsub
    refine List.nodup_cons.2 ⟨fun hmem => ?_, ih (hu.erase _) hu.not_mem_erase⟩
    -- The machine of `e` is neither that of its parent nor one that was not met yet.
    rcases hsub e.mach hmem with h | h
    · exact he (h ▸ hnew)
    · exact he (List.mem_of_mem_erase h)

/-- The end of a climb: a machine is met again if it was met before the climb or on it. -/
theorem climb_summit (x : Index) (unmet : List UInt64) (e : Entry) :
    ∃ last, (x.climb unmet e).1.getLast? = some last ∧
      match (x.climb unmet e).2 with
      | .root => last.parentId = none
      | .missing id => last.parentId = some id ∧ x.get? id = none
      | .metAgain up => x.parent? last = some up ∧
          (up.mach ∈ unmet → up.mach ∈ (x.climb unmet e).1.map Entry.mach) := by
  fun_induction climb x unmet e with
  | case1 unmet e hid => exact ⟨e, rfl, hid⟩
  | case2 unmet e id hid hnone => exact ⟨e, rfl, hid, hnone⟩
  | case3 unmet e id hid up hup hnew above summit hc ih =>
    obtain ⟨tail, htail⟩ := climb_eq_cons x (unmet.erase up.mach) up
    rw [hc] at htail ih
    obtain rfl : above = up :: tail := htail
    obtain ⟨last, hlast, hsummit⟩ := ih
    refine ⟨last, by rw [List.getLast?_cons_cons]; exact hlast, ?_⟩
    cases summit with
    | root => exact hsummit
    | missing id => exact hsummit
    | metAgain again =>
      refine ⟨hsummit.1, fun hmem => List.mem_cons_of_mem _ ?_⟩
      by_cases hm : again.mach = up.mach
      · rw [hm]
        exact List.mem_cons_self
      · exact hsummit.2 ((List.mem_erase_of_ne hm).2 hmem)
  | case4 unmet e id hid up hup hold =>
    have hparent : x.parent? e = some up := by rw [parent?, hid]; exact hup
    exact ⟨e, rfl, hparent, fun h => absurd h hold⟩

/-! ## The ascent -/

theorem ascent_head? (x : Index) (e : Entry) : (x.ascent e).1.head? = some e := by
  obtain ⟨above, habove⟩ := climb_eq_cons x ((x.entries.map Entry.mach).erase e.mach) e
  rw [ascent, habove]
  rfl

theorem ascent_mem_entries {e : Entry} (he : e ∈ x.entries) :
    ∀ a ∈ (x.ascent e).1, a ∈ x.entries := by
  refine mem_entries_of_linked (climb_linked x _ e) fun b hb => ?_
  have hb : e = b := Option.some.inj ((ascent_head? x e).symm.trans hb)
  exact hb ▸ he

theorem endsIn_ascent {e : Entry} (he : e ∈ x.entries) :
    x.EndsIn (x.ascent e).1 (x.ascent e).2 := by
  have hmem := ascent_mem_entries he
  have hfirst := ascent_head? x e
  obtain ⟨last, hlast, hsummit⟩ :=
    climb_summit x ((x.entries.map Entry.mach).erase e.mach) e
  unfold ascent at hmem hfirst ⊢
  generalize x.climb ((x.entries.map Entry.mach).erase e.mach) e = c at hlast hsummit hmem hfirst ⊢
  obtain ⟨way, summit⟩ := c
  cases summit with
  | root => exact .root hlast hsummit
  | missing id => exact .missing hlast hsummit.1 hsummit.2
  | metAgain up =>
    have hup := (parent?_eq_some_iff.1 hsummit.1).1
    have hmach : up.mach ∈ way.map Entry.mach := by
      by_cases h : up.mach = e.mach
      · exact List.mem_map.2 ⟨e, List.mem_of_mem_head? hfirst, h.symm⟩
      · exact hsummit.2 ((List.mem_erase_of_ne h).2 (List.mem_map_of_mem hup))
    obtain ⟨a, ha, ham⟩ := List.mem_map.1 hmach
    exact .metAgain hlast hsummit.1 (eq_of_mach_eq (hmem a ha) hup ham ▸ ha)

theorem isWalk_ascent {e : Entry} (he : e ∈ x.entries) : x.IsWalk e (x.ascent e).1 where
  first := ascent_head? x e
  linked := climb_linked x _ e
  nodup := by
    have hmachs := x.nodup_machs
    exact List.Nodup.of_map _ (climb_nodup x _ e (hmachs.erase _) hmachs.not_mem_erase)
  stops _ _ := (endsIn_ascent he).mem_of_parent

theorem exists_walk {e : Entry} (he : e ∈ x.entries) :
    ∃ way s, x.IsWalk e way ∧ x.EndsIn way s :=
  ⟨_, _, isWalk_ascent he, endsIn_ascent he⟩

/-- A chain is a walk turned round, or the fault that ended the walk. -/
theorem chain_eq {id : String} {e : Entry} {way : List Entry} {s : Summit}
    (he : x.get? id = some e) (hway : x.IsWalk e way) : x.EndsIn way s →
    x.chain id = match s with
      | .root => .ok way.reverse
      | .missing parent => .error (.notFound parent)
      | .metAgain again => .error (.brokenPath id (.cycleAt again.id)) := by
  intro hs
  have hmem := (get?_eq_some_iff.1 he).1
  have hascent : x.ascent e = (way, s) := by
    obtain rfl := hway.unique (isWalk_ascent hmem)
    exact Prod.ext rfl ((endsIn_ascent hmem).unique hs)
  unfold chain
  rw [he]
  simp only [hascent]
  cases s <;> rfl

/-- Where there is a chain, it is a walk that ends at a root, turned round. -/
theorem walk_of_chain {id : String} {chain : List Entry} (h : x.chain id = .ok chain) :
    ∃ e, x.get? id = some e ∧ x.IsWalk e chain.reverse ∧ x.EndsIn chain.reverse .root := by
  cases he : x.get? id with
  | none =>
    unfold Index.chain at h
    rw [he] at h
    cases h
  | some e =>
    obtain ⟨way, s, hway, hend⟩ := exists_walk (get?_eq_some_iff.1 he).1
    rw [chain_eq he hway hend] at h
    cases s with
    | root =>
      obtain rfl := Except.ok.inj h
      rw [List.reverse_reverse]
      exact ⟨e, rfl, hway, hend⟩
    | missing | metAgain => cases h

/-- Why there is no chain: the session is not indexed, or its walk comes to a parent that is not,
    or to a session again. -/
inductive Lost (x : Index) (id : String) : Fault → Prop where
  | notIndexed (hget : x.get? id = none) : Lost x id (.notFound id)
  | missing {e : Entry} {way : List Entry} {parent : String} (hget : x.get? id = some e)
      (hway : x.IsWalk e way) (hend : x.EndsIn way (.missing parent)) :
      Lost x id (.notFound parent)
  | cycle {e again : Entry} {way : List Entry} (hget : x.get? id = some e)
      (hway : x.IsWalk e way) (hend : x.EndsIn way (.metAgain again)) :
      Lost x id (.brokenPath id (.cycleAt again.id))

theorem chain_eq_error_iff {id : String} {fault : Fault} :
    x.chain id = .error fault ↔ x.Lost id fault := by
  constructor
  · intro h
    cases hget : x.get? id with
    | none =>
      rw [chain, hget] at h
      exact Except.error.inj h ▸ .notIndexed hget
    | some e =>
      obtain ⟨way, s, hway, hend⟩ := exists_walk (get?_eq_some_iff.1 hget).1
      rw [chain_eq hget hway hend] at h
      cases s with
      | root => cases h
      | missing parent => exact Except.error.inj h ▸ .missing hget hway hend
      | metAgain again => exact Except.error.inj h ▸ .cycle hget hway hend
  · rintro (hget | ⟨hget, hway, hend⟩ | ⟨hget, hway, hend⟩)
    · rw [chain, hget]
    · exact chain_eq hget hway hend
    · exact chain_eq hget hway hend

theorem chain_linked {id : String} {chain : List Entry} (h : x.chain id = .ok chain) :
    chain.IsChain fun a b => x.parent? b = some a := by
  obtain ⟨e, _, hway, _⟩ := walk_of_chain h
  have hlinked := List.isChain_reverse.2 hway.linked
  rwa [List.reverse_reverse] at hlinked

theorem mem_entries_of_chain {id : String} {chain : List Entry} (h : x.chain id = .ok chain) :
    ∀ e ∈ chain, e ∈ x.entries := by
  obtain ⟨first, hfirst, hway, _⟩ := walk_of_chain h
  intro e he
  exact hway.mem_entries (get?_eq_some_iff.1 hfirst).1 e (List.mem_reverse.2 he)

end TraceExplorer.Index
