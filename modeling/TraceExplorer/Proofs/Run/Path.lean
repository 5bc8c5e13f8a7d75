import TraceExplorer.Run.Path
import TraceExplorer.Proofs.Run.Nodes

/-
  Looking a session up in a run. The walk up from the session goes through the whole index, the
  way down through the tree of the run; they meet where the tree has every session of the walk.
  `Answers` says for each text what the look-up answers: it answers so (`path_eq_of_answers`),
  and there is an answer to every text (`exists_answer`).
-/

namespace TraceExplorer

/-! ## Walks that lead to the root -/

namespace Index

variable {x : Index} {root : Entry}

theorem LeadsTo.parent {e p : Entry} (h : x.LeadsTo root e) (hroot : root.parentId = none)
    (hp : x.parent? e = some p) : x.LeadsTo root p := by
  cases h with
  | root =>
    rw [parent?_eq_none hroot] at hp
    cases hp
  | up _ hp' h => exact Option.some.inj (hp'.symm.trans hp) ▸ h

theorem LeadsTo.of_linked {way : List Entry} (hroot : root.parentId = none)
    (hway : way.IsChain fun a b => x.parent? a = some b) (h : ∀ e ∈ way.head?, x.LeadsTo root e) :
    ∀ a ∈ way, x.LeadsTo root a := by
  induction way with
  | nil => simp
  | cons e way ih =>
    have hc := List.isChain_cons.1 hway
    have he := h e rfl
    intro a ha
    rcases List.mem_cons.1 ha with rfl | ha
    · exact he
    · exact ih hc.2 (fun b hb => he.parent hroot (hc.1 b hb)) a ha

theorem LeadsTo.eq_root {e : Entry} (h : x.LeadsTo root e) (hnone : x.parent? e = none) :
    e = root := by
  cases h with
  | root => rfl
  | up _ hp _ =>
    rw [hnone] at hp
    cases hp

theorem LeadsTo.exists_ancestor? {e : Entry} (h : x.LeadsTo root e) :
    ∃ n, x.ancestor? n e = some root := by
  induction h with
  | root => exact ⟨0, rfl⟩
  | up _ hp _ ih =>
    obtain ⟨n, hn⟩ := ih
    refine ⟨n + 1, ?_⟩
    rw [ancestor?, hp]
    exact hn

theorem LeadsTo.of_walk {e : Entry} {way : List Entry} (hroot : root.parentId = none)
    (hway : x.IsWalk e way) (h : x.LeadsTo root e) : ∀ a ∈ way, x.LeadsTo root a := by
  refine .of_linked hroot hway.linked fun a ha => ?_
  rw [hway.first] at ha
  exact Option.some.inj ha ▸ h

/-- The walk of a session that leads to the root ends there. -/
theorem LeadsTo.endsIn_root {e : Entry} {way : List Entry} {s : Summit}
    (h : x.LeadsTo root e) (hroot : root.parentId = none) (hway : x.IsWalk e way)
    (hs : x.EndsIn way s) : s = .root ∧ way.getLast? = some root := by
  have hall := h.of_walk hroot hway
  cases hs with
  | @root last hlast hnone =>
    have hlastleads := hall last (List.mem_of_mem_getLast? hlast)
    exact ⟨rfl, hlastleads.eq_root (parent?_eq_none hnone) ▸ hlast⟩
  | @missing last id hlast hid hnone =>
    have hparent : x.parent? last = none := by rw [parent?, hid]; exact hnone
    have hlastroot := (hall last (List.mem_of_mem_getLast? hlast)).eq_root hparent
    rw [hlastroot, hroot] at hid
    cases hid
  | @metAgain last up hlast hup hmem =>
    -- The last session would lead to itself, and so to the root in two numbers of steps.
    obtain ⟨n, hn⟩ := exists_ancestor?_of_linked hway.linked hlast up hmem
    obtain ⟨m, hm⟩ := (hall last (List.mem_of_mem_getLast? hlast)).exists_ancestor?
    have hloop : x.ancestor? (n + 1 + m) last = some root := by
      rw [ancestor?_add, ancestor?, hup, Option.bind_some, hn]
      exact hm
    have := ancestor?_unique hroot hloop hm
    omega

end Index

/-! ## The way down -/

namespace Run

variable {x : Index} {root : Entry}

section

variable (hmem : root ∈ x.entries) (hroot : root.parentId = none)
include hmem hroot

theorem findChild?_eq_some {i : Nat} {n : Node} {e k : Entry}
    (hn : (ofRoot x root).node? i = some n) (he : n.Shows e) (hk : k ∈ x.memberKids root.mach e) :
    ∃ j c, (ofRoot x root).findChild? i k.mach = some j ∧ j ∈ n.children ∧
      (ofRoot x root).node? j = some c ∧ c.Shows k := by
  obtain ⟨j, hj, c, hc, hck⟩ := exists_child hmem hroot hn he hk
  have hpred : ((ofRoot x root).node? j).any (·.mach == k.mach) = true := by
    rw [hc, Option.any_some, hck.mach, beq_self_eq_true]
  refine ⟨j, c, ?_, hj, hc, hck⟩
  unfold findChild?
  rw [hn, Option.bind_some]
  cases hf : n.children.find? fun child => ((ofRoot x root).node? child).any (·.mach == k.mach) with
  | none => exact absurd hpred (List.find?_eq_none.1 hf j hj)
  | some j' =>
    have hj' := List.mem_of_find?_eq_some hf
    have hany := List.find?_some hf
    obtain ⟨d, hd, hdm⟩ := (Option.any_eq_true _ _).1 hany
    rw [beq_iff_eq] at hdm
    rw [child_inj hmem hroot hn he hj' hj hd hc (hdm.trans hck.mach.symm)]

theorem findChild?_eq_none {i : Nat} {n : Node} {e c : Entry}
    (hn : (ofRoot x root).node? i = some n) (he : n.Shows e) (hc : c ∈ x.entries)
    (hnot : c ∉ x.members root.mach) :
    (ofRoot x root).findChild? i c.mach = none := by
  unfold findChild?
  rw [hn, Option.bind_some, List.find?_eq_none]
  intro j hj hany
  obtain ⟨d, hd, hdm⟩ := (Option.any_eq_true _ _).1 hany
  rw [beq_iff_eq] at hdm
  obtain ⟨k, hk, hdk⟩ := exists_kid hmem hroot hn he hj hd
  have hkm := (Index.mem_memberKids.1 hk).1
  have hkc := Index.eq_of_mach_eq (Index.mem_members.1 hkm).1 hc (hdk.mach.symm.trans hdm)
  exact hnot (hkc ▸ hkm)

/-- Down a chain of members the way through the tree shows each of them. -/
theorem descend_eq_ok (id : String) {i : Nat} {n : Node} {e : Entry} {down : List Entry}
    (hn : (ofRoot x root).node? i = some n) (hshows : n.Shows e)
    (hdown : (e :: down).IsChain fun a b => x.parent? b = some a)
    (hmembers : ∀ k ∈ down, k ∈ x.members root.mach) :
    ∃ js, (ofRoot x root).descend id i (down.map Entry.mach) = .ok js ∧
      List.Forall₂ (fun j k => ∃ c, (ofRoot x root).node? j = some c ∧ c.Shows k) js down ∧
      (i :: js).IsChain fun a b => ∃ p, (ofRoot x root).node? a = some p ∧ b ∈ p.children := by
  induction down generalizing i n e with
  | nil => exact ⟨[], rfl, .nil, List.isChain_singleton _⟩
  | cons k down ih =>
    obtain ⟨hk, hdown⟩ := List.isChain_cons_cons.1 hdown
    have hkid := Index.mem_memberKids.2
      ⟨hmembers k List.mem_cons_self, (Index.parent?_eq_some_iff.1 hk).2⟩
    obtain ⟨j, c, hfind, hj, hc, hck⟩ := findChild?_eq_some hmem hroot hn hshows hkid
    obtain ⟨js, hjs, hall, hchain⟩ :=
      ih hc hck hdown fun a ha => hmembers a (List.mem_cons_of_mem _ ha)
    refine ⟨j :: js, ?_, .cons ⟨c, hc, hck⟩ hall, List.isChain_cons_cons.2 ⟨⟨n, hn, hj⟩, hchain⟩⟩
    simp only [List.map_cons, descend, hfind, hjs]
    rfl

/-- The way down ends above the first session that is no member. -/
theorem descend_eq_error (id : String) {i : Nat} {n : Node} {e c p : Entry} {pre post : List Entry}
    (hn : (ofRoot x root).node? i = some n) (hshows : n.Shows e)
    (hdown : (e :: (pre ++ c :: post)).IsChain fun a b => x.parent? b = some a)
    (hmembers : ∀ k ∈ pre, k ∈ x.members root.mach) (hc : c ∈ x.entries)
    (hnot : c ∉ x.members root.mach) (hp : (e :: pre).getLast? = some p) :
    (ofRoot x root).descend id i ((pre ++ c :: post).map Entry.mach) =
      .error (.brokenPath id (.noChild c.mach p.id)) := by
  induction pre generalizing i n e with
  | nil =>
    obtain rfl : e = p := by simpa using hp
    simp only [List.nil_append, List.map_cons, descend]
    rw [findChild?_eq_none hmem hroot hn hshows hc hnot, hn, Option.map_some, Option.getD_some,
      hshows.id]
  | cons k pre ih =>
    rw [List.cons_append] at hdown
    obtain ⟨hk, hdown⟩ := List.isChain_cons_cons.1 hdown
    have hkid := Index.mem_memberKids.2
      ⟨hmembers k List.mem_cons_self, (Index.parent?_eq_some_iff.1 hk).2⟩
    obtain ⟨j, d, hfind, _, hd, hdk⟩ := findChild?_eq_some hmem hroot hn hshows hkid
    rw [List.getLast?_cons_cons] at hp
    have := ih hd hdk hdown (fun a ha => hmembers a (List.mem_cons_of_mem _ ha)) hp
    simp only [List.cons_append, List.map_cons, descend, hfind, this]
    rfl

/-! ## Steps -/

omit hmem hroot in
/-- Each node further down a way is one level deeper. -/
theorem depth_of_chain {i : Nat} {n : Node} {js : List Nat} (hn : (ofRoot x root).node? i = some n)
    (hchain : (i :: js).IsChain fun a b => ∃ p, (ofRoot x root).node? a = some p ∧ b ∈ p.children) :
    ∀ (k j : Nat), (i :: js)[k]? = some j →
      ∃ c, (ofRoot x root).node? j = some c ∧ c.depth = n.depth + k := by
  induction js generalizing i n with
  | nil =>
    intro k j hj
    cases k with
    | zero => exact ⟨n, Option.some.inj hj ▸ hn, rfl⟩
    | succ k => simp at hj
  | cons i' js ih =>
    intro k j hj
    cases k with
    | zero => exact ⟨n, Option.some.inj hj ▸ hn, rfl⟩
    | succ k =>
      obtain ⟨⟨p, hp, hi'⟩, hchain⟩ := List.isChain_cons_cons.1 hchain
      rw [Option.some.inj (hp.symm.trans hn)] at hi'
      obtain ⟨c, hc, _, hdepth⟩ := (preorder x root).of_mem_children hn hi'
      obtain ⟨d, hd, hdd⟩ := ih hc hchain k j hj
      exact ⟨d, hd, by omega⟩

end

/-- The steps lead down the tree of the run, from its root to `id`, along the chain of `id`. -/
structure IsPath (r : Run) (x : Index) (id : String) (steps : List PathStep) : Prop where
  node : ∀ s ∈ steps, ∃ n, r.node? s.node = some n ∧ s = ⟨n.id, n.mach, n.depth, s.node, n.mark⟩
  depth : ∀ (k : Nat) (s : PathStep), steps[k]? = some s → s.depth = k
  linked : steps.IsChain fun a b => ∃ p c, r.node? a.node = some p ∧ b.node ∈ p.children ∧
    r.node? b.node = some c ∧ c.parent = some a.node
  first : ∃ s, steps.head? = some s ∧ s.node = 0
  last : ∃ s, steps.getLast? = some s ∧ s.id = id
  machs : ∃ chain, x.chain id = .ok chain ∧ steps.map (·.mach) = chain.map Entry.mach

/-- The steps at given nodes. -/
theorem filterMap_step? {r : Run} {js : List Nat} {sessions : List Entry}
    (h : List.Forall₂ (fun j k => ∃ c, r.node? j = some c ∧ c.Shows k) js sessions) :
    (js.filterMap r.step?).map (·.node) = js ∧
      (js.filterMap r.step?).map (fun s => (s.id, s.mach)) =
        sessions.map (fun k => (k.id, k.mach)) ∧
      ∀ s ∈ js.filterMap r.step?,
        ∃ n, r.node? s.node = some n ∧ s = ⟨n.id, n.mach, n.depth, s.node, n.mark⟩ := by
  induction h with
  | nil => exact ⟨rfl, rfl, by simp⟩
  | @cons j k js sessions hjk _ ih =>
    obtain ⟨c, hc, hshows⟩ := hjk
    have hstep : r.step? j = some ⟨c.id, c.mach, c.depth, j, c.mark⟩ := by rw [step?, hc]; rfl
    rw [List.filterMap_cons_some hstep]
    refine ⟨congrArg (j :: ·) ih.1, ?_, ?_⟩
    · rw [List.map_cons, List.map_cons, ih.2.1, hshows.id, hshows.mach]
    · intro s hs
      rcases List.mem_cons.1 hs with rfl | hs
      · exact ⟨c, hc, rfl⟩
      · exact ih.2.2 s hs

/-- The steps at the nodes of a way down from the root. -/
theorem isPath_of_links {e : Entry} {js : List Nat} {down : List Entry}
    (hchain : x.chain e.id = .ok (root :: down)) (hlast : (root :: down).getLast? = some e)
    (hshow : List.Forall₂ (fun j k => ∃ c, (ofRoot x root).node? j = some c ∧ c.Shows k)
      (0 :: js) (root :: down))
    (hlinks : (0 :: js).IsChain fun a b =>
      ∃ p, (ofRoot x root).node? a = some p ∧ b ∈ p.children) :
    (ofRoot x root).IsPath x e.id ((0 :: js).filterMap (ofRoot x root).step?) := by
  obtain ⟨hnodes, hsessions, hsteps⟩ := filterMap_step? hshow
  generalize (0 :: js).filterMap (ofRoot x root).step? = steps at hnodes hsessions hsteps ⊢
  obtain ⟨n, hn, _, hzero⟩ := (preorder x root).root
  refine
    { node := hsteps
      depth := fun k s hs => ?_
      linked := ?_
      first := ?_
      last := ?_
      machs := ⟨_, hchain, ?_⟩ }
  · have hk : (0 :: js)[k]? = some s.node := by
      rw [← hnodes, List.getElem?_map, hs, Option.map_some]
    obtain ⟨c, hc, hdepth⟩ := depth_of_chain hn hlinks k s.node hk
    obtain ⟨d, hd, hsd⟩ := hsteps s (List.mem_of_getElem? hs)
    rw [hsd, Option.some.inj (hd.symm.trans hc), hdepth, hzero, Nat.zero_add]
  · rw [← hnodes, List.isChain_map] at hlinks
    refine hlinks.imp fun a b hab => ?_
    obtain ⟨p, hp, hb⟩ := hab
    obtain ⟨c, hc, hparent, _⟩ := (preorder x root).of_mem_children hp hb
    exact ⟨p, c, hp, hb, hc, hparent⟩
  · cases steps with
    | nil => cases hnodes
    | cons s steps => exact ⟨s, rfl, (List.cons.inj hnodes).1⟩
  · have h := congrArg List.getLast? hsessions
    rw [List.getLast?_map, List.getLast?_map, hlast, Option.map_some] at h
    obtain ⟨s, hs, heq⟩ := Option.map_eq_some_iff.1 h
    exact ⟨s, hs, (Prod.mk.inj heq).1⟩
  · have h := congrArg (List.map Prod.snd) hsessions
    rwa [List.map_map, List.map_map] at h

theorem IsPath.unique {id : String} {steps steps' : List PathStep} (hmem : root ∈ x.entries)
    (hroot : root.parentId = none) (h : (ofRoot x root).IsPath x id steps)
    (h' : (ofRoot x root).IsPath x id steps') : steps = steps' := by
  obtain ⟨chain, hchain, hmachs⟩ := h.machs
  obtain ⟨chain', hchain', hmachs'⟩ := h'.machs
  obtain rfl : chain = chain' := Except.ok.inj (hchain.symm.trans hchain')
  -- A step is told by its machine: it names one session, which one node shows.
  have hsame : ∀ s ∈ steps, ∀ t ∈ steps', s.mach = t.mach → s = t := by
    intro s hs t ht hst
    obtain ⟨n, hn, hsn⟩ := h.node s hs
    obtain ⟨m, hm, htm⟩ := h'.node t ht
    obtain ⟨e, he, hne, _⟩ := exists_session hmem hroot hn
    obtain ⟨e', he', hme, _⟩ := exists_session hmem hroot hm
    rw [hsn, htm] at hst
    obtain rfl := Index.eq_of_mach_eq he he' (hne.mach.symm.trans (hst.trans hme.mach))
    have hnode := node?_inj hmem hroot hn hm (hne.id.trans hme.id.symm)
    rw [hnode] at hn
    rw [hsn, htm, hnode, Option.some.inj (hn.symm.trans hm)]
  have heq : steps.map (·.mach) = steps'.map (·.mach) := hmachs.trans hmachs'.symm
  have hlen : steps.length = steps'.length := by
    simpa only [List.length_map] using congrArg List.length heq
  refine List.ext_getElem hlen fun k hk hk' => ?_
  refine hsame _ (List.getElem_mem hk) _ (List.getElem_mem hk') ?_
  have hmach := List.getElem_of_eq heq (by rwa [List.length_map])
  rwa [List.getElem_map, List.getElem_map] at hmach

/-! ## Answers -/

/-- The text is an identifier that names the root of the run. -/
def Owns (r : Run) (id : String) : Prop :=
  ∃ mid, MachineId.decode id = .ok mid ∧ mid.root = r.rootMach

/-- What looking a text up in a run answers. -/
inductive Answers (r : Run) (x : Index) (id : String) : Except Fault Lookup → Prop where
  | malformed (h : ∀ mid, MachineId.decode id ≠ .ok mid) : r.Answers x id (.error (.malformedId id))
  | otherRun {mid : MachineId} (h : MachineId.decode id = .ok mid)
      (hother : mid.root ≠ r.rootMach) : r.Answers x id (.ok .empty)
  | path {steps : List PathStep} (h : r.Owns id) (hnode : id ∈ r.nodes.map (·.id))
      (hsteps : r.IsPath x id steps) : r.Answers x id (.ok (.path steps))
  /-- The session is not indexed. -/
  | notIndexed (h : r.Owns id) (hget : x.get? id = none) : r.Answers x id (.error (.notFound id))
  /-- Its walk comes to a parent that is not indexed. -/
  | missing {e : Entry} {way : List Entry} {parent : String} (h : r.Owns id)
      (hget : x.get? id = some e) (hway : x.IsWalk e way) (hend : x.EndsIn way (.missing parent)) :
      r.Answers x id (.error (.notFound parent))
  /-- Its walk comes to a session again. -/
  | cycle {e again : Entry} {way : List Entry} (h : r.Owns id)
      (hget : x.get? id = some e) (hway : x.IsWalk e way) (hend : x.EndsIn way (.metAgain again)) :
      r.Answers x id (.error (.brokenPath id (.cycleAt again.id)))
  /-- Its walk ends at another session than the root. -/
  | elsewhere {e top : Entry} {way : List Entry} (h : r.Owns id)
      (hget : x.get? id = some e) (hway : x.IsWalk e way) (hend : x.EndsIn way .root)
      (htop : way.getLast? = some top) (hother : top ≠ r.root) :
      r.Answers x id (.error (.brokenPath id (.otherRoot top.mach r.rootMach)))
  /-- Its walk goes from a session that the tree has not to one that it has. -/
  | outside {e c p : Entry} {below above : List Entry} (h : r.Owns id)
      (hget : x.get? id = some e) (hway : x.IsWalk e (below ++ c :: p :: above))
      (htop : (below ++ c :: p :: above).getLast? = some r.root)
      (hc : c.id ∉ r.nodes.map (·.id)) (hp : p.id ∈ r.nodes.map (·.id)) :
      r.Answers x id (.error (.brokenPath id (.noChild c.mach p.id)))

/-- Where the last of a list has a property and not all have it, one that has it follows one that
    has it not. -/
theorem exists_boundary {α : Type} {P : α → Prop} {l : List α} {last : α}
    (hlast : l.getLast? = some last) (hp : P last) (h : ∃ a ∈ l, ¬ P a) :
    ∃ below c p above, l = below ++ c :: p :: above ∧ ¬ P c ∧ P p := by
  induction l with
  | nil => simp at h
  | cons a l ih =>
    cases l with
    | nil =>
      obtain rfl : a = last := by simpa using hlast
      obtain ⟨b, hb, hnot⟩ := h
      exact absurd hp ((List.mem_singleton.1 hb) ▸ hnot)
    | cons b l =>
      rw [List.getLast?_cons_cons] at hlast
      by_cases hrest : ∃ c ∈ b :: l, ¬ P c
      · obtain ⟨below, c, p, above, heq, hc, hp⟩ := ih hlast hrest
        exact ⟨a :: below, c, p, above, congrArg (a :: ·) heq, hc, hp⟩
      · have hb : ∀ c ∈ b :: l, P c := fun c hc => not_not.1 fun hn => hrest ⟨c, hc, hn⟩
        obtain ⟨c, hc, hnot⟩ := h
        rcases List.mem_cons.1 hc with rfl | hc
        · exact ⟨[], c, b, l, rfl, hnot, hb b List.mem_cons_self⟩
        · exact absurd (hb c hc) hnot

theorem decode_eq_error {id : String} {fault : Fault} (h : MachineId.decode id = .error fault) :
    fault = .malformedId id := by
  unfold MachineId.decode at h
  split at h
  · cases h
  · exact (Except.error.inj h).symm

theorem path_of_chain {r : Run} {id : String} {chain : List Entry} (h : r.Owns id)
    (hchain : x.chain id = .ok chain) : r.path x id = r.pathAlong id (chain.map Entry.mach) := by
  obtain ⟨mid, hmid, howned⟩ := h
  unfold path
  simp only [hmid, howned, if_true, hchain]

theorem path_of_fault {r : Run} {id : String} {fault : Fault} (h : r.Owns id)
    (hchain : x.chain id = .error fault) : r.path x id = .error fault := by
  obtain ⟨mid, hmid, howned⟩ := h
  unfold path
  simp only [hmid, howned, if_true, hchain]

section

variable (hmem : root ∈ x.entries) (hroot : root.parentId = none)
include hmem hroot

theorem exists_path {id : String} {e : Entry} (hown : (ofRoot x root).Owns id)
    (he : x.get? id = some e) (hleads : x.LeadsTo root e) :
    ∃ steps, (ofRoot x root).path x id = .ok (.path steps) ∧ (ofRoot x root).IsPath x id steps := by
  obtain ⟨hentry, rfl⟩ := Index.get?_eq_some_iff.1 he
  obtain ⟨way, s, hway, hend⟩ := Index.exists_walk hentry
  obtain ⟨rfl, hlast⟩ := hleads.endsIn_root hroot hway hend
  have hall := hleads.of_walk hroot hway
  have hchain : x.chain e.id = .ok way.reverse := Index.chain_eq he hway hend
  -- The way down from the root.
  obtain ⟨up, rfl⟩ := List.getLast?_eq_some_iff.1 hlast
  have hflip : (up ++ [root]).reverse = root :: up.reverse := List.reverse_concat
  have hdown := List.isChain_reverse.2 hway.linked
  rw [hflip] at hchain hdown
  obtain ⟨n, hn, _, hzero⟩ := (preorder x root).root
  obtain ⟨js, hjs, hshow, hlinks⟩ := descend_eq_ok hmem hroot e.id hn (first_shows hn) hdown
    fun k hk => (exists_node hmem hroot
      (hall k (List.mem_append_left _ (List.mem_reverse.1 hk)))).1
  refine ⟨(0 :: js).filterMap (ofRoot x root).step?, ?_, ?_⟩
  · rw [path_of_chain hown hchain, List.map_cons, pathAlong,
      if_pos (show root.mach = (ofRoot x root).rootMach from rfl), hjs]
    rfl
  · refine isPath_of_links hchain ?_ (.cons ⟨n, hn, first_shows hn⟩ hshow) hlinks
    rw [← hflip, List.getLast?_reverse, hway.first]

theorem exists_path_of_mem {id : String} (hown : (ofRoot x root).Owns id)
    (hnode : id ∈ (ofRoot x root).nodes.map (·.id)) :
    ∃ steps, (ofRoot x root).path x id = .ok (.path steps) ∧ (ofRoot x root).IsPath x id steps := by
  obtain ⟨e, rfl, hleads⟩ := (mem_ids hmem hroot).1 hnode
  have he := Index.get?_id (Index.mem_members.1 (exists_node hmem hroot hleads).1).1
  exact exists_path hmem hroot hown he hleads

theorem id_mem_iff {e : Entry} (he : e ∈ x.entries) :
    e.id ∈ (ofRoot x root).nodes.map (·.id) ↔ x.LeadsTo root e := by
  rw [mem_ids hmem hroot]
  constructor
  · rintro ⟨k, hid, hleads⟩
    have hk := (Index.mem_members.1 (exists_node hmem hroot hleads).1).1
    exact Index.eq_of_id_eq hk he hid ▸ hleads
  · exact fun hleads => ⟨e, rfl, hleads⟩

/-- A walk that leaves the tree on the way down from the root. -/
theorem path_eq_noChild {id : String} {e c p : Entry} {below above : List Entry}
    (h : (ofRoot x root).Owns id) (hget : x.get? id = some e)
    (hway : x.IsWalk e (below ++ c :: p :: above))
    (htop : (below ++ c :: p :: above).getLast? = some root)
    (hc : c.id ∉ (ofRoot x root).nodes.map (·.id)) (hp : p.id ∈ (ofRoot x root).nodes.map (·.id)) :
    (ofRoot x root).path x id = .error (.brokenPath id (.noChild c.mach p.id)) := by
  have hentries := hway.mem_entries (Index.get?_eq_some_iff.1 hget).1
  have hcentry : c ∈ x.entries := hentries c (by simp)
  obtain ⟨hcp, hlinks⟩ := List.isChain_cons_cons.1 (List.isChain_append.1 hway.linked).2.1
  have hpleads := (id_mem_iff hmem hroot (hentries p (by simp))).1 hp
  have hall := Index.LeadsTo.of_linked hroot hlinks fun a ha => Option.some.inj ha ▸ hpleads
  have hnot : c ∉ x.members root.mach :=
    fun hm => hc ((id_mem_iff hmem hroot hcentry).2 (.up hm hcp hpleads))
  have hchain := Index.chain_eq hget hway (.root htop hroot)
  -- The chain comes from the root down to `p`, and then to `c`.
  rw [List.getLast?_append_of_ne_nil _ (by simp), List.getLast?_cons_cons] at htop
  obtain ⟨pre, hpre⟩ := List.getLast?_eq_some_iff.1 htop
  have hflip : (below ++ c :: p :: above).reverse =
      root :: (pre.reverse ++ c :: below.reverse) := by
    rw [hpre]
    simp
  have hlast : (root :: pre.reverse).getLast? = some p := by
    rw [← List.reverse_concat, ← hpre, List.getLast?_reverse]
    rfl
  have hmembers : ∀ k ∈ pre.reverse, k ∈ x.members root.mach := by
    intro k hk
    refine (exists_node hmem hroot (hall k ?_)).1
    rw [hpre]
    exact List.mem_append_left _ (List.mem_reverse.1 hk)
  have hdown := List.isChain_reverse.2 hway.linked
  rw [hflip] at hdown hchain
  obtain ⟨n, hn, _⟩ := (preorder x root).root
  have herror := descend_eq_error hmem hroot id hn (first_shows hn) hdown hmembers hcentry hnot
    hlast
  rw [path_of_chain h hchain, List.map_cons, pathAlong,
    if_pos (show root.mach = (ofRoot x root).rootMach from rfl), herror]
  rfl

theorem path_eq_of_answers {id : String} {a : Except Fault Lookup}
    (h : (ofRoot x root).Answers x id a) : (ofRoot x root).path x id = a := by
  cases h with
  | malformed h =>
    unfold path
    cases hd : MachineId.decode id with
    | ok mid => exact absurd hd (h mid)
    | error fault => rw [decode_eq_error hd]
  | otherRun h hother =>
    unfold path
    simp only [h, if_neg hother]
  | @path steps h hnode hsteps =>
    obtain ⟨steps', hpath, hsteps'⟩ := exists_path_of_mem hmem hroot h hnode
    rw [hpath, hsteps.unique hmem hroot hsteps']
  | notIndexed h hget =>
    refine path_of_fault h ?_
    unfold Index.chain
    rw [hget]
  | missing h hget hway hend => exact path_of_fault h (Index.chain_eq hget hway hend)
  | cycle h hget hway hend => exact path_of_fault h (Index.chain_eq hget hway hend)
  | @elsewhere e top way h hget hway hend htop hother =>
    obtain ⟨up, rfl⟩ := List.getLast?_eq_some_iff.1 htop
    have hentry := hway.mem_entries (Index.get?_eq_some_iff.1 hget).1 top (by simp)
    have hmach : top.mach ≠ (ofRoot x root).rootMach :=
      fun hm => hother (Index.eq_of_mach_eq hentry hmem hm)
    rw [path_of_chain h (Index.chain_eq hget hway hend), List.reverse_concat, List.map_cons,
      pathAlong, if_neg hmach]
  | outside h hget hway htop hc hp => exact path_eq_noChild hmem hroot h hget hway htop hc hp

theorem exists_answer_of_root {id : String} {e : Entry} {way : List Entry}
    (hown : (ofRoot x root).Owns id) (hget : x.get? id = some e) (hway : x.IsWalk e way)
    (htop : way.getLast? = some root) : ∃ a, (ofRoot x root).Answers x id a := by
  obtain ⟨hentry, rfl⟩ := Index.get?_eq_some_iff.1 hget
  by_cases hleads : x.LeadsTo root e
  · obtain ⟨steps, _, hsteps⟩ := exists_path hmem hroot hown hget hleads
    exact ⟨_, .path hown ((id_mem_iff hmem hroot hentry).2 hleads) hsteps⟩
  · obtain ⟨below, c, p, above, rfl, hc, hp⟩ := exists_boundary htop .root
      ⟨e, List.mem_of_mem_head? hway.first, hleads⟩
    have hentries := hway.mem_entries hentry
    have hc := fun h => hc ((id_mem_iff hmem hroot (hentries c (by simp))).1 h)
    have hp := (id_mem_iff hmem hroot (hentries p (by simp))).2 hp
    exact ⟨_, .outside hown hget hway htop hc hp⟩

theorem exists_answer (id : String) : ∃ a, (ofRoot x root).Answers x id a := by
  by_cases hdecode : ∃ mid, MachineId.decode id = .ok mid
  · obtain ⟨mid, hmid⟩ := hdecode
    by_cases hown : mid.root = (ofRoot x root).rootMach
    · have hown : (ofRoot x root).Owns id := ⟨mid, hmid, hown⟩
      cases hget : x.get? id with
      | none => exact ⟨_, .notIndexed hown hget⟩
      | some e =>
        obtain ⟨hentry, rfl⟩ := Index.get?_eq_some_iff.1 hget
        obtain ⟨way, s, hway, hend⟩ := Index.exists_walk hentry
        cases s with
        | missing parent => exact ⟨_, .missing hown hget hway hend⟩
        | metAgain again => exact ⟨_, .cycle hown hget hway hend⟩
        | root =>
          obtain ⟨top, htop, hnone⟩ : ∃ top, way.getLast? = some top ∧ top.parentId = none := by
            cases hend with
            | root hlast hnone => exact ⟨_, hlast, hnone⟩
          by_cases hother : top = root
          · exact exists_answer_of_root hmem hroot hown hget hway (hother ▸ htop)
          · exact ⟨_, .elsewhere hown hget hway hend htop hother⟩
    · exact ⟨_, .otherRun hmid hown⟩
  · exact ⟨_, .malformed fun mid hmid => hdecode ⟨mid, hmid⟩⟩

end

/-- Every run answers each text as `Answers` says, and with a path just for its own nodes. -/
theorem path_eq_iff (x : Index) (mach : UInt64) (root : Entry) (h : x.root? mach = some root) :
    ∃ r, select? x mach = some r ∧ ∀ id, (∀ a, r.path x id = a ↔ r.Answers x id a) ∧
      ((∃ steps, r.path x id = .ok (.path steps)) ↔ r.Owns id ∧ id ∈ r.nodes.map (·.id)) := by
  obtain ⟨hmem, hroot, _⟩ := Index.root?_eq_some_iff.1 h
  refine ⟨ofRoot x root, by rw [select?, h]; rfl, fun id => ?_⟩
  have hiff : ∀ a, (ofRoot x root).path x id = a ↔ (ofRoot x root).Answers x id a := by
    obtain ⟨b, hb⟩ := exists_answer hmem hroot id
    intro a
    refine ⟨fun ha => ?_, path_eq_of_answers hmem hroot⟩
    rw [← ha, path_eq_of_answers hmem hroot hb]
    exact hb
  refine ⟨hiff, ?_⟩
  constructor
  · rintro ⟨steps, hpath⟩
    cases (hiff _).1 hpath with
    | path hown hnode => exact ⟨hown, hnode⟩
  · rintro ⟨hown, hnode⟩
    obtain ⟨steps, hpath, _⟩ := exists_path_of_mem hmem hroot hown hnode
    exact ⟨steps, hpath⟩

/-- The grandchild of the root has a path, and a session whose parent is not there has none. -/
theorem path_eq_iff_straySessions :
    ∃ root, (Index.ofTrace ⟨straySessions, []⟩).root? 1 = some root ∧
      ∃ r, select? (Index.ofTrace ⟨straySessions, []⟩) 1 = some r ∧
        (∃ steps, r.path (Index.ofTrace ⟨straySessions, []⟩) "1(3:2)" = .ok (.path steps)) ∧
        ¬ ∃ steps, r.path (Index.ofTrace ⟨straySessions, []⟩) "1(8:6)" = .ok (.path steps) := by
  have h : ((Index.ofTrace ⟨straySessions, []⟩).root? 1).isSome = true := by decide +kernel
  obtain ⟨root, h⟩ := Option.isSome_iff_exists.1 h
  obtain ⟨r, hr, hpaths⟩ := path_eq_iff _ 1 root h
  refine ⟨root, h, r, hr, ?_⟩
  have hrun : (select? (Index.ofTrace ⟨straySessions, []⟩) 1).all (fun r => r.rootMach = 1 ∧
      "1(3:2)" ∈ r.nodes.map (·.id) ∧ "1(8:6)" ∉ r.nodes.map (·.id)) = true := by decide +kernel
  rw [hr, Option.all_some, decide_eq_true_eq] at hrun
  obtain ⟨hmach, hnode, hstray⟩ := hrun
  rw [(hpaths "1(3:2)").2, (hpaths "1(8:6)").2]
  exact ⟨⟨⟨⟨1, 3, 2⟩, by decide +kernel, hmach.symm⟩, hnode⟩, fun hpath => hstray hpath.2⟩

end Run

end TraceExplorer
