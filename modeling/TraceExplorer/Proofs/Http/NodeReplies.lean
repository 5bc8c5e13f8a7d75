import TraceExplorer.Proofs.Explorer.Navigation

/-
  Replies to questions about one session, while a run is active. The path is looked up by a text
  that must be an identifier before anything else (`pathReplies`). The log is assembled from the
  index, where a text that is no identifier is not found, as any text that no session has
  (`logReplies`). So both map faults to statuses alike just for identifiers (`reply_node`).
-/

namespace TraceExplorer

namespace Http

/-- The text is an identifier. -/
def Decodes (id : String) : Prop := ∃ mid, MachineId.decode id = .ok mid

/-- What can be asked about a session. -/
inductive Question where
  | path
  | log (raw : Bool)

/-- The request asks about the session that its target names, `id` once it is decoded. -/
inductive Request.Asks (r : Request) (id : String) : Question → Prop where
  | path (segment : String) (hmethod : r.method = "GET")
      (hpath : (Target.ofString r.target).segments = ["api", "nodes", segment, "path"])
      (hid : segmentText? segment = some id) : r.Asks id .path
  | log (segment : String) {raw : Bool} (hmethod : r.method = "GET")
      (hpath : (Target.ofString r.target).segments = ["api", "nodes", segment, "log"])
      (hid : segmentText? segment = some id)
      (hraw : flag? (Target.ofString r.target) "raw" = some raw) : r.Asks id (.log raw)

/-- The answer tells the faults of `id` by their statuses: malformed, or not found where it is
    sought in the index and lost there. -/
structure MapsFaults (x : Index) (id : String) (sought : Prop) (answer : Reply) : Prop where
  status_eq_400 : answer.status = 400 ↔ ¬ Decodes id
  malformed : ¬ Decodes id → answer = ⟨400, .text (Fault.malformedId id).message⟩
  lost : Decodes id → sought → ∀ fault, x.Lost id fault → answer = ⟨404, .text fault.message⟩
  status_ne_409 : answer.status ≠ 409

/-- The answer to a question about a path. -/
structure PathReplies (x : Index) (run : Run) (id : String) (answer : Reply) : Prop where
  mapsFaults : MapsFaults x id (run.Owns id) answer
  status_eq_404 : answer.status = 404 ↔ run.Owns id ∧ id ∉ run.nodes.map (·.id)
  status_eq_200 : answer.status = 200 ↔
    Decodes id ∧ (run.Owns id → id ∈ run.nodes.map (·.id))

/-- The answer to a question about a log. -/
structure LogReplies (x : Index) (id : String) (answer : Reply) : Prop where
  lost : ∀ fault, x.Lost id fault → answer = ⟨404, .text fault.message⟩
  found : ∀ chain, x.chain id = .ok chain → answer.status = 200
  /-- A text that is no identifier is not found. -/
  not_decodes : ¬ Decodes id → answer = ⟨404, .text (Fault.notFound id).message⟩
  status_ne_400 : answer.status ≠ 400
  status_ne_409 : answer.status ≠ 409
  /-- The faults are told as for a path just where the text is an identifier. -/
  mapsFaults_iff : MapsFaults x id True answer ↔ Decodes id

/-- The answer to a question about the session `id`. -/
def Replies (x : Index) (run : Run) (id : String) : Question → Reply → Prop
  | .path => PathReplies x run id
  | .log _ => LogReplies x id

/-! ## Faults of the index -/

section

variable {x : Index} {id : String} {fault : Fault}

theorem ofFault_of_lost (h : x.Lost id fault) :
    Reply.ofFault fault = ⟨404, .text fault.message⟩ := by
  cases h <;> rfl

theorem lost_of_not_decodes (h : ¬ Decodes id) : x.Lost id (.notFound id) := by
  refine .notIndexed (Option.eq_none_iff_forall_not_mem.2 fun e he => ?_)
  obtain ⟨_, rfl⟩ := Index.get?_eq_some_iff.1 he
  exact h ⟨e.mid, e.decoded⟩

/-- An identifier has no fault but that it may be lost. -/
theorem mapsFaults_of_decodes {sought : Prop} {answer : Reply} (h : Decodes id)
    (h400 : answer.status ≠ 400) (h409 : answer.status ≠ 409)
    (hlost : sought → ∀ fault, x.Lost id fault → answer = ⟨404, .text fault.message⟩) :
    MapsFaults x id sought answer where
  status_eq_400 := ⟨fun hs => absurd hs h400, fun hn => absurd h hn⟩
  malformed hn := absurd h hn
  lost _ := hlost
  status_ne_409 := h409

/-! ## Paths -/

variable {root : Entry} {run : Run}

/-- What looking a path up answers, by the status that it makes. -/
inductive PathStatus (run : Run) (id : String) (answer : Reply) : Prop where
  | malformed (h : ¬ Decodes id) (hanswer : answer = ⟨400, .text (Fault.malformedId id).message⟩)
  | elsewhere (h : Decodes id) (hown : ¬ run.Owns id) (hstatus : answer.status = 200)
  | found (h : run.Owns id) (hnode : id ∈ run.nodes.map (·.id)) (hstatus : answer.status = 200)
  | lost (h : run.Owns id) (hnode : id ∉ run.nodes.map (·.id)) (hstatus : answer.status = 404)

theorem pathStatus (hroot : x.IsRoot root) (id : String) :
    PathStatus (Run.ofRoot x root) id
      (.orFault ((Run.ofRoot x root).path x id) Lookup.toJson) := by
  obtain ⟨a, ha⟩ := Run.exists_answer hroot.mem hroot.parentId id
  have hpath := Run.path_eq_of_answers hroot.mem hroot.parentId ha
  have hlost : ∀ fault, a = .error fault → (Run.ofRoot x root).Owns id →
      id ∉ (Run.ofRoot x root).nodes.map (·.id) := by
    intro fault herror hown hnode
    obtain ⟨steps, hsteps, _⟩ := Run.exists_path_of_mem hroot.mem hroot.parentId hown hnode
    rw [hpath, herror] at hsteps
    cases hsteps
  rw [hpath]
  cases ha with
  | malformed h => exact .malformed (fun ⟨mid, hmid⟩ => h mid hmid) rfl
  | otherRun h hother =>
    refine .elsewhere ⟨_, h⟩ (fun ⟨mid, hmid, hown⟩ => ?_) rfl
    obtain rfl := Except.ok.inj (hmid.symm.trans h)
    exact hother hown
  | path h hnode => exact .found h hnode rfl
  | notIndexed h | missing h | cycle h | elsewhere h | outside h =>
    exact .lost h (hlost _ rfl h) rfl

theorem decodes_of_owns (h : run.Owns id) : Decodes id := by
  obtain ⟨mid, hmid, _⟩ := h
  exact ⟨mid, hmid⟩

theorem PathStatus.pathReplies {answer : Reply} (h : PathStatus run id answer)
    (hlost : run.Owns id → ∀ fault, x.Lost id fault → answer = ⟨404, .text fault.message⟩) :
    PathReplies x run id answer := by
  cases h with
  | malformed h hanswer =>
    have hown : ¬ run.Owns id := fun hown => h (decodes_of_owns hown)
    have hstatus : answer.status = 400 := by rw [hanswer]
    exact
      { mapsFaults := ⟨by simp [hstatus, h], fun _ => hanswer, fun _ => hlost, by simp [hstatus]⟩
        status_eq_404 := by simp [hstatus, hown]
        status_eq_200 := by simp [hstatus, h] }
  | elsewhere h hown hstatus =>
    exact
      { mapsFaults := mapsFaults_of_decodes h (by simp [hstatus]) (by simp [hstatus]) hlost
        status_eq_404 := by simp [hstatus, hown]
        status_eq_200 := by simp [hstatus, h, hown] }
  | found hown hnode hstatus =>
    have h := decodes_of_owns hown
    exact
      { mapsFaults := mapsFaults_of_decodes h (by simp [hstatus]) (by simp [hstatus]) hlost
        status_eq_404 := iff_of_false (by simp [hstatus]) fun hnot => hnot.2 hnode
        status_eq_200 := iff_of_true hstatus ⟨h, fun _ => hnode⟩ }
  | lost hown hnode hstatus =>
    have h := decodes_of_owns hown
    exact
      { mapsFaults := mapsFaults_of_decodes h (by simp [hstatus]) (by simp [hstatus]) hlost
        status_eq_404 := iff_of_true hstatus ⟨hown, hnode⟩
        status_eq_200 := iff_of_false (by simp [hstatus]) fun hall => hnode (hall.2 hown) }

theorem pathReplies (hroot : x.IsRoot root) (id : String) :
    PathReplies x (Run.ofRoot x root) id
      (.orFault ((Run.ofRoot x root).path x id) Lookup.toJson) := by
  refine (pathStatus hroot id).pathReplies fun hown fault hfault => ?_
  rw [Run.path_of_fault hown (Index.chain_eq_error_iff.2 hfault)]
  exact ofFault_of_lost hfault

/-! ## Logs -/

theorem logReplies {y : Explorer} (hactive : y.active = some run) (id : String) (raw : Bool) :
    LogReplies y.index id (.orFault (y.log id raw) NodeLog.toJson) := by
  have hlost : ∀ fault, y.index.Lost id fault →
      Reply.orFault (y.log id raw) NodeLog.toJson = ⟨404, .text fault.message⟩ := by
    intro fault hfault
    have hchain := Index.chain_eq_error_iff.2 hfault
    have hlog : y.log id raw = .error fault := by
      unfold Explorer.log Explorer.rawLog Explorer.normalizedLog RawLog.assemble
        NormalizedLog.assemble
      rw [hchain]
      cases raw <;> rfl
    rw [hlog]
    exact ofFault_of_lost hfault
  have hfound : ∀ chain, y.index.chain id = .ok chain →
      (Reply.orFault (y.log id raw) NodeLog.toJson).status = 200 := by
    intro chain hchain
    obtain ⟨log, hlog, _⟩ := Explorer.exists_log hactive hchain raw
    rw [hlog]
    rfl
  have hstatus : (Reply.orFault (y.log id raw) NodeLog.toJson).status = 200 ∨
      (Reply.orFault (y.log id raw) NodeLog.toJson).status = 404 := by
    cases hchain : y.index.chain id with
    | ok chain => exact .inl (hfound chain hchain)
    | error fault => exact .inr (by rw [hlost fault (Index.chain_eq_error_iff.1 hchain)])
  have hne : ∀ status, status ≠ 200 → status ≠ 404 →
      (Reply.orFault (y.log id raw) NodeLog.toJson).status ≠ status :=
    fun status h h' heq => hstatus.elim (fun hs => h (heq ▸ hs)) fun hs => h' (heq ▸ hs)
  have h400 := hne 400 (by decide) (by decide)
  have h409 := hne 409 (by decide) (by decide)
  refine
    { lost := hlost
      found := hfound
      not_decodes := fun h => hlost _ (lost_of_not_decodes h)
      status_ne_400 := h400
      status_ne_409 := h409
      mapsFaults_iff := ⟨fun hmaps => ?_, fun h => ?_⟩ }
  · by_contra h
    exact h400 (hmaps.status_eq_400.2 h)
  · exact mapsFaults_of_decodes h h400 h409 fun _ => hlost

end

/-! ## Requests -/

theorem reply_get (y : Explorer) {r : Request} (route : Route) (hmethod : r.method = "GET")
    (hroute : Route.ofSegments? (Target.ofString r.target).segments = some route)
    (hallows : route.allows "GET" = true) :
    reply y r = routeReply y (Target.ofString r.target) route := by
  unfold reply
  simp only [hmethod, hroute, hallows]
  rfl

/-- What an explorer with an active run replies to a question about a session. -/
theorem reply_node (t : Trace) (actions : List Explorer.Action) (run : Run)
    (h : (Explorer.after t actions).active = some run) (r : Request) (id : String) (q : Question)
    (hasks : r.Asks id q) :
    ∃ answer, reply (Explorer.after t actions) r = (Explorer.after t actions, [], answer) ∧
      Replies (Explorer.after t actions).index run id q answer := by
  have hsound := Explorer.sound_after t actions
  generalize Explorer.after t actions = x at h hsound
  obtain ⟨root, hroot, hrun⟩ := hsound run h
  rw [Run.select?_eq hroot] at hrun
  obtain rfl := Option.some.inj hrun
  cases hasks with
  | path segment hmethod hpath hid =>
    refine ⟨.orFault (x.path id) Lookup.toJson, ?_, ?_⟩
    · rw [reply_get x (.path segment) hmethod (by rw [hpath]; rfl) rfl, routeReply,
        pathReply, hid]
    · rw [Explorer.path, Explorer.run, h]
      exact pathReplies hroot id
  | @log segment raw hmethod hpath hid hraw =>
    refine ⟨.orFault (x.log id raw) NodeLog.toJson, ?_, logReplies h id raw⟩
    rw [reply_get x (.log segment) hmethod (by rw [hpath]; rfl) rfl, routeReply, logReply,
      hid, hraw]

/-- A root, and two sessions that name each other as their parents. -/
def cyclicSessions : List Session :=
  [Session.ofId "1(0:1)", { Session.ofId "1(3:2)" with parentId := some "1(2:3)" },
    { Session.ofId "1(2:3)" with parentId := some "1(3:2)" }]

/-- The run of the root is active. -/
def cyclicExplorer : Explorer := Explorer.after ⟨cyclicSessions, []⟩ [.selectRoot 1]

theorem reply_node_cyclicSessions :
    ∃ run, cyclicExplorer.active = some run ∧
      Request.Asks ⟨"GET", "/api/nodes/1%283:2%29/log?raw=true"⟩ "1(3:2)" (.log true) ∧
      ∃ answer, reply cyclicExplorer ⟨"GET", "/api/nodes/1%283:2%29/log?raw=true"⟩ =
          (cyclicExplorer, [], answer) ∧
        Replies cyclicExplorer.index run "1(3:2)" (.log true) answer := by
  have hactive : cyclicExplorer.active.isSome = true := by decide +kernel
  obtain ⟨run, hactive⟩ := Option.isSome_iff_exists.1 hactive
  have hasks : Request.Asks ⟨"GET", "/api/nodes/1%283:2%29/log?raw=true"⟩ "1(3:2)"
      (.log true) :=
    .log "1%283:2%29" rfl (by decide +kernel) (by decide +kernel) (by decide +kernel)
  exact ⟨run, hactive, hasks,
    reply_node ⟨cyclicSessions, []⟩ [.selectRoot 1] run hactive _ _ _ hasks⟩

/-- The log of a text that is no identifier is not found, not malformed. -/
theorem not_mapsFaults_malformedId :
    cyclicExplorer.active.isSome = true ∧
    Request.Asks ⟨"GET", "/api/nodes/abc/log"⟩ "abc" (.log false) ∧
    (reply cyclicExplorer ⟨"GET", "/api/nodes/abc/log"⟩).2.2.status = 404 ∧
    ¬ MapsFaults cyclicExplorer.index "abc" True
      (reply cyclicExplorer ⟨"GET", "/api/nodes/abc/log"⟩).2.2 := by
  have hstatus : (reply cyclicExplorer ⟨"GET", "/api/nodes/abc/log"⟩).2.2.status = 404 := by
    decide +kernel
  have hdecodes : ¬ Decodes "abc" := by
    rintro ⟨mid, hmid⟩
    have hread : MachineId.read? "abc".toList = none := by decide +kernel
    rw [MachineId.decode, hread] at hmid
    cases hmid
  refine ⟨by decide +kernel, ?_, hstatus, fun hmaps => ?_⟩
  · exact .log "abc" rfl (by decide +kernel) (by decide +kernel) (by decide +kernel)
  · have := hmaps.status_eq_400.2 hdecodes
    omega

end Http

end TraceExplorer
