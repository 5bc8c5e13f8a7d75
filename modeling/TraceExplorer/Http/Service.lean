import TraceExplorer.Explorer.Basic
import TraceExplorer.Http.Target

/-
  The explorer as a service: requests on one side, replies and the stream of signals on the
  other.
-/

namespace TraceExplorer.Http

structure Request where
  method : String
  target : String

inductive Body where
  | json (v : Json)
  | text (s : String)

structure Reply where
  status : Nat
  body : Body

namespace Reply

def json (v : Json) : Reply := ⟨200, .json v⟩

/-- A refusal without an explanation. -/
def refused (status : Nat) : Reply := ⟨status, .text ""⟩

/-- The reply to a fault. -/
def ofFault (fault : Fault) : Reply :=
  let status :=
    match fault with
    | .malformedId _ => 400
    | .notFound _ | .brokenPath .. => 404
    | .noActiveRun => 409
    | .duplicateMach .. => 500
  ⟨status, .text fault.message⟩

def orFault (r : Except Fault α) (f : α → Json) : Reply :=
  match r with
  | .ok a => .json (f a)
  | .error fault => .ofFault fault

def withoutBody (r : Reply) : Reply := { r with body := .text "" }

end Reply

/-- What can be asked for; segments that name something are as written. -/
inductive Route where
  | roots
  | select (mach : String)
  | tree
  | outcomes
  | results
  | path (id : String)
  | log (id : String)
  | navigate
  | events

/-- The route of a path, given by its segments. -/
def Route.ofSegments? : List String → Option Route
  | ["api", "roots"] => some .roots
  | ["api", "roots", mach, "select"] => some (.select mach)
  | ["api", "tree"] => some .tree
  | ["api", "outcomes"] => some .outcomes
  | ["api", "results"] => some .results
  | ["api", "nodes", id, "path"] => some (.path id)
  | ["api", "nodes", id, "log"] => some (.log id)
  | ["api", "navigate"] => some .navigate
  | ["api", "events"] => some .events
  | _ => none

/-- One route changes what is selected for everyone; the others are for looking. -/
def Route.allows (method : String) : Route → Bool
  | .select _ => method == "POST"
  | _ => method == "GET" || method == "HEAD"

/-- A truth value, `false` unless given. -/
def flag? (t : Target) (key : String) : Option Bool :=
  match t.field? key with
  | some none => some false
  | some (some "true") => some true
  | some (some "false") => some false
  | _ => none

def rootsJson (x : Explorer) : Json := .arr (x.roots.map RootSummary.toJson)

def selectReply (x : Explorer) (segment : String) : Explorer × List Signal × Reply :=
  match (segmentText? segment).bind fun s => Number.word? s.toList with
  | none => (x, [], .refused 400)
  | some mach =>
    match x.selectRoot mach with
    | (x, signals, true) => (x, signals, .json (rootsJson x))
    | (x, signals, false) =>
      (x, signals, ⟨404, .text ("No root with machine id " ++ Number.decimal mach)⟩)

def pathReply (x : Explorer) (segment : String) : Reply :=
  match segmentText? segment with
  | none => .refused 400
  | some id => .orFault (x.path id) Lookup.toJson

def logReply (x : Explorer) (segment : String) (t : Target) : Reply :=
  match segmentText? segment, flag? t "raw" with
  | some id, some raw => .orFault (x.log id raw) NodeLog.toJson
  | _, _ => .refused 400

def navigateReply (x : Explorer) (t : Target) : Explorer × List Signal × Reply :=
  match t.field? "address" with
  | none => (x, [], .refused 400)
  | some address =>
    let (x, signals, navigation) := x.navigate (address.getD "")
    (x, signals, .json navigation.toJson)

def routeReply (x : Explorer) (t : Target) : Route → Explorer × List Signal × Reply
  | .select mach => selectReply x mach
  | .navigate => navigateReply x t
  | .roots => (x, [], .json (rootsJson x))
  | .tree => (x, [], .orFault x.run fun run => .arr (run.nodes.map Node.toJson))
  | .outcomes => (x, [], .orFault x.run fun run => run.buckets.toJson)
  | .results => (x, [], .orFault x.run fun run => run.waypoints.toJson)
  | .path id => (x, [], pathReply x id)
  | .log id => (x, [], logReply x id t)
  | .events => (x, [], ⟨200, .text ""⟩)

/-- Answers a request. Questions about what is allowed are answered for every path. -/
def reply (x : Explorer) (r : Request) : Explorer × List Signal × Reply :=
  let t := Target.ofString r.target
  if r.method = "OPTIONS" then (x, [], .refused 200)
  else
    match Route.ofSegments? t.segments with
    | none => (x, [], .refused 404)
    | some route =>
      if route.allows r.method then
        let (x, signals, answer) := routeReply x t route
        (x, signals, if r.method = "HEAD" then answer.withoutBody else answer)
      else (x, [], .refused 405)

/-- A signal in the stream of events. -/
def signalText (s : Signal) : String :=
  "event: " ++ s.name ++ "\ndata: " ++ s.toJson.compact ++ "\n\n"

/-- What a stream of events shows of a mailbox: a remark if signals were lost, then the rest. -/
def eventText (m : Mailbox) : String :=
  (if m.lost = 0 then "" else ": missed event\n\n") ++ String.join (m.waiting.map signalText)

end TraceExplorer.Http
