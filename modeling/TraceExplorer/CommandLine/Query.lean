import TraceExplorer.CommandLine.Invocation
import TraceExplorer.Report.Lines

/-
  What the commands say about the sessions in an explorer.
-/

namespace TraceExplorer.CommandLine

open Report (paint)

/-- What a command writes: lines of output, lines of diagnostics, and the error it ends with. -/
structure Answer where
  output : List String
  diagnostics : List String
  error : Option String
deriving Repr, DecidableEq

namespace Answer

def lines (l : List String) : Answer := ⟨l, [], none⟩

def json (v : Json) : Answer := ⟨[v.pretty], [], none⟩

def failed (message : String) : Answer := ⟨[], [], some message⟩

def orFailed (r : Except Fault α) (f : α → Answer) : Answer :=
  match r with
  | .ok a => f a
  | .error fault => failed fault.message

/-- First what `a` says, then what `b` says unless `a` ends with an error. -/
def andThen (a b : Answer) : Answer :=
  match a.error with
  | some _ => a
  | none => ⟨a.output ++ b.output, a.diagnostics ++ b.diagnostics, b.error⟩

end Answer

open Answer

def rootsAnswer (colored json : Bool) (x : Explorer) : Answer :=
  if json then .json (.arr (x.roots.map RootSummary.toJson))
  else if x.roots.isEmpty then lines [paint colored .dimmed "No root sessions found."]
  else lines (Report.rootLines colored x.roots)

def outcomesAnswer (colored json : Bool) (x : Explorer) : Answer :=
  orFailed x.run fun run =>
    if json then .json run.buckets.toJson else lines (Report.bucketLines colored run.buckets)

def resultsAnswer (colored json : Bool) (x : Explorer) : Answer :=
  orFailed x.run fun run =>
    if json then .json run.waypoints.toJson
    else if run.waypoints.isEmpty then lines [paint colored .dimmed "No goals in this run."]
    else lines (Report.waypointLines colored run.waypoints)

def treeAnswer (colored json : Bool) (x : Explorer) : Answer :=
  orFailed x.run fun run =>
    if json then .json (.arr (run.nodes.map Node.toJson))
    else lines (Report.nodeLines colored run.nodes)

def pathAnswer (colored json : Bool) (x : Explorer) (id : String) : Answer :=
  orFailed (x.path id) fun lookup =>
    if json then .json lookup.toJson
    else
      match lookup with
      | .path steps => lines (Report.stepLines steps)
      | .empty => lines [paint colored .dimmed (id ++ " is not in the active run.")]

/-- An address as `log` follows it: with a raw mark behind it if raw logs are asked for. -/
def logAddress (address : String) (raw : Bool) : String :=
  if raw && !Address.rawMark.isSuffixOf address.toList then
    address ++ String.ofList Address.rawMark
  else address

def navigationAnswer (colored json : Bool) (nav : Navigation) : Answer :=
  if json then .json nav.toJson
  else
    match nav with
    | .log address _ log =>
      lines (paint colored .boldBrightBlue address :: Report.logLines colored log)
    | .cleared .. => lines []

/-- Follows the address, and what it falls back to if it leads nowhere. -/
def logAnswer (colored json : Bool) (x : Explorer) (address : String) (raw : Bool) : Answer :=
  match x.navigate (logAddress address raw) with
  | (x, _, .cleared fallback reason) =>
    let said : Answer := ⟨[], [paint colored .brightYellow "Cleared:" ++ " " ++ reason], none⟩
    said.andThen <|
      if fallback = "" then failed ("Nothing to show for " ++ Text.quoted reason)
      else navigationAnswer colored json (x.navigate fallback).2.2
  | (_, _, nav) => navigationAnswer colored json nav

/-- Sessions one by one, up to the first that cannot be shown. -/
def sessionsAnswer (x : Index) (terse : Bool) : List Entry → Answer
  | [] => lines []
  | e :: rest =>
    let shown :=
      if terse then (Report.summaryLine x e.id).map fun line => [line]
      else Report.sessionLines x e.id
    (orFailed shown lines).andThen (sessionsAnswer x terse rest)

def dumpAnswer (terse json : Bool) (x : Index) : Answer :=
  let order := Report.dumpOrder x
  if json then .json (.arr (order.map fun e => e.session.toJson))
  else sessionsAnswer x terse order

end TraceExplorer.CommandLine
