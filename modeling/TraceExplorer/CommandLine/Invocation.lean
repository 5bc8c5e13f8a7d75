import TraceExplorer.CommandLine.Arguments

/-
  Commands with their options, as the arguments give them. Options that hold for every command
  may stand before its name or behind it; behind it they count first.
-/

namespace TraceExplorer.CommandLine

inductive Command where
  | roots (json : Bool)
  | outcomes (json : Bool)
  | results (json : Bool)
  | tree (json : Bool)
  | path (id : String) (json : Bool)
  | log (address : String) (raw json : Bool)
  | dump (terse json : Bool)
  | serve (addr : Option String) (watch : Bool)
deriving Repr, DecidableEq

structure Invocation where
  /-- The file with the trace, `-` for standard input. -/
  file : String
  root : Option UInt64
  ignoredCodes : List UInt64
  logLevel : Option String
  logFormat : Option LogFormat
  command : Command
deriving Repr, DecidableEq

/-- Options that hold for every command. -/
def commonOptions : List String :=
  ["file", "root", "ignore-halt-codes", "log-level", "log-format"]

/-- What may stand before the name of a command. -/
def outerGrammar : Grammar := ⟨commonOptions, [], 0, true⟩

/-- What may stand behind the name of a command. -/
def Grammar.ofCommand? (name : String) : Option Grammar :=
  match name with
  | "roots" | "outcomes" | "results" | "tree" => some ⟨commonOptions, ["json"], 0, false⟩
  | "path" => some ⟨commonOptions, ["json"], 1, false⟩
  | "log" => some ⟨commonOptions, ["raw", "json"], 1, false⟩
  | "dump" => some ⟨commonOptions, ["terse", "json"], 0, false⟩
  | "serve" => some ⟨"addr" :: commonOptions, ["watch"], 0, false⟩
  | _ => none

/-- The command of a name and what is given behind it, if nothing is missing. -/
def Command.ofGiven? (name : String) (x : Given) : Option Command :=
  match name, x.words with
  | "roots", [] => some (.roots (x.has "json"))
  | "outcomes", [] => some (.outcomes (x.has "json"))
  | "results", [] => some (.results (x.has "json"))
  | "tree", [] => some (.tree (x.has "json"))
  | "path", [id] => some (.path id (x.has "json"))
  | "log", [address] => some (.log address (x.has "raw") (x.has "json"))
  | "dump", [] =>
    if x.has "terse" && x.has "json" then none
    else some (.dump (x.has "terse") (x.has "json"))
  | "serve", [] => some (.serve (x.value? "addr") (x.has "watch"))
  | _, _ => none

/-- The numbers that an option gives, at the inner place if it stands there. -/
def codesOf (outer inner : Given) : List UInt64 :=
  let values := inner.values "ignore-halt-codes"
  let values := if values.isEmpty then outer.values "ignore-halt-codes" else values
  values.flatMap fun s => (codes? s).getD []

def Invocation.ofGiven (outer inner : Given) (command : Command) : Invocation :=
  let value? (option : String) := inner.value? option <|> outer.value? option
  { file := (value? "file").getD "-"
    root := (value? "root").bind fun s => Number.word? s.toList
    ignoredCodes := codesOf outer inner
    logLevel := value? "log-level"
    logFormat := (value? "log-format").bind LogFormat.ofName?
    command }

/-- Help may be asked for by name, for one command or for all of them. -/
def refusalOfHelp : List String → Refusal
  | [] => .help
  | [name] => if name = "help" ∨ (Grammar.ofCommand? name).isSome then .help else .misuse
  | _ => .misuse

def Invocation.ofArgs (args : List String) : Except Refusal Invocation :=
  match outerGrammar.read .empty args with
  | .error r => .error r
  | .ok (_, []) => .error .misuse
  | .ok (_, "help" :: rest) => .error (refusalOfHelp rest)
  | .ok (outer, name :: rest) =>
    match Grammar.ofCommand? name with
    | none => .error .misuse
    | some g =>
      match g.read .empty rest with
      | .error r => .error r
      | .ok (_, _ :: _) => .error .misuse
      | .ok (inner, []) =>
        match Command.ofGiven? name inner with
        | some command => .ok (.ofGiven outer inner command)
        | none => .error .misuse

end TraceExplorer.CommandLine
