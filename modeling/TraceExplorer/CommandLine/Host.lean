import TraceExplorer.CommandLine.Query
import TraceExplorer.Settings.Basic

/-
  Commands carried out on a host, which gives access to files and standard input. There is no
  network on a host, so serving ends when the address would be bound.
-/

namespace TraceExplorer.CommandLine

/-- What is found at a place in the file system. -/
inductive Found where
  | nothing
  /-- Something that cannot be read as a file. -/
  | unreadable
  | bytes (content : List UInt8)

/-- Where commands run; names of files may be relative to the working directory. -/
structure Host (m : Type → Type) where
  workingDirectory : String
  configDirectory : Option String
  colored : Bool
  read : String → m Found
  readInput : m Found
  /-- Opens a file for diagnostics, and tells whether it could. -/
  openLog : String → m Bool

/-- What a command leaves: its exit code and its texts. -/
structure Result where
  code : Nat
  output : String
  diagnostics : String
deriving Repr, DecidableEq

namespace Result

/-- Every line with an end. -/
def ofLines (l : List String) : String := String.join (l.map (· ++ "\n"))

def ofAnswer (a : Answer) : Result :=
  let message := a.error.elim [] fun message => ["Error: " ++ message]
  { code := if a.error.isSome then 1 else 0
    output := ofLines a.output
    diagnostics := ofLines (a.diagnostics ++ message) }

def ofRefusal : Refusal → Result
  | .help => ⟨0, "", ""⟩
  | .version => ⟨0, "tracelog 0.1.0\n", ""⟩
  | .misuse => ⟨2, "", ""⟩

end Result

/-- A file in a directory. -/
def inDirectory (directory file : String) : String := directory ++ "/" ++ file

/-- The files that may hold settings; the first that is there counts. -/
def settingsFiles (host : Host m) : List String :=
  inDirectory host.workingDirectory "tracelog.toml"
    :: host.configDirectory.elim [] fun d => [inDirectory d "tracelog/tracelog.toml"]

/-- The settings in a file, or an error. -/
def settingsOf (file : String) (bytes : List UInt8) : Except String Settings :=
  match String.fromUTF8? ⟨bytes.toArray⟩ with
  | none => .error ("Failed to read " ++ file)
  | some text =>
    match Settings.read? text with
    | some s => .ok s
    | none => .error ("Failed to parse " ++ file)

section

variable {m : Type → Type} [Monad m]

def readSettings (host : Host m) : List String → m (Except String Settings)
  | [] => pure (.ok .standard)
  | file :: rest => do
    match ← host.read file with
    | .nothing => readSettings host rest
    | .unreadable => pure (.error ("Failed to read " ++ file))
    | .bytes bytes => pure (settingsOf file bytes)

/-- The bytes of the trace, or an error. -/
def readTrace (host : Host m) (file : String) : m (Except String (List UInt8)) := do
  if file = "-" then
    match ← host.readInput with
    | .bytes bytes => pure (.ok bytes)
    | _ => pure (.error "Failed to read trace from stdin")
  else
    match ← host.read file with
    | .bytes bytes => pure (.ok bytes)
    | .unreadable => pure (.error ("Failed to read trace file: " ++ Text.quoted file))
    | .nothing => pure (.error ("Failed to open trace file: " ++ Text.quoted file))

end

/-- An explorer with the run that is asked for, else that of the settings or the first. -/
def selectRun (x : Explorer) (root preferred : Option UInt64) : Except String Explorer :=
  match root with
  | none => .ok (x.selectDefault preferred).1
  | some mach =>
    match x.selectRoot mach with
    | (x, _, true) => .ok x
    | _ => .error ("No root session with machine id " ++ Number.decimal mach)

/-- What is left to serving without a network. -/
def serveAnswer (settings : Settings) (file : String) (addr : Option String) (watch : Bool) :
    Answer :=
  if (watch || settings.watch.getD false) && file == "-" then
    .failed "--watch needs a trace file, not stdin"
  else .failed ("Failed to bind API server to " ++ addr.getD settings.effectiveAddr)

def answer (colored : Bool) (settings : Settings) (file : String) (x : Explorer) :
    Command → Answer
  | .roots json => rootsAnswer colored json x
  | .outcomes json => outcomesAnswer colored json x
  | .results json => resultsAnswer colored json x
  | .tree json => treeAnswer colored json x
  | .path id json => pathAnswer colored json x id
  | .log address raw json => logAnswer colored json x address raw
  | .dump terse json => dumpAnswer terse json x.index
  | .serve addr watch => serveAnswer settings file addr watch

/-- What a command says about a trace. -/
def answerTrace (colored : Bool) (settings : Settings) (call : Invocation)
    (bytes : List UInt8) : Answer :=
  match Trace.load (settings.ignoredCodes ++ call.ignoredCodes) bytes with
  | .error fault => .failed fault.message
  | .ok trace =>
    match selectRun (Explorer.load trace).1 call.root settings.defaultRoot with
    | .error message => .failed message
    | .ok x => answer colored settings call.file x call.command

section

variable {m : Type → Type} [Monad m]

def carryOut (host : Host m) (call : Invocation) : m Answer := do
  match ← readSettings host (settingsFiles host) with
  | .error message => pure (.failed message)
  | .ok settings =>
    let logging ← settings.logFile.elim (pure true) host.openLog
    if !logging then pure (.failed "Failed to open log file")
    else
      match ← readTrace host call.file with
      | .error message => pure (.failed message)
      | .ok bytes => pure (answerTrace host.colored settings call bytes)

/-- Runs the command that the arguments give. -/
def run (host : Host m) (args : List String) : m Result :=
  match Invocation.ofArgs args with
  | .error refusal => pure (.ofRefusal refusal)
  | .ok call => Result.ofAnswer <$> carryOut host call

end

end TraceExplorer.CommandLine
