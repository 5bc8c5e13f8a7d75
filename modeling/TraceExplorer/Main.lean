import TraceExplorer.CommandLine.Host

/-
  The program: commands on the files, the standard streams and the environment of a process.
-/

namespace TraceExplorer.CommandLine

def usage : String :=
  "Usage: tracelog [OPTIONS] <COMMAND>\n\n"
  ++ "Commands:\n"
  ++ "  roots              List root sessions and their run sizes\n"
  ++ "  outcomes           Group the active run's sessions by outcome\n"
  ++ "  results            Show goal markers of the active run\n"
  ++ "  tree               Show the active run as a tree\n"
  ++ "  path <ID>          Resolve the root-to-node path of a session\n"
  ++ "  log <ADDRESS>      Show a node's log from its root\n"
  ++ "  dump               Print every session\n"
  ++ "  serve              Serve the explorer over HTTP\n\n"
  ++ "Options:\n"
  ++ "  -f, --file <FILE>                Trace file (`-` reads standard input)\n"
  ++ "  -r, --root <ROOT>                Machine id of the root whose run is selected\n"
  ++ "      --ignore-halt-codes <CODES>  Skip sessions that halted with these codes\n"
  ++ "      --log-level <LEVEL>          Log level\n"
  ++ "      --log-format <FORMAT>        pretty, json or compact\n"
  ++ "  -h, --help                       Print help\n"
  ++ "  -V, --version                    Print version\n"

/-- All bytes of a stream, those in `read` coming first. -/
partial def readAll (stream : IO.FS.Stream) (read : ByteArray) : IO ByteArray := do
  let bytes ← stream.read 65536
  if bytes.isEmpty then pure read else readAll stream (read ++ bytes)

/-- What an attempt to read gives. -/
def found (read : IO ByteArray) : IO Found := do
  try
    let bytes ← read
    pure (.bytes bytes.toList)
  catch _ => pure .unreadable

def readFile (file : String) : IO Found := do
  let opened ← try some <$> IO.FS.Handle.mk file .read catch _ => pure none
  match opened with
  | none => pure .nothing
  | some handle => found handle.readBinToEnd

def readInput : IO Found := do
  let stream ← IO.getStdin
  found (readAll stream .empty)

/-- Creates the file, and the directory that it stands in, unless they are there. -/
def openLog (file : String) : IO Bool := do
  let directory := "/".intercalate (file.splitOn "/").dropLast
  try
    if directory != "" then IO.FS.createDirAll directory
    discard <| IO.FS.Handle.mk file .append
    pure true
  catch _ => pure false

/-- Colours are used on a terminal, unless the environment says otherwise. -/
def wantsColor : IO Bool := do
  match ← IO.getEnv "CLICOLOR_FORCE" with
  | some s => if s != "0" then return true
  | none => pure ()
  if (← IO.getEnv "NO_COLOR").isSome || (← IO.getEnv "CLICOLOR") == some "0" then return false
  (← IO.getStdout).isTty

def configDirectory : IO (Option String) := do
  match ← IO.getEnv "XDG_CONFIG_HOME" with
  | some directory => if directory.startsWith "/" then return some directory
  | none => pure ()
  pure ((← IO.getEnv "HOME").map fun home => inDirectory home ".config")

def processHost : IO (Host IO) := do
  pure
    { workingDirectory := (← IO.currentDir).toString
      configDirectory := ← configDirectory
      colored := ← wantsColor
      read := readFile
      readInput
      openLog }

end TraceExplorer.CommandLine

open TraceExplorer.CommandLine in
def main (args : List String) : IO UInt32 := do
  match Invocation.ofArgs args with
  | .error .help => IO.print usage
  | .error .misuse => IO.eprint usage
  | _ => pure ()
  let result ← run (← processHost) args
  IO.print result.output
  IO.eprint result.diagnostics
  pure result.code.toUInt32
