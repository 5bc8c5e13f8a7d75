import TraceExplorer.Dict
import TraceExplorer.Settings.LogFormat
import TraceExplorer.Toml.Document

/-
  Settings read from a TOML file. A key that is not known, or a value that is not of the kind
  its key calls for, makes the whole file unusable.
-/

namespace TraceExplorer

structure Settings where
  logLevel : Option String
  logFormat : Option LogFormat
  /-- Diagnostics also go to this file. -/
  logFile : Option String
  /-- Sessions that halted with these codes are left out. -/
  ignoredCodes : List UInt64
  /-- The run that is selected when the command line names none. -/
  defaultRoot : Option UInt64
  addr : Option String
  watch : Option Bool
deriving Repr, DecidableEq

namespace Settings

def standard : Settings := ⟨none, none, none, [], none, none, none⟩

def effectiveLevel (s : Settings) : String := s.logLevel.getD "warn"

def effectiveAddr (s : Settings) : String := s.addr.getD "127.0.0.1:4180"

def string? : Toml → Option String
  | .str s => some s
  | _ => none

def bool? : Toml → Option Bool
  | .bool b => some b
  | _ => none

def word? : Toml → Option UInt64
  | .int n => if 0 ≤ n then Number.word64? n.toNat else none
  | _ => none

/-- Words in any order and number, as a set: ascending and each once. -/
def wordSet? : Toml → Option (List UInt64)
  | .arr items =>
    (items.mapM word?).map fun ws => (Dict.ofList (ws.map fun w => (w, ()))).keys
  | _ => none

/-- A form is named, or is the only key of a table, with nothing under it. -/
def logFormat? : Toml → Option LogFormat
  | .str s => LogFormat.ofName? s
  | .table [(s, .table [])] => LogFormat.ofName? s
  | .table [(s, .arr [])] => LogFormat.ofName? s
  | _ => none

/-- Takes in a field of the table on serving. -/
def setServe (s : Settings) (e : String × Toml) : Option Settings :=
  match e.1 with
  | "addr" => (string? e.2).map fun v => { s with addr := some v }
  | "watch" => (bool? e.2).map fun v => { s with watch := some v }
  | _ => none

/-- Serving is set up by a table, or by its values in order. -/
def serve? (s : Settings) : Toml → Option Settings
  | .table fields => fields.foldlM setServe s
  | .arr (addr :: watch :: _) => [("addr", addr), ("watch", watch)].foldlM setServe s
  | _ => none

/-- Takes in a field of the file. -/
def set (s : Settings) (e : String × Toml) : Option Settings :=
  match e.1 with
  | "log_level" => (string? e.2).map fun v => { s with logLevel := some v }
  | "log_format" => (logFormat? e.2).map fun v => { s with logFormat := some v }
  | "log_file" => (string? e.2).map fun v => { s with logFile := some v }
  | "ignore_halt_codes" => (wordSet? e.2).map fun v => { s with ignoredCodes := v }
  | "default_root" => (word? e.2).map fun v => { s with defaultRoot := some v }
  | "serve" => serve? s e.2
  | _ => none

/-- The settings that a file holds. -/
def read? (text : String) : Option Settings :=
  (Toml.read? text).bind fun fields => fields.foldlM set standard

end Settings

end TraceExplorer
