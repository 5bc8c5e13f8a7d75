import TraceExplorer.Number.Unsigned
import TraceExplorer.Settings.LogFormat

/-
  Arguments of a command, sorted into options with values, flags and words. They are read from
  left to right, and the first one that does not fit, or that asks for help, ends the reading.
-/

namespace TraceExplorer.CommandLine

/-- Why no command is carried out. -/
inductive Refusal where
  | help
  | version
  | misuse
deriving Repr, DecidableEq

/-- What may be given at one place: before the name of a command, or behind it. -/
structure Grammar where
  options : List String
  flags : List String
  /-- How many words. -/
  words : Nat
  /-- Whether the version may be asked for. -/
  version : Bool

structure Given where
  options : List (String × String)
  flags : List String
  words : List String

namespace Given

def empty : Given := ⟨[], [], []⟩

def has (x : Given) (flag : String) : Bool := x.flags.contains flag

def value? (x : Given) (option : String) : Option String := x.options.lookup option

/-- All values of an option that may be repeated. -/
def values (x : Given) (option : String) : List String :=
  (x.options.filter (·.1 == option)).map (·.2)

end Given

/-- The form of an argument. -/
inductive Form where
  /-- Everything behind it is a word. -/
  | separator
  | long (name : String) (value : Option String)
  | short (letter : Char) (tail : List Char)
  | word
deriving DecidableEq

def Form.ofChars : List Char → Form
  | ['-', '-'] => .separator
  | '-' :: '-' :: s =>
    let name := String.ofList (s.takeWhile (· != '='))
    match s.dropWhile (· != '=') with
    | _ :: value => .long name (some (String.ofList value))
    | [] => .long name none
  | '-' :: letter :: tail => .short letter tail
  | _ => .word

/-- The value that stands right behind the letter of an option, perhaps after `=`. -/
def attached? : List Char → Option String
  | [] => none
  | '=' :: value => some (String.ofList value)
  | value => some (String.ofList value)

/-- The option of a letter. -/
def optionOfLetter? : Char → Option String
  | 'f' => some "file"
  | 'r' => some "root"
  | _ => none

/-- Numbers between commas. -/
def codes? (s : String) : Option (List UInt64) :=
  (s.splitOn ",").mapM fun part => Number.word? part.toList

/-- A value that its option can have. -/
def isValue (option value : String) : Bool :=
  match option with
  | "file" => value != ""
  | "root" => (Number.word? value.toList).isSome
  | "ignore-halt-codes" => (codes? value).isSome
  | "log-format" => (LogFormat.ofName? value).isSome
  | _ => true

namespace Given

/-- Takes in an option; only one of them may be repeated. -/
def addOption (x : Given) (option value : String) : Except Refusal Given :=
  if (option = "ignore-halt-codes" ∨ x.value? option = none) ∧ isValue option value then
    .ok { x with options := x.options ++ [(option, value)] }
  else .error .misuse

def addFlag (x : Given) (flag : String) : Except Refusal Given :=
  if x.has flag then .error .misuse else .ok { x with flags := x.flags ++ [flag] }

end Given

/-- What an argument with a name asks for. -/
inductive Demand where
  | option (name : String) (value : Option String)
  | flag (name : String)
  | refuse (r : Refusal)

namespace Grammar

def ofLong (g : Grammar) (name : String) (value : Option String) : Demand :=
  if g.options.contains name then .option name value
  else if value.isSome then .refuse .misuse
  else if g.flags.contains name then .flag name
  else if name = "help" then .refuse .help
  else if name = "version" ∧ g.version then .refuse .version
  else .refuse .misuse

def ofShort (g : Grammar) (letter : Char) (tail : List Char) : Demand :=
  match optionOfLetter? letter with
  | some name => if g.options.contains name then .option name (attached? tail) else .refuse .misuse
  | none =>
    if letter = 'h' then .refuse .help
    else if letter = 'V' ∧ g.version then .refuse .version
    else .refuse .misuse

/-- What an argument asks for, and nothing if it is a word. -/
def demand? (g : Grammar) : Form → Option Demand
  | .long name value => some (g.ofLong name value)
  | .short letter tail => some (g.ofShort letter tail)
  | .separator | .word => none

/-- Reads arguments up to the first word that there is no place for. -/
def read (g : Grammar) (x : Given) : List String → Except Refusal (Given × List String)
  | [] => .ok (x, [])
  | arg :: rest =>
    let form := Form.ofChars arg.toList
    match g.demand? form with
    | some (.refuse r) => .error r
    | some (.flag name) => (x.addFlag name).bind fun x => read g x rest
    | some (.option name (some value)) => (x.addOption name value).bind fun x => read g x rest
    | some (.option name none) =>
      match rest with
      | [] => .error .misuse
      | value :: rest =>
        if Form.ofChars value.toList = .word then
          (x.addOption name value).bind fun x => read g x rest
        else .error .misuse
    | none =>
      if form = .separator then
        if x.words.length + rest.length ≤ g.words then
          .ok ({ x with words := x.words ++ rest }, [])
        else .error .misuse
      else if x.words.length < g.words then read g { x with words := x.words ++ [arg] } rest
      else .ok (x, arg :: rest)

end Grammar

end TraceExplorer.CommandLine
