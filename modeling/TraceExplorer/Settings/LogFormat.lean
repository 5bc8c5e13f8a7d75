/-
  The forms in which diagnostics can be written.
-/

namespace TraceExplorer

inductive LogFormat where
  | pretty
  | json
  | compact
deriving Repr, DecidableEq

namespace LogFormat

def name : LogFormat → String
  | .pretty => "pretty"
  | .json => "json"
  | .compact => "compact"

/-- The form of a name in small letters. -/
def ofName? (s : String) : Option LogFormat :=
  if s = "pretty" then some .pretty
  else if s = "json" then some .json
  else if s = "compact" then some .compact
  else none

/-- The form of a name in letters of either case, or a message. -/
def parse (s : String) : Except String LogFormat :=
  match ofName? s.toLower with
  | some f => .ok f
  | none => .error ("Unknown log format: " ++ s)

end LogFormat

end TraceExplorer
