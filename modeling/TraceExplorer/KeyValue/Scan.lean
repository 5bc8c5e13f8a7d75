/-
  How far a value of a `key=value` text reaches: up to a blank that stands outside quotes and
  outside brackets, braces and parentheses.
-/

namespace TraceExplorer.KeyValue

/-- The blanks between pairs. -/
def isSpace (c : Char) : Bool := c == ' ' || c == '\t' || c == '\n'

def isQuote (c : Char) : Bool := c == '"' || c == '\''

/-- How many groups of each kind are open. A closing mark without its opening one is text. The
counts are not bounded: counters of 32 bits hold the same up to 2 ^ 32 - 1 groups open at once. -/
structure Depth where
  brackets : Nat
  braces : Nat
  parens : Nat
deriving Repr, DecidableEq, Inhabited

def Depth.none : Depth := ⟨0, 0, 0⟩

def Depth.isNone (d : Depth) : Bool := d.brackets + d.braces + d.parens == 0

def Depth.after (d : Depth) (c : Char) : Depth :=
  match c with
  | '[' => { d with brackets := d.brackets + 1 }
  | ']' => { d with brackets := d.brackets - 1 }
  | '{' => { d with braces := d.braces + 1 }
  | '}' => { d with braces := d.braces - 1 }
  | '(' => { d with parens := d.parens + 1 }
  | ')' => { d with parens := d.parens - 1 }
  | _ => d

/-- Where in a value the scan stands: outside quotes, inside them, or after a backslash there. -/
inductive Place where
  | plain (d : Depth)
  | quoted (q : Char) (d : Depth)
  | escaped (q : Char) (d : Depth)
deriving Repr, DecidableEq, Inhabited

/-- The start of a value. -/
def Place.start : Place := .plain .none

/-- The place after one more character, unless the value ends before it. -/
def Place.step (p : Place) (c : Char) : Option Place :=
  match p with
  | .plain d =>
    if isQuote c then some (.quoted c d)
    else if isSpace c && d.isNone then none
    else some (.plain (d.after c))
  | .quoted q d =>
    if c == '\\' then some (.escaped q d) else if c == q then some (.plain d) else some p
  | .escaped q d => some (.quoted q d)

end TraceExplorer.KeyValue
