import TraceExplorer.Number.Unsigned

/-
  TOML strings: basic ones, between double quotes and with escapes, and literal ones, between
  single quotes and as they are; both on one line, or on several between three quotes.
-/

namespace TraceExplorer.Toml

/-- Space or tab. -/
def isBlank (c : Char) : Bool := c == ' ' || c == '\t'

/-- A character that text may hold as it is: no control but the tab. -/
def isPlain (c : Char) : Bool := c == '\t' || (' ' ≤ c && c != '\x7f')

/-- A line end at the front, taken off. -/
def lineEnd? : List Char → Option (List Char)
  | '\n' :: s => some s
  | '\r' :: '\n' :: s => some s
  | _ => none

/-- The character of an escape of one letter. -/
def escaped? : Char → Option Char
  | 'b' => some '\x08'
  | 't' => some '\t'
  | 'n' => some '\n'
  | 'f' => some '\x0c'
  | 'r' => some '\r'
  | '"' => some '"'
  | '\\' => some '\\'
  | _ => none

/-- The character of a number in hexadecimal digits. -/
def numbered? (ds : List Char) : Option Char :=
  (Number.hexDigits? ds).bind fun n => if n.isValidChar then some (Char.ofNat n) else none

/-- A string and the text behind it. -/
abbrev Read := Option (List Char × List Char)

def Read.cons (c : Char) (r : Read) : Read := r.map fun (s, rest) => (c :: s, rest)

/-- The rest of a basic string. -/
def basic? : List Char → Read
  | '"' :: s => some ([], s)
  | '\\' :: 'u' :: a :: b :: c :: d :: s =>
    (numbered? [a, b, c, d]).bind fun u => Read.cons u (basic? s)
  | '\\' :: 'U' :: a :: b :: c :: d :: e :: f :: g :: h :: s =>
    (numbered? [a, b, c, d, e, f, g, h]).bind fun u => Read.cons u (basic? s)
  | '\\' :: c :: s => (escaped? c).bind fun u => Read.cons u (basic? s)
  | c :: s => if isPlain c && c != '\\' then Read.cons c (basic? s) else none
  | [] => none

/-- The rest of a literal string. -/
def literal? : List Char → Read
  | '\'' :: s => some ([], s)
  | c :: s => if isPlain c then Read.cons c (literal? s) else none
  | [] => none

/-- The rest of a basic string on several lines; `skipping` blanks and line ends, which a
backslash at the end of a line asks for. -/
def longBasic? (skipping : Bool) : List Char → Read
  | '"' :: '"' :: '"' :: '"' :: '"' :: s => some (['"', '"'], s)
  | '"' :: '"' :: '"' :: '"' :: s => some (['"'], s)
  | '"' :: '"' :: '"' :: s => some ([], s)
  | '\\' :: 'u' :: a :: b :: c :: d :: s =>
    (numbered? [a, b, c, d]).bind fun u => Read.cons u (longBasic? false s)
  | '\\' :: 'U' :: a :: b :: c :: d :: e :: f :: g :: h :: s =>
    (numbered? [a, b, c, d, e, f, g, h]).bind fun u => Read.cons u (longBasic? false s)
  | '\\' :: c :: s =>
    if (lineEnd? ((c :: s).dropWhile isBlank)).isSome then longBasic? true (c :: s)
    else (escaped? c).bind fun u => Read.cons u (longBasic? false s)
  | '\r' :: '\n' :: s =>
    if skipping then longBasic? true s else Read.cons '\n' (longBasic? false s)
  | '\n' :: s => if skipping then longBasic? true s else Read.cons '\n' (longBasic? false s)
  | c :: s =>
    if skipping && isBlank c then longBasic? true s
    else if isPlain c && c != '\\' then Read.cons c (longBasic? false s)
    else none
  | [] => none

/-- The rest of a literal string on several lines. -/
def longLiteral? : List Char → Read
  | '\'' :: '\'' :: '\'' :: '\'' :: '\'' :: s => some (['\'', '\''], s)
  | '\'' :: '\'' :: '\'' :: '\'' :: s => some (['\''], s)
  | '\'' :: '\'' :: '\'' :: s => some ([], s)
  | '\r' :: '\n' :: s => Read.cons '\n' (longLiteral? s)
  | '\n' :: s => Read.cons '\n' (longLiteral? s)
  | c :: s => if isPlain c then Read.cons c (longLiteral? s) else none
  | [] => none

/-- A string on one line, its opening quote included. -/
def shortString? : List Char → Read
  | '"' :: s => basic? s
  | '\'' :: s => literal? s
  | _ => none

/-- A string, its opening quotes included; a line end right after three quotes does not count. -/
def string? : List Char → Read
  | '"' :: '"' :: '"' :: s => longBasic? false ((lineEnd? s).getD s)
  | '\'' :: '\'' :: '\'' :: s => longLiteral? ((lineEnd? s).getD s)
  | s => shortString? s

end TraceExplorer.Toml
