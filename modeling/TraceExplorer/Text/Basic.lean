import TraceExplorer.CharClass.Hidden

/-
  What is done to texts. White space is taken off their ends; in columns they are filled with
  spaces up to a width and never cut. A quoted text, as messages show it, has double quotes
  around, a backslash before a double quote and a backslash, short escapes for the common
  controls, and the number of every other character that would not show as itself.
-/

namespace TraceExplorer.Text

open CharClass (isBlank)

/-! ## White space -/

/-- The text without its last characters as long as they satisfy `p`. -/
def dropEndWhile (p : Char → Bool) (s : List Char) : List Char :=
  (s.reverse.dropWhile p).reverse

def trimStart (s : List Char) : List Char := s.dropWhile isBlank

def trimEnd (s : List Char) : List Char := dropEndWhile isBlank s

def trim (s : List Char) : List Char := trimEnd (trimStart s)

/-! ## Columns -/

/-- At least `width` characters, the text at the right end. -/
def alignRight (width : Nat) (s : String) : String :=
  String.ofList (List.replicate (width - s.length) ' ') ++ s

/-- At least `width` characters, the text at the left end. -/
def alignLeft (width : Nat) (s : String) : String :=
  s ++ String.ofList (List.replicate (width - s.length) ' ')

/-- `n` copies of a text. -/
def repeated (n : Nat) (s : String) : String := String.join (List.replicate n s)

/-! ## Quotes -/

/-- A character between the quotes. -/
def quotedChar (c : Char) : List Char :=
  match c with
  | '\x00' => ['\\', '0']
  | '\t' => ['\\', 't']
  | '\r' => ['\\', 'r']
  | '\n' => ['\\', 'n']
  | '"' => ['\\', '"']
  | '\\' => ['\\', '\\']
  | c =>
    if CharClass.isHidden c then
      ['\\', 'u', '{'] ++ Nat.toDigits 16 c.toNat ++ ['}']
    else [c]

def quoted (s : String) : String :=
  String.ofList ('"' :: s.toList.flatMap quotedChar ++ ['"'])

end TraceExplorer.Text
