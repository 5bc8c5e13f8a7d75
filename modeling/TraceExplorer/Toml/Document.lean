import TraceExplorer.Toml.Quoted
import TraceExplorer.Toml.Scalar

/-
  TOML documents read from text: sections of keys and values, line by line.
-/

namespace TraceExplorer.Toml

def skipBlanks (s : List Char) : List Char := s.dropWhile isBlank

/-- A comment taken off, up to the end of its line. -/
def skipComment : List Char → List Char
  | '#' :: s => s.dropWhile isPlain
  | s => s

/-- Blanks, comments and line ends taken off. -/
def skipLines : Nat → List Char → List Char
  | 0, s => s
  | fuel + 1, s =>
    let rest := skipComment (skipBlanks s)
    match lineEnd? rest with
    | some next => skipLines fuel next
    | none => rest

/-- The end of a line behind a value or a header, taken off. -/
def endLine? (s : List Char) : Option (List Char) :=
  match skipComment (skipBlanks s) with
  | [] => some []
  | s => lineEnd? s

def isKeyChar (c : Char) : Bool := c.isAlphanum || c == '_' || c == '-'

def simpleKey? (s : List Char) : Option (String × List Char) :=
  match s with
  | '"' :: _ | '\'' :: _ => (shortString? s).map fun (key, rest) => (String.ofList key, rest)
  | s =>
    let key := s.takeWhile isKeyChar
    if key.isEmpty then none else some (String.ofList key, s.dropWhile isKeyChar)

/-- Keys with dots between them, and the blanks around them. -/
def dottedKeys? : Nat → List Char → Option (List String × List Char)
  | 0, _ => none
  | fuel + 1, s =>
    (simpleKey? (skipBlanks s)).bind fun (key, rest) =>
      match skipBlanks rest with
      | '.' :: rest => (dottedKeys? fuel rest).map fun (keys, rest) => (key :: keys, rest)
      | rest => some ([key], rest)

/-- So many brackets may not be open at once, and a dotted key may not have so many parts. -/
def depthLimit : Nat := 80

/-- A dotted key with the blanks around it. -/
def key? (s : List Char) : Option (List String × List Char) :=
  (dottedKeys? s.length s).filter fun (keys, _) => keys.length < depthLimit

/-- The characters of a scalar, and the text behind it; between a date and a time there may be
a space. -/
def scalarChars (s : List Char) : List Char × List Char :=
  let cs := s.takeWhile isScalarChar
  let rest := s.dropWhile isScalarChar
  match rest with
  | ' ' :: c :: more =>
    if isMoment cs && cs.length == 10 && c.isDigit then
      (cs ++ ' ' :: (c :: more).takeWhile isScalarChar, (c :: more).dropWhile isScalarChar)
    else (cs, rest)
  | _ => (cs, rest)

mutual

/-- A value inside `depth` brackets. -/
def value? (depth : Nat) : Nat → List Char → Option (Toml × List Char)
  | 0, _ => none
  | fuel + 1, s =>
    match s with
    | '"' :: _ | '\'' :: _ => (string? s).map fun (cs, rest) => (.str (String.ofList cs), rest)
    | '[' :: s =>
      if depth + 1 < depthLimit then
        (items? (depth + 1) fuel s).map fun (items, rest) => (.arr items, rest)
      else none
    | '{' :: s =>
      if depth + 1 < depthLimit then
        (table? (depth + 1) fuel s).map fun (fields, rest) => (.table fields, rest)
      else none
    | s =>
      let (cs, rest) := scalarChars s
      (scalar? cs).map fun v => (v, rest)

/-- The elements of an array, up to its closing bracket. -/
def items? (depth : Nat) : Nat → List Char → Option (List Toml × List Char)
  | 0, _ => none
  | fuel + 1, s =>
    match skipLines s.length s with
    | ']' :: rest => some ([], rest)
    | s =>
      (value? depth fuel s).bind fun (v, rest) =>
        match skipLines rest.length rest with
        | ',' :: rest => (items? depth fuel rest).map fun (vs, rest) => (v :: vs, rest)
        | ']' :: rest => some ([v], rest)
        | _ => none

/-- The fields of a table in braces, put together. -/
def table? (depth : Nat) : Nat → List Char → Option (List (String × Toml) × List Char)
  | 0, _ => none
  | fuel + 1, s =>
    match skipBlanks s with
    | '}' :: rest => some ([], rest)
    | s =>
      (fields? depth fuel s).bind fun (pairs, rest) =>
        (ofPairs? pairs).map fun fields => (closeFields fields, rest)

/-- A key and its value on one line. -/
def assignment? (depth : Nat) : Nat → List Char → Option ((List String × Toml) × List Char)
  | 0, _ => none
  | fuel + 1, s =>
    (key? s).bind fun (key, rest) =>
      match rest with
      | '=' :: rest => (value? depth fuel (skipBlanks rest)).map fun (v, rest) => ((key, v), rest)
      | _ => none

/-- The fields of a table in braces, up to its closing brace. -/
def fields? (depth : Nat) : Nat → List Char → Option (List (List String × Toml) × List Char)
  | 0, _ => none
  | fuel + 1, s =>
    (assignment? depth fuel s).bind fun (e, rest) =>
      match skipBlanks rest with
      | ',' :: rest => (fields? depth fuel rest).map fun (l, rest) => (e :: l, rest)
      | '}' :: rest => some ([e], rest)
      | _ => none

end

/-- A header, its opening bracket taken off already. -/
def header? (s : List Char) : Option (Section × List Char) :=
  match s with
  | '[' :: s =>
    match key? s with
    | some (key, ']' :: ']' :: rest) => some (⟨key, true, []⟩, rest)
    | _ => none
  | s =>
    match key? s with
    | some (key, ']' :: rest) => some (⟨key, false, []⟩, rest)
    | _ => none

/-- The sections of a text, `current` being the one under construction. -/
def sections? (current : Section) : Nat → List Char → Option (List Section)
  | 0, _ => none
  | fuel + 1, s =>
    match skipLines s.length s with
    | [] => some [current]
    | '[' :: s =>
      (header? s).bind fun (next, rest) =>
        (endLine? rest).bind fun rest => (sections? next fuel rest).map (current :: ·)
    | s =>
      (assignment? 0 (2 * s.length) s).bind fun (e, rest) =>
        (endLine? rest).bind fun rest =>
          sections? { current with pairs := current.pairs ++ [e] } fuel rest

/-- The fields of a document, which may start with a byte order mark. -/
def read? (text : String) : Option (List (String × Toml)) :=
  let s :=
    match text.toList with
    | '\ufeff' :: s => s
    | s => s
  (sections? ⟨[], false, []⟩ (s.length + 1) s).bind fun sections =>
    (sections.foldlM addSection []).map closeFields

end TraceExplorer.Toml
