import TraceExplorer.Json.Basic
import TraceExplorer.Number.Unsigned

/-
  The tokens of JSON text. `tokens?` runs a small machine over the characters; the content of
  a string and the digits of a number are read when the token ends.
-/

namespace TraceExplorer.Json

open Number (Binary64 hexDigits? word64?)

inductive Token where
  | openArray
  | closeArray
  | openObject
  | closeObject
  | comma
  | colon
  | value (v : Json)
deriving Inhabited

/-- The character of a pair of surrogates, or of one number that is no surrogate. -/
def unitChar? (n : Nat) : Option Char :=
  if 0xD800 ≤ n ∧ n ≤ 0xDFFF then none else some (Char.ofNat n)

def surrogateChar? (high low : Nat) : Option Char :=
  if 0xD800 ≤ high ∧ high ≤ 0xDBFF ∧ 0xDC00 ≤ low ∧ low ≤ 0xDFFF then
    some (Char.ofNat (0x10000 + (high - 0xD800) * 0x400 + (low - 0xDC00)))
  else none

/-- The characters between the quotes with their escapes resolved; controls must be escaped. -/
def stringContent? : List Char → Option (List Char)
  | [] => some []
  | '\\' :: 'u' :: a :: b :: c :: d :: s =>
    (hexDigits? [a, b, c, d]).bind fun n =>
      match unitChar? n with
      | some u => (stringContent? s).map (u :: ·)
      | none =>
        match s with
        | '\\' :: 'u' :: e :: f :: g :: h :: s =>
          (hexDigits? [e, f, g, h]).bind fun m =>
            (surrogateChar? n m).bind fun u => (stringContent? s).map (u :: ·)
        | _ => none
  | '\\' :: c :: s =>
    let resolved :=
      match c with
      | '"' => some '"'
      | '\\' => some '\\'
      | '/' => some '/'
      | 'b' => some '\x08'
      | 'f' => some '\x0c'
      | 'n' => some '\n'
      | 'r' => some '\r'
      | 't' => some '\t'
      | _ => none
    resolved.bind fun u => (stringContent? s).map (u :: ·)
  | c :: s => if c.toNat < 32 ∨ c = '\\' then none else (stringContent? s).map (c :: ·)

/-- Digits taken into a word as long as it has room; the rest of them is left. -/
def gather (n : Nat) : List Char → Nat × List Char
  | [] => (n, [])
  | d :: ds =>
    let m := 10 * n + (d.toNat - '0'.toNat)
    if m < UInt64.size then gather m ds else (n, d :: ds)

/-- The exponent after `e`: an optional sign and digits. -/
def powerOfTen? : List Char → Option Int
  | '-' :: ds => (Number.digits? ds).map fun n => -(n : Int)
  | '+' :: ds => (Number.digits? ds).map fun n => (n : Int)
  | ds => (Number.digits? ds).map fun n => (n : Int)

/-- A number: an integer if it fits in 64 bits, else the digits that fit in a word, scaled. -/
def number? (s : List Char) : Option Json :=
  let (negative, s) :=
    match s with
    | '-' :: s => (true, s)
    | s => (false, s)
  let whole := s.takeWhile Char.isDigit
  let rest := s.dropWhile Char.isDigit
  if whole.isEmpty ∨ (1 < whole.length ∧ whole.head? = some '0') then none
  else
    let (n, unread) := gather 0 whole
    if rest.isEmpty ∧ unread.isEmpty ∧ (negative = false ∨ (0 < n ∧ n ≤ Number.integerLimit)) then
      some (.int (if negative then -(n : Int) else n))
    else
      let scaled (n : Nat) (e : Int) := (Binary64.ofScaled negative n e).map Json.real
      match rest with
      | [] => scaled n unread.length
      | '.' :: r =>
        let fraction := r.takeWhile Char.isDigit
        let rest := r.dropWhile Char.isDigit
        let (n, ignored) := gather n fraction
        let place := (unread.length + ignored.length : Int) - fraction.length
        if fraction.isEmpty then none
        else
          match rest with
          | [] => scaled n place
          | c :: r =>
            if c = 'e' ∨ c = 'E' then (powerOfTen? r).bind fun e => scaled n (place + e) else none
      | c :: r =>
        if c = 'e' ∨ c = 'E' then (powerOfTen? r).bind fun e => scaled n (unread.length + e)
        else none

/-- A run of letters, digits, signs and points outside strings. -/
def word? (s : List Char) : Option Json :=
  if s = ['n', 'u', 'l', 'l'] then some .null
  else if s = ['t', 'r', 'u', 'e'] then some (.bool true)
  else if s = ['f', 'a', 'l', 's', 'e'] then some (.bool false)
  else number? s

/-- What the machine is inside of; the characters read so far stand in reverse. -/
inductive Mode where
  | between
  | word (read : List Char)
  | string (read : List Char)
  | escape (read : List Char)
deriving Inhabited

structure Lexer where
  mode : Mode
  tokens : List Token
deriving Inhabited

/-- A character between tokens. -/
def Lexer.start (tokens : List Token) (c : Char) : Option Lexer :=
  match c with
  | ' ' | '\t' | '\n' | '\r' => some ⟨.between, tokens⟩
  | '[' => some ⟨.between, .openArray :: tokens⟩
  | ']' => some ⟨.between, .closeArray :: tokens⟩
  | '{' => some ⟨.between, .openObject :: tokens⟩
  | '}' => some ⟨.between, .closeObject :: tokens⟩
  | ',' => some ⟨.between, .comma :: tokens⟩
  | ':' => some ⟨.between, .colon :: tokens⟩
  | '"' => some ⟨.string [], tokens⟩
  | c => if c.isAlphanum ∨ c = '-' then some ⟨.word [c], tokens⟩ else none

/-- Ends a word. -/
def Lexer.closeWord (tokens : List Token) (read : List Char) : Option (List Token) :=
  (word? read.reverse).map fun v => .value v :: tokens

def Lexer.step (l : Lexer) (c : Char) : Option Lexer :=
  match l.mode with
  | .between => start l.tokens c
  | .word read =>
    if c.isAlphanum ∨ c = '-' ∨ c = '+' ∨ c = '.' then some ⟨.word (c :: read), l.tokens⟩
    else (closeWord l.tokens read).bind fun tokens => start tokens c
  | .string read =>
    if c = '"' then
      (stringContent? read.reverse).map fun s =>
        ⟨.between, .value (.str (String.ofList s)) :: l.tokens⟩
    else if c = '\\' then some ⟨.escape (c :: read), l.tokens⟩
    else some ⟨.string (c :: read), l.tokens⟩
  | .escape read => some ⟨.string (c :: read), l.tokens⟩

def Lexer.finish (l : Lexer) : Option (List Token) :=
  match l.mode with
  | .between => some l.tokens.reverse
  | .word read => (closeWord l.tokens read).map List.reverse
  | _ => none

/-- The tokens of a text, if it consists of tokens. -/
def tokens? (s : List Char) : Option (List Token) :=
  (s.foldlM Lexer.step ⟨.between, []⟩).bind Lexer.finish

end TraceExplorer.Json
