/-
  UTF-8 read leniently: bytes that are no part of a character become replacement characters,
  one for each start of a character that is broken off, and one for every other byte.
-/

namespace TraceExplorer.Text.Utf8

/-- The bytes of a text. -/
def bytes (s : List Char) : List UInt8 := s.flatMap String.utf8EncodeChar

/-- A character begun: its bits so far, how many bytes are missing, and the range of the next. -/
structure Pending where
  bits : Nat
  missing : Nat
  first : UInt8
  last : UInt8
deriving Repr, DecidableEq

def replacement : Char := '\ufffd'

/-- A byte that starts something: a character at once, a longer one, or neither. -/
def start (b : UInt8) : List Char × Option Pending :=
  let n := b.toNat
  if n < 0x80 then ([Char.ofNat n], none)
  else if 0xC2 ≤ n ∧ n ≤ 0xDF then ([], some ⟨n - 0xC0, 1, 0x80, 0xBF⟩)
  else if n = 0xE0 then ([], some ⟨0, 2, 0xA0, 0xBF⟩)
  else if n = 0xED then ([], some ⟨0xD, 2, 0x80, 0x9F⟩)
  else if 0xE1 ≤ n ∧ n ≤ 0xEF then ([], some ⟨n - 0xE0, 2, 0x80, 0xBF⟩)
  else if n = 0xF0 then ([], some ⟨0, 3, 0x90, 0xBF⟩)
  else if n = 0xF4 then ([], some ⟨4, 3, 0x80, 0x8F⟩)
  else if 0xF1 ≤ n ∧ n ≤ 0xF3 then ([], some ⟨n - 0xF0, 3, 0x80, 0xBF⟩)
  else ([replacement], none)

/-- The characters that a byte completes, and what it leaves begun. -/
def step (p : Option Pending) (b : UInt8) : List Char × Option Pending :=
  match p with
  | none => start b
  | some p =>
    if p.first ≤ b ∧ b ≤ p.last then
      let bits := 64 * p.bits + (b.toNat - 0x80)
      if p.missing = 1 then ([Char.ofNat bits], none)
      else ([], some ⟨bits, p.missing - 1, 0x80, 0xBF⟩)
    else (replacement :: (start b).1, (start b).2)

def decodeFrom (p : Option Pending) : List UInt8 → List Char
  | [] => if p.isSome then [replacement] else []
  | b :: s => (step p b).1 ++ decodeFrom (step p b).2 s

def decode (bytes : List UInt8) : String := String.ofList (decodeFrom none bytes)

end TraceExplorer.Text.Utf8
