import TraceExplorer.Fault
import TraceExplorer.Text.Basic

/-
  Addresses of logs: `#<id>` names the log of a session, `#<id>#raw` its raw form.
-/

namespace TraceExplorer

/-- The session whose log is meant, as written, and whether the raw log is. -/
structure Address where
  id : String
  raw : Bool
deriving Repr, DecidableEq, Inhabited

namespace Address

/-- The mark of a raw log, after the identifier. -/
def rawMark : List Char := ['#', 'r', 'a', 'w']

def text (a : Address) : String :=
  "#" ++ a.id ++ (if a.raw then String.ofList rawMark else "")

/-- The address of the normalized log of a session. -/
def node (id : String) : Address := ⟨id, false⟩

/-- A raw mark taken off the end, if there is one. -/
def splitRaw (s : List Char) : List Char × Bool :=
  if rawMark.isSuffixOf s then (s.take (s.length - rawMark.length), true) else (s, false)

/-- One leading `#` taken off. -/
def dropHash : List Char → List Char
  | '#' :: s => s
  | s => s

/-- Reads an address with or without its leading `#`; nothing is no address. -/
def parse (s : String) : Except Fault (Option Address) :=
  let body := dropHash (Text.trim s.toList)
  if body.isEmpty then .ok none
  else
    let (id, raw) := splitRaw body
    (MachineId.decode (String.ofList id)).map fun _ => some ⟨String.ofList id, raw⟩

end Address

end TraceExplorer
