import TraceExplorer.KeyValue.Scan

/-
  The `key=value` pairs of a text, in order. Words without `=` are passed over; values are
  taken as they stand, quotes included.
-/

namespace TraceExplorer.KeyValue

/-- Where in a text of pairs the scan stands; what is read stands in reverse. -/
inductive PairPlace where
  | key (read : List Char)
  | value (key read : List Char) (place : Place)

/-- The pairs found from a place on. -/
def pairsFrom : PairPlace → List Char → List (String × String)
  | .key _, [] => []
  | .value k v _, [] => [(String.ofList k, String.ofList v.reverse)]
  | .key k, c :: s =>
    if isSpace c then pairsFrom (.key []) s
    else if c == '=' then pairsFrom (.value k.reverse [] .start) s
    else pairsFrom (.key (c :: k)) s
  | .value k v p, c :: s =>
    match p.step c with
    | some p => pairsFrom (.value k (c :: v) p) s
    | none => (String.ofList k, String.ofList v.reverse) :: pairsFrom (.key []) s

def pairs (s : String) : List (String × String) := pairsFrom (.key []) s.toList

end TraceExplorer.KeyValue
