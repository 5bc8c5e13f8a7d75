import TraceExplorer.Number.Unsigned

/-
  Styles of terminal text: codes before the text and a reset after it. A reset within the text
  is followed by the codes again, so that the style goes on.
-/

namespace TraceExplorer.Report

inductive Style where
  | bold
  | dimmed
  | green
  | yellow
  | brightRed
  | brightGreen
  | brightYellow
  | brightCyan
  | boldBrightBlue
deriving Repr, DecidableEq

/-- The codes that turn a style on. -/
def Style.codes : Style → List Nat
  | .bold => [1]
  | .dimmed => [2]
  | .green => [32]
  | .yellow => [33]
  | .brightRed => [91]
  | .brightGreen => [92]
  | .brightYellow => [93]
  | .brightCyan => [96]
  | .boldBrightBlue => [1, 94]

/-- A control sequence with the given codes. -/
def control (codes : List Nat) : List Char :=
  ['\x1b', '['] ++ (";".intercalate (codes.map Number.natural)).toList ++ ['m']

/-- The sequence that ends every style. -/
def reset : List Char := control [0]

/-- Puts `insertion` behind every occurrence of `mark`; `skip` characters belong to the last
occurrence. -/
def insertBehind (mark insertion : List Char) : Nat → List Char → List Char
  | 0, [] => []
  | _ + 1, [] => insertion
  | 0, c :: s =>
    if mark.isPrefixOf (c :: s) then c :: insertBehind mark insertion (mark.length - 1) s
    else c :: insertBehind mark insertion 0 s
  | 1, c :: s => c :: insertion ++ insertBehind mark insertion 0 s
  | skip + 2, c :: s => c :: insertBehind mark insertion (skip + 1) s

/-- A text in a style, or plain if colours are off. -/
def paint (colored : Bool) (style : Style) (s : String) : String :=
  if colored then
    let on := control style.codes
    String.ofList (on ++ insertBehind reset on 0 s.toList ++ reset)
  else s

end TraceExplorer.Report
