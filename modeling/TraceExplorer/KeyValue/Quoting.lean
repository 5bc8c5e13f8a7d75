import TraceExplorer.KeyValue.Scan

/-
  Quoted values: a quote character, the text with a backslash before every backslash and every
  such quote, and the quote again.
-/

namespace TraceExplorer.KeyValue

/-- Every backslash that stands before a character is dropped, and that character kept. -/
def unescape : List Char → List Char
  | [] => []
  | '\\' :: c :: s => c :: unescape s
  | c :: s => c :: unescape s

def escape (q : Char) : List Char → List Char
  | [] => []
  | c :: s => if c == '\\' || c == q then '\\' :: c :: escape q s else c :: escape q s

/-- A text between quotes. -/
def enquote (q : Char) (s : List Char) : List Char := q :: escape q s ++ [q]

/-- The text between two equal quotes at the ends; any other text is left as it is. -/
def unquoteChars : List Char → List Char
  | [] => []
  | q :: s =>
    if isQuote q && s.getLast? == some q then unescape s.dropLast else q :: s

def unquote (s : String) : String := String.ofList (unquoteChars s.toList)

theorem length_unescape_le (s : List Char) : (unescape s).length ≤ s.length := by
  fun_induction unescape s with
  | case1 => simp
  | case2 c s ih => simp; omega
  | case3 c s _ ih => simpa using ih

end TraceExplorer.KeyValue
