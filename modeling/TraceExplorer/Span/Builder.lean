import TraceExplorer.Span.Forest
import TraceExplorer.Span.Label

/-
  Spans built from opens and closes, with a stack of those still open.
-/

namespace TraceExplorer.Span

structure Builder where
  /-- Every span opened so far, in that order. -/
  spans : List Span
  /-- The numbers of the open spans, the innermost first. -/
  stack : List Nat
deriving Repr, DecidableEq, Inhabited

namespace Builder

def empty : Builder := ⟨[], []⟩

def depth (b : Builder) : Nat := b.stack.length

def label (b : Builder) (n : Nat) : String := (b.spans[n]?.map (·.label)).getD ""

/-- Closes span `n` before `row`, the innermost open span now being its parent. -/
def closeAt (b : Builder) (n row : Nat) : Builder :=
  { b with
    spans := b.spans.modify n fun s =>
      { s with last := if row = 0 then none else some (row - 1), parent := b.stack.head? } }

/-- Takes off the first label that names a span labelled `label`. -/
def use? (label : String) : List String → Option (List String)
  | [] => none
  | close :: rest =>
    if names close label then some rest else (use? label rest).map (close :: ·)

/-- Closes the spans `stack` from the innermost on, each named by a label of its own. -/
def closeStack (row : Nat) (labels : List String) (spans : List Span) :
    List Nat → Builder × Nat
  | [] => (⟨spans, []⟩, 0)
  | n :: stack =>
    match use? (label ⟨spans, []⟩ n) labels with
    | none => (⟨spans, n :: stack⟩, 0)
    | some rest =>
      let (b, closed) := closeStack row rest (closeAt ⟨spans, stack⟩ n row).spans stack
      (b, closed + 1)

/-- Closes spans for an operation about to land on `row`, and counts them. -/
def close (b : Builder) (labels : List String) (row : Nat) : Builder × Nat :=
  closeStack row labels b.spans b.stack

/-- Opens a span at `row`, labelled by the first label. -/
def push (b : Builder) (labels : List String) (row : Nat) : Builder where
  spans := b.spans ++ [⟨labels.headD "", row, none, none, []⟩]
  stack := b.spans.length :: b.stack

/-- Opens a span, unless the innermost open one already has one of the labels. -/
def enter (b : Builder) (labels : List String) (row : Nat) : Builder × Bool :=
  match b.stack with
  | n :: _ => if labels.contains (b.label n) then (b, false) else (b.push labels row, true)
  | [] => (b.push labels row, true)

/-- Closes the spans `stack`, the innermost first. -/
def closeAllStack (row : Nat) (spans : List Span) : List Nat → List Span
  | [] => spans
  | n :: stack => closeAllStack row (closeAt ⟨spans, stack⟩ n row).spans stack

def closeAll (b : Builder) (row : Nat) : Builder := ⟨closeAllStack row b.spans b.stack, []⟩

/-- Each of the open spans `stack` gets the one beneath it as its parent. -/
def hang (spans : List Span) : List Nat → List Span
  | [] => spans
  | n :: stack => hang (spans.modify n fun s => { s with parent := stack.head? }) stack

/-- The numbers of the spans with a parent, by ascending start. -/
def childrenOf (spans : List Span) (parent : Option Nat) : List Nat :=
  let children := spans.zipIdx.filter (·.1.parent == parent)
  (children.mergeSort fun a b => a.1.start ≤ b.1.start).map (·.2)

/-- The forest; spans still open stay so. -/
def finish (b : Builder) : Forest :=
  let spans := hang b.spans b.stack
  { spans := spans.zipIdx.map fun e => { e.1 with children := childrenOf spans (some e.2) }
    roots := childrenOf spans none }

end Builder

end TraceExplorer.Span
