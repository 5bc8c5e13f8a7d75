import TraceExplorer.Json.Token

/-
  JSON text read into values. `Json.read?` runs a stack of open brackets over the tokens; text
  nested `depthLimit` deep or deeper is refused.
-/

namespace TraceExplorer.Json

/-- An open bracket and what stands in it so far, last first. -/
inductive Frame where
  | array (items : List Json)
  | object (fields : List (String × Json)) (key : Option String)
deriving Inhabited

/-- What may come next. -/
inductive Expect where
  | value
  | valueOrClose
  | key
  | keyOrClose
  | colon
  | commaOrClose
  | finished
deriving DecidableEq, Inhabited

structure Reader where
  stack : List Frame
  expect : Expect
  result : Option Json
deriving Inhabited

/-- So many brackets may not be open at once. -/
def depthLimit : Nat := 128

namespace Reader

/-- A complete value, put into the innermost bracket. -/
def add (stack : List Frame) (v : Json) : Option Reader :=
  match stack with
  | [] => some ⟨[], .finished, some v⟩
  | .array items :: stack => some ⟨.array (v :: items) :: stack, .commaOrClose, none⟩
  | .object fields (some k) :: stack =>
    some ⟨.object ((k, v) :: fields) none :: stack, .commaOrClose, none⟩
  | .object _ none :: _ => none

def push (stack : List Frame) (f : Frame) (expect : Expect) : Option Reader :=
  if stack.length + 1 < depthLimit then some ⟨f :: stack, expect, none⟩ else none

def step (r : Reader) (t : Token) : Option Reader :=
  let value := r.expect = .value ∨ r.expect = .valueOrClose
  match t, r.stack with
  | .openArray, stack => if value then push stack (.array []) .valueOrClose else none
  | .openObject, stack => if value then push stack (.object [] none) .keyOrClose else none
  | .closeArray, .array items :: stack =>
    if r.expect = .valueOrClose ∨ r.expect = .commaOrClose then add stack (.arr items.reverse)
    else none
  | .closeObject, .object fields none :: stack =>
    if r.expect = .keyOrClose ∨ r.expect = .commaOrClose then add stack (object fields.reverse)
    else none
  | .comma, .array items :: stack =>
    if r.expect = .commaOrClose then some ⟨.array items :: stack, .value, none⟩ else none
  | .comma, .object fields none :: stack =>
    if r.expect = .commaOrClose then some ⟨.object fields none :: stack, .key, none⟩ else none
  | .colon, stack => if r.expect = .colon then some ⟨stack, .value, none⟩ else none
  | .value (.str k), .object fields none :: stack =>
    if r.expect = .key ∨ r.expect = .keyOrClose then
      some ⟨.object fields (some k) :: stack, .colon, none⟩
    else none
  | .value v, stack => if value then add stack v else none
  | _, _ => none

end Reader

/-- The value that a text writes. -/
def read? (s : String) : Option Json :=
  (tokens? s.toList).bind fun ts =>
    (ts.foldlM Reader.step ⟨[], .value, none⟩).bind fun r =>
      if r.expect = .finished then r.result else none

end TraceExplorer.Json
