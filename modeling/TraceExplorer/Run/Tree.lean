import TraceExplorer.Run.Waypoint

/-
  The tree of sessions under a root, and the same tree as numbered nodes in pre-order.
-/

namespace TraceExplorer

/-- A session and, by ascending machine, what was copied from it. -/
inductive Tree where
  | node (entry : Entry) (children : List Tree)

/-- A session of a tree; parent and children are given by their numbers. -/
structure Node where
  id : String
  mach : UInt64
  depth : Nat
  parent : Option Nat
  children : List Nat
  /-- How many operations the sessions of the subtree finished. -/
  weight : Nat
  mark : Option Mark

namespace Node

def toJson (n : Node) : Json :=
  .obj [("id", .str n.id), ("mach", .word n.mach), ("depth", .nat n.depth),
    ("parent", .optional .nat n.parent), ("children", .arr (n.children.map .nat)),
    ("weight", .nat n.weight), ("mark", .optional Mark.toJson n.mark)]

end Node

namespace Tree

/-- The tree under `e`, given the children of each session, cut off below `height` levels. -/
def grow (kids : Entry → List Entry) : Nat → Entry → Tree
  | 0, e => .node e []
  | height + 1, e => .node e ((kids e).map (grow kids height))

mutual

def size : Tree → Nat
  | .node _ children => 1 + sizes children

def sizes : List Tree → Nat
  | [] => 0
  | t :: ts => size t + sizes ts

end

mutual

/-- How many operations the sessions of a tree finished. -/
def weight : Tree → Nat
  | .node e children => e.session.postOpCount + weights children

def weights : List Tree → Nat
  | [] => 0
  | t :: ts => weight t + weights ts

end

/-- The numbers of the roots of consecutive trees, the first of them `start`. -/
def positions (start : Nat) : List Tree → List Nat
  | [] => []
  | t :: ts => start :: positions (start + t.size) ts

mutual

/-- The nodes of a tree in pre-order, the first of them `start`. -/
def nodes (marks : UInt64 → Option Mark) (depth : Nat) (parent : Option Nat) (start : Nat) :
    Tree → List Node
  | .node e children =>
    { id := e.id
      mach := e.mach
      depth
      parent
      children := positions (start + 1) children
      weight := e.session.postOpCount + weights children
      mark := marks e.mach }
    :: forest marks (depth + 1) (some start) (start + 1) children

/-- The nodes of consecutive trees. -/
def forest (marks : UInt64 → Option Mark) (depth : Nat) (parent : Option Nat) (start : Nat) :
    List Tree → List Node
  | [] => []
  | t :: ts => nodes marks depth parent start t ++ forest marks depth parent (start + t.size) ts

end

end Tree

end TraceExplorer
