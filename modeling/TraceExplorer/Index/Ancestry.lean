import TraceExplorer.Index.Basic

/-
  The way from a session to its parent, to the parent of that, and so on.
  `Index.climb` follows it through machines that it has not met yet, so it ends although parents
  may form a cycle. A chain is the way down from a root, where the climb ended at one.
-/

namespace TraceExplorer

/-- Why a climb ends. -/
inductive Summit where
  /-- The last session has no parent. -/
  | root
  /-- The parent is not indexed. -/
  | missing (id : String)
  /-- The parent was met before. -/
  | metAgain (entry : Entry)

namespace Index

/-- The sessions from `e` upwards whose machines, after that of `e`, are in `unmet`. -/
def climb (x : Index) (unmet : List UInt64) (e : Entry) : List Entry × Summit :=
  match e.parentId with
  | none => ([e], .root)
  | some id =>
    match x.get? id with
    | none => ([e], .missing id)
    | some up =>
      if _new : up.mach ∈ unmet then
        let (above, summit) := climb x (unmet.erase up.mach) up
        (e :: above, summit)
      else ([e], .metAgain up)
termination_by unmet.length
decreasing_by
  have := List.length_erase_of_mem _new
  have := List.length_pos_of_mem _new
  omega

/-- The whole climb from `e`, no session twice. -/
def ascent (x : Index) (e : Entry) : List Entry × Summit :=
  x.climb ((x.entries.map Entry.mach).erase e.mach) e

/-- The sessions from a root down to `id`, each the parent of the next. -/
def chain (x : Index) (id : String) : Except Fault (List Entry) :=
  match x.get? id with
  | none => .error (.notFound id)
  | some e =>
    match x.ascent e with
    | (way, .root) => .ok way.reverse
    | (_, .missing parent) => .error (.notFound parent)
    | (_, .metAgain again) => .error (.brokenPath id (.cycleAt again.id))

end Index

end TraceExplorer
