import TraceExplorer.Trace.Load

/-
  The sessions of a trace, taken up one by one under their machines.
  A session is left out, and reported, if its identifier or that of its parent is malformed, or
  if its machine is already there; so machines are distinct in every index (`Index.distinct`).
-/

namespace TraceExplorer

open Trace (Rejected)

/-- A session with the identifier that its text is. -/
structure Entry where
  mid : MachineId
  session : Session
  decoded : MachineId.decode session.id = .ok mid

namespace Entry

def id (e : Entry) : String := e.session.id

def mach (e : Entry) : UInt64 := e.mid.mach

def parentId (e : Entry) : Option String := e.session.parentId

end Entry

/-- The sessions of a trace in load order, and what was left out. -/
structure Index where
  entries : List Entry
  /-- Elements of the trace that are no sessions. -/
  unparsed : List Rejected
  malformed : List Rejected
  duplicates : List Rejected
  distinct : entries.Pairwise fun a b => a.mach ≠ b.mach

namespace Index

theorem pairwise_concat {e : Entry} {l : List Entry}
    (h : l.Pairwise fun a b => a.mach ≠ b.mach) (hn : l.find? (·.mach == e.mach) = none) :
    (l ++ [e]).Pairwise fun a b => a.mach ≠ b.mach := by
  refine List.pairwise_append.2 ⟨h, List.pairwise_singleton _ _, fun a ha b hb => ?_⟩
  rw [List.mem_singleton.1 hb]
  simpa using List.find?_eq_none.1 hn a ha

/-- What is wrong with the identifier of the parent. -/
def parentFault? (s : Session) : Option Fault :=
  match s.parentId.map MachineId.decode with
  | some (.error fault) => some fault
  | _ => none

/-- Takes in a session. -/
def add (x : Index) (s : Session) : Index :=
  match hid : MachineId.decode s.id with
  | .error fault => { x with malformed := x.malformed ++ [⟨s.id, fault.message⟩] }
  | .ok mid =>
    match parentFault? s with
    | some fault =>
      { x with malformed := x.malformed ++ [⟨s.id, "parent: " ++ fault.message⟩] }
    | none =>
      let e : Entry := ⟨mid, s, hid⟩
      match hn : x.entries.find? (·.mach == e.mach) with
      | some existing =>
        let fault := Fault.duplicateMach e.mach s.id existing.id
        { x with duplicates := x.duplicates ++ [⟨s.id, fault.message⟩] }
      | none =>
        { x with entries := x.entries ++ [e], distinct := pairwise_concat x.distinct hn }

def ofTrace (t : Trace) : Index := t.sessions.foldl add ⟨[], t.rejected, [], [], .nil⟩

def size (x : Index) : Nat := x.entries.length

def get? (x : Index) (id : String) : Option Entry := x.entries.find? (·.id == id)

/-- The sessions whose parent is `id`, in load order. -/
def kids (x : Index) (id : String) : List Entry :=
  x.entries.filter (·.parentId == some id)

/-- The sessions without a parent, by ascending machine. -/
def roots (x : Index) : List Entry :=
  (x.entries.filter (·.parentId.isNone)).mergeSort fun a b => a.mach ≤ b.mach

/-- The session without a parent that is the machine `mach`. -/
def root? (x : Index) (mach : UInt64) : Option Entry := x.roots.find? (·.mach == mach)

/-- How many sessions name `mach` as their root. -/
def runSize (x : Index) (mach : UInt64) : Nat := x.entries.countP (·.mid.root == mach)

end Index

end TraceExplorer
