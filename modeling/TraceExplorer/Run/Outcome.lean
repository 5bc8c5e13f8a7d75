import TraceExplorer.Session.Basic

/-
  How sessions ended, and sessions in buckets by it. The goals are the bucket of those that
  ended with values.
-/

namespace TraceExplorer

inductive Outcome where
  | values
  | err (message : String)
  | unknown
deriving Repr, DecidableEq

namespace Outcome

/-- An error counts before values. -/
def ofSession (s : Session) : Outcome :=
  if s.error ≠ "" then .err s.error else if s.values ≠ "" then .values else .unknown

def bucketName : Outcome → String
  | .values => "values"
  | .err message => "err=" ++ message
  | .unknown => "unknown"

def toJson : Outcome → Json
  | .values => .obj [("status", .str "values")]
  | .err message => .obj [("status", .str "err"), ("error", .str message)]
  | .unknown => .obj [("status", .str "unknown")]

end Outcome

/-- The identifiers of sessions by the names of their buckets, in the order of the sessions. -/
abbrev Buckets := Dict String (List String)

namespace Buckets

def ids (b : Buckets) (name : String) : List String := (b.get? name).getD []

/-- Puts a session into its bucket. -/
def add (b : Buckets) (s : Session) : Buckets :=
  let name := (Outcome.ofSession s).bucketName
  b.insert name (b.ids name ++ [s.id])

def ofSessions (sessions : List Session) : Buckets := sessions.foldl add .empty

def goals (b : Buckets) : List String := b.ids Outcome.values.bucketName

def bucketJson (name : String) (ids : List String) : Json :=
  .obj [("name", .str name), ("ids", .strings ids)]

def toJson (b : Buckets) : Json := .arr (b.entries.map fun e => bucketJson e.1 e.2)

end Buckets

end TraceExplorer
