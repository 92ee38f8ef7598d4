import TableQuery.Query.Basic
import TableQuery.Server.Settings

/-!
# Pages

A page shows some rows of a collection: those after a number of skipped rows, up to a limit, and whether
more follows.  A fault among the rows of the page takes its place.  What follows the page is looked at
only to see that there is something, so a fault there counts as more.
-/

namespace TableQuery

/-- A page of a collection. -/
structure Page where
  rows : List Row
  /-- Whether something follows the page. -/
  more : Bool

namespace Page

/-- Adds a row to a page that is not full, given how many more it takes and its rows so far, the latest
first. -/
def addRow : Nat × List Row → Except Fault Row → Except Fault Page ⊕ (Nat × List Row)
  | (0, rows), _ => .inl (.ok ⟨rows.reverse, true⟩)
  | (_ + 1, _), .error fault => .inl (.error fault)
  | (room + 1, rows), .ok row => .inr (room, row :: rows)

/-- The page of what is delivered after the skipped rows. -/
def ofRun (limit : Nat) (run : Run) : Except Fault Page :=
  run.read addRow (fun (_, rows) => .ok ⟨rows.reverse, false⟩) (limit, [])

/-- The page of a collection. -/
def ofCollection (source : Collection) (skip limit : Nat) : Except Fault Page :=
  (source.page skip).bind (ofRun limit)

/-- The JSON form of a row. -/
def rowJson (row : Row) : Json := .object [("key", row.1.toJson), ("tuple", row.2)]

/-- The JSON form of a page, with what it is a page of. -/
def toJson (operator : Operator) (skip limit : UInt64) (page : Page) : Json :=
  .object [("id", .string operator.id), ("fingerprint", .string operator.fingerprint),
    ("kind", .string operator.collection.kind.name),
    ("properties", operator.collection.properties.toJson), ("skip", .ofUInt64 skip),
    ("limit", .ofUInt64 limit), ("items", .array (page.rows.map rowJson)), ("more", .bool page.more)]

end Page

end TableQuery
