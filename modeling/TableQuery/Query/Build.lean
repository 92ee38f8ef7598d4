import TableQuery.Operator.Basic
import TableQuery.Query.Table

/-!
# Building the collection of a table expression

Operands are built before the operator that uses them, the left one first.  Building looks datasets up
and checks what operators require; it reads no rows.  Joins on geometry and unions can be written but
not built, whatever their operands are.
-/

namespace TableQuery

/-- Where the names in queries are looked up. -/
structure Catalog where
  /-- Whether a dataset of that name is registered. -/
  knows : String → Bool
  /-- The collection of a section of a dataset. -/
  collection : String → String → Except Fault Collection

/-- Builds the operator tree of a table expression. -/
def Table.build (catalog : Catalog) : Table → Except Fault Operator
  | collection dataset sectionName => return .leaf (← catalog.collection dataset sectionName)
  | fieldJoin join left leftField right rightField => do
    let left ← left.build catalog
    let right ← right.build catalog
    Operator.joinOnFields join left leftField right rightField
  | predicateJoin join left right predicate => do
    let left ← left.build catalog
    let right ← right.build catalog
    Operator.joinOnPredicate join left right predicate
  | spatialJoin _ _ => .error (.notImplemented "spatial-join")
  | union _ _ => .error (.notImplemented "union")
  | product left right => do
    let left ← left.build catalog
    let right ← right.build catalog
    Operator.cross left right
  | projection input pairs => do
    let input ← input.build catalog
    Operator.project input pairs
  | selection predicate input => do
    let input ← input.build catalog
    Operator.select predicate input

end TableQuery
