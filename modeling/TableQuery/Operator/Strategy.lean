import TableQuery.Predicate
import TableQuery.Schema.Merge

/-!
# How a predicate join is carried out

A join on a predicate is the selection of a product.  If the predicate equates a field of one operand
with a field of the other, the join on these two fields gives the same rows and reads less.

The predicate names fields of the merged schema, the join on fields those of the operands.  An equation
has to name fields that exist.  Other comparisons are not checked here; a tuple that lacks the field
becomes a fault later.
-/

namespace TableQuery

/-- A way to carry out a join on a predicate. -/
inductive JoinStrategy where
  | onFields (left right : String)
  | productThenSelection
  deriving DecidableEq, Repr

namespace JoinStrategy

/-- The origin of a field of the merged schema. -/
def originOf (schema : MergedSchema) (name : String) : Except Fault Origin :=
  match schema.get? name with
  | some origin => .ok origin
  | none => .error (.unknownField name)

/-- The strategy for two fields that the predicate equates. -/
def ofOrigins (first second : Origin) : JoinStrategy :=
  match first.side, second.side with
  | .left, .right => onFields first.sourceName second.sourceName
  | .right, .left => onFields second.sourceName first.sourceName
  | _, _ => productThenSelection

/-- The strategy for a predicate over a merged schema. -/
def choose (schema : MergedSchema) (predicate : Predicate) : Except Fault JoinStrategy :=
  if predicate.comparator = .equal then do
    let first ← originOf schema predicate.field
    match predicate.operand with
    | .constant _ => return productThenSelection
    | .field name =>
      let second ← originOf schema name
      return ofOrigins first second
  else .ok productThenSelection

end JoinStrategy

end TableQuery
