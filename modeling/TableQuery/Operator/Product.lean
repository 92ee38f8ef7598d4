import TableQuery.Collection.Basic
import TableQuery.Key.Pair
import TableQuery.Schema.Merge

/-!
# Products

A product pairs every row of the left operand with every row of the right one, which is read again for
each left row.  The pair is keyed by the pair of the keys.
-/

namespace TableQuery

namespace MergedSchema

/-- The row of a pair: the left key and tuple with a right row.  A right fault stays. -/
def pairRow (schema : MergedSchema) (key : Key) (tuple : Tuple) (right : Except Fault Row) :
    Except Fault Row := do
  let (otherKey, value) ← right
  let other ← value.tuple?
  return (.pair key otherKey, .object (schema.mergeTuples tuple (some other)))

end MergedSchema

/-- The key and tuple of a row. -/
def keyedTuple (outcome : Except Fault Row) : Except Fault (Key × Tuple) := do
  let (key, value) ← outcome
  return (key, ← value.tuple?)

namespace Collection

/-- The product of two collections. -/
def product (left right : Collection) : Collection :=
  let schema := MergedSchema.merge left.properties right.properties
  let expand (outcome : Except Fault Row) : Run :=
    match keyedTuple outcome with
    | .error fault => .single (.error fault)
    | .ok (key, tuple) =>
      match right.items .none with
      | .error fault => .single (.error fault)
      | .ok run => run.filterMap fun other => some (schema.pairRow key tuple other)
  let items (_ : Filters) : Except Fault Run := (left.items .none).map (Run.concatMap expand)
  { id := "product(" ++ left.id ++ "," ++ right.id ++ ")"
    kind := .dictOfTuples
    properties := schema.properties
    capabilities := []
    items
    item := fun key => do
      let (leftKey, rightKey) ← .ofExcept key.split
      let leftValue ← left.item leftKey
      let rightValue ← right.item rightKey
      match leftValue, rightValue with
      | some leftValue, some rightValue =>
        let leftTuple ← .ofExcept leftValue.tuple?
        let rightTuple ← .ofExcept rightValue.tuple?
        return some (.object (schema.mergeTuples leftTuple (some rightTuple)))
      | _, _ => return none
    itemsOnValue := scanOnValue items }

end Collection

end TableQuery
