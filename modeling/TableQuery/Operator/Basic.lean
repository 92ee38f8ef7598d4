import TableQuery.Fingerprint
import TableQuery.Operator.Join
import TableQuery.Operator.Projection
import TableQuery.Operator.Selection
import TableQuery.Operator.Strategy

/-!
# Operator trees

A tree of operators over leaves.  `Operator.collection` is the collection that a tree makes, from the
leaves up; building it reads no rows.

Trees are built by functions that check what an operator requires: tuples of its inputs, and of a join
on a predicate that it is an inner join and that an equation names fields of the merged schema.  Two
trees count as the same if they have the same id.
-/

namespace TableQuery

/-- A tree of operators. -/
inductive Operator where
  | leaf (source : Collection)
  | projection (input : Operator) (pairs : FieldPairs)
  | selection (predicate : Predicate) (input : Operator)
  | product (left right : Operator)
  | fieldJoin (join : JoinType) (left : Operator) (leftField : String) (right : Operator)
    (rightField : String)
  | predicateJoin (left right : Operator) (predicate : Predicate)

/-- The inner join of two collections on a predicate.  It runs as its strategy says and has an id of
its own. -/
def Collection.joinedOn (left right : Collection) (predicate : Predicate) : Collection :=
  let schema := MergedSchema.merge left.properties right.properties
  let plan := match JoinStrategy.choose schema predicate with
    | .ok (.onFields leftField rightField) => left.joined .inner leftField right rightField
    | _ => (left.product right).selected predicate
  { plan with
    id := JoinType.inner.name ++ "(" ++ left.id ++ "," ++ right.id ++ "," ++ predicate.text ++ ")" }

namespace Operator

/-- The collection that a tree makes. -/
def collection : Operator → Collection
  | leaf source => source
  | projection input pairs => input.collection.projected pairs
  | selection predicate input => input.collection.selected predicate
  | product left right => left.collection.product right.collection
  | fieldJoin join left leftField right rightField =>
    left.collection.joined join leftField right.collection rightField
  | predicateJoin left right predicate => left.collection.joinedOn right.collection predicate

/-- The canonical id. -/
def id (operator : Operator) : String := operator.collection.id

/-- The fingerprint of the id. -/
def fingerprint (operator : Operator) : String := TableQuery.fingerprint operator.id

/-- Whether two trees have the same id. -/
def sameId (a b : Operator) : Bool := a.id == b.id

/-! ## Building -/

/-- The projection of an input. -/
def project (input : Operator) (pairs : FieldPairs) : Except Fault Operator := do
  requireTuples "proj" input.collection
  return projection input pairs

/-- The selection of an input. -/
def select (predicate : Predicate) (input : Operator) : Except Fault Operator := do
  requireTuples "select" input.collection
  return selection predicate input

/-- The product of two inputs. -/
def cross (left right : Operator) : Except Fault Operator := do
  requireTuples "product" left.collection
  requireTuples "product" right.collection
  return product left right

/-- The join of two inputs on a field of each. -/
def joinOnFields (join : JoinType) (left : Operator) (leftField : String) (right : Operator)
    (rightField : String) : Except Fault Operator := do
  requireTuples join.name left.collection
  requireTuples join.name right.collection
  return fieldJoin join left leftField right rightField

/-- The strategy of a join of two inputs on a predicate. -/
def strategy (left right : Operator) (predicate : Predicate) : Except Fault JoinStrategy :=
  JoinStrategy.choose (.merge left.collection.properties right.collection.properties) predicate

/-- The tree that carries out a join on a predicate. -/
def plan (left right : Operator) (predicate : Predicate) :
    Except Fault (JoinStrategy × Operator) := do
  match ← strategy left right predicate with
  | .onFields leftField rightField =>
    return (.onFields leftField rightField, ← joinOnFields .inner left leftField right rightField)
  | .productThenSelection =>
    return (.productThenSelection, ← select predicate (← cross left right))

/-- The join of two inputs on a predicate; it has to be an inner one. -/
def joinOnPredicate (join : JoinType) (left right : Operator) (predicate : Predicate) :
    Except Fault Operator := do
  if join = .inner then
    let _ ← plan left right predicate
    return predicateJoin left right predicate
  else .error (.notImplemented (join.name ++ " with a predicate"))

end Operator

end TableQuery
