import TableQuery.Operator.Product

/-!
# Joins on fields

A join on fields looks the right operand up by value, once for each left row, and pairs the left row
with the rows it finds.  A left row without the field looks for `null`.  What happens to a left row
without a match is the type of the join: an inner join drops it, a left join pairs it with nulls, and
a difference keeps it as it is and drops the rows that do have a match.

A left row without a match is keyed by the pair of its key and the empty key.  Discarding leading rows
counts the rows that come out.
-/

namespace TableQuery

/-- What a join does with left rows that have no match. -/
inductive JoinType where
  /-- They are dropped. -/
  | inner
  /-- They are paired with nulls. -/
  | left
  /-- They alone are kept, unchanged. -/
  | diff
  deriving DecidableEq, Repr

namespace JoinType

/-- Every type of join. -/
def all : List JoinType := [inner, left, diff]

/-- The name of a join in queries. -/
def name : JoinType → String
  | inner => "inner-join"
  | left => "left-join"
  | diff => "diff-join"

/-- The name of a join in JSON. -/
def code : JoinType → String
  | inner => "Inner"
  | left => "Left"
  | diff => "Diff"

/-- The join of a name, if it is one. -/
def ofName? (name : String) : Option JoinType := all.find? (·.name == name)

/-- The join of a name. -/
def ofText (text : String) : Except Fault JoinType :=
  match ofName? text with
  | some join => .ok join
  | none => .error (.notImplemented text)

/-- The join of a JSON name. -/
def ofCode? (code : String) : Option JoinType := all.find? (·.code == code)

end JoinType

namespace JoinType

/-- What a left row without a match becomes. -/
def unmatched (join : JoinType) (schema : MergedSchema) (tuple : Tuple) : Json :=
  match join with
  | diff => .object tuple
  | inner | left => .object (schema.mergeTuples tuple none)

/-- What a left row becomes, given the run of its matches.  A difference reads no further than the
first match. -/
def expandMatches (join : JoinType) (schema : MergedSchema) (key : Key) (tuple : Tuple)
    (found : Run) : Run :=
  let alone (_ : Unit) : Run := .single (.ok (.pair key .empty, join.unmatched schema tuple))
  let pairs := found.filterMap fun other => some (schema.pairRow key tuple other)
  match join with
  | inner => pairs
  | left => pairs.onFirst alone fun first rest => .step (.row first) rest
  | diff => found.onFirst alone fun
    | .ok _, _ => .done
    | .error fault, _ => .single (.error fault)

end JoinType

namespace Collection

/-- What a left row without a match becomes, given what it looks for; none if it has a match or the
join drops it. -/
def findUnmatched (join : JoinType) (schema : MergedSchema) (right : Collection)
    (rightField : String) (sought : Json) (tuple : Tuple) : Lookup (Option Json) :=
  if join = .inner then return none
  else do
    let found ← .ofExcept (right.itemsOnValue rightField sought)
    match ← Lookup.first found with
    | some (.ok _) => return none
    | some (.error fault) => .ofExcept (.error fault)
    | none => return some (join.unmatched schema tuple)

/-- What a left row becomes with the right row of a key, given what it looks for; none if the right row
is missing or no match, or the join drops it. -/
def findMatched (join : JoinType) (schema : MergedSchema) (right : Collection)
    (rightField : String) (sought : Json) (tuple : Tuple) (rightKey : Key) : Lookup (Option Json) :=
  if join = .diff then return none
  else do
    match ← right.item rightKey with
    | none => return none
    | some rightValue =>
      if sought.agrees (rightValue.fieldOrNull rightField) then
        let other ← .ofExcept rightValue.tuple?
        return some (.object (schema.mergeTuples tuple (some other)))
      else return none

/-- The join of two collections on a field of each. -/
def joined (join : JoinType) (left : Collection) (leftField : String) (right : Collection)
    (rightField : String) : Collection :=
  let schema := MergedSchema.merge left.properties right.properties
  let probe (tuple : Tuple) : Json := (tuple.get? leftField).getD .null
  let expand (outcome : Except Fault Row) : Run :=
    match keyedTuple outcome with
    | .error fault => .single (.error fault)
    | .ok (key, tuple) =>
      match right.itemsOnValue rightField (probe tuple) with
      | .error fault => .single (.error fault)
      | .ok found => join.expandMatches schema key tuple found
  let items (filters : Filters) : Except Fault Run :=
    (left.items .none).map fun run => (run.concatMap expand).skipRows (filters.skip.getD 0)
  { id := join.name ++ "(" ++ left.id ++ "," ++ leftField ++ "," ++ right.id ++ "," ++ rightField ++ ")"
    kind := .dictOfTuples
    properties := match join with
      | .diff => left.properties
      | .inner | .left => schema.properties
    capabilities := [.skip]
    items
    item := fun key => do
      let (leftKey, rightKey) ← .ofExcept key.split
      match ← left.item leftKey with
      | none => return none
      | some leftValue =>
        let tuple ← .ofExcept leftValue.tuple?
        if rightKey.isEmpty then findUnmatched join schema right rightField (probe tuple) tuple
        else findMatched join schema right rightField (probe tuple) tuple rightKey
    itemsOnValue := scanOnValue items }

end Collection

end TableQuery
