import TableQuery.Collection.Basic

/-!
# Projection

A projection copies fields of every tuple to new names, in the order of its pairs.  A tuple that
lacks a field becomes a fault.  One row comes out for each row that goes in, so discarding leading rows
is left to the input if the input can do it.
-/

namespace TableQuery

/-- Pairs of a field to read and the name to give it. -/
abbrev FieldPairs := List (String × String)

namespace FieldPairs

/-- The text of the pairs, with commas between them. -/
def text (pairs : FieldPairs) : String :=
  String.intercalate "," (pairs.map fun (source, target) => source ++ ">" ++ target)

/-- The properties after a projection; a field that the input does not declare is unknown. -/
def properties (pairs : FieldPairs) (input : Properties) : Properties :=
  pairs.foldl
    (fun properties (source, target) =>
      properties.insert target ((input.get? source).getD .unknown))
    []

/-- The projected tuple, built up pair by pair. -/
def projectFrom (tuple : Tuple) : FieldPairs → Tuple → Except Fault Tuple
  | [], out => .ok out
  | (source, target) :: rest, out =>
    match tuple.get? source with
    | some value => projectFrom tuple rest (Fields.insert out target value)
    | none => .error (.missingField source)

/-- The projection of a value, which has to be a tuple. -/
def project (pairs : FieldPairs) (value : Json) : Except Fault Json := do
  let tuple ← value.tuple?
  return .object (← projectFrom tuple pairs [])

/-- The projection of a row; a fault stays. -/
def projectRow (pairs : FieldPairs) (outcome : Except Fault Row) : Except Fault Row := do
  let (key, value) ← outcome
  return (key, ← pairs.project value)

end FieldPairs

namespace Collection

/-- The projection of a collection. -/
def projected (input : Collection) (pairs : FieldPairs) : Collection :=
  let capabilities := if .skip ∈ input.capabilities then [.skip] else []
  let items (filters : Filters) : Except Fault Run :=
    let passed := Filters.restrictedTo ⟨filters.skip, .none⟩ capabilities
    (input.items passed).map fun run => run.filterMap fun outcome => some (pairs.projectRow outcome)
  { id := "proj(" ++ input.id ++ ",[" ++ pairs.text ++ "])"
    kind := input.kind
    properties := pairs.properties input.properties
    capabilities
    items
    item := fun key => do
      match ← input.item key with
      | none => return none
      | some value => return some (← .ofExcept (pairs.project value))
    itemsOnValue := scanOnValue items }

end Collection

end TableQuery
