import TableQuery.Collection.Basic

/-!
# Selection

A selection keeps the tuples that satisfy a predicate.  An input that can evaluate predicates gets the
predicate to evaluate; then it is also the one to discard leading rows, since only it knows which rows
count.  Otherwise the selection reads all rows and filters them itself.
-/

namespace TableQuery.Collection

/-- Whether a selection over this input leaves the predicate to it. -/
def takesPredicate (input : Collection) : Bool := decide (.predicate ∈ input.capabilities)

/-- The selection of a collection. -/
def selected (predicate : Predicate) (input : Collection) : Collection :=
  let items (filters : Filters) : Except Fault Run :=
    if input.takesPredicate then
      input.items (Filters.restrictedTo ⟨filters.skip, some predicate⟩ input.capabilities)
    else (input.items .none).map (Run.filterMap predicate.keep)
  { id := "select(" ++ predicate.text ++ "," ++ input.id ++ ")"
    kind := input.kind
    properties := input.properties
    capabilities :=
      if input.takesPredicate && decide (.skip ∈ input.capabilities) then [.skip] else []
    items
    item := fun key => do
      match ← input.item key with
      | none => return none
      | some value =>
        let keep ← .ofExcept (value.tuple?.bind predicate.evaluate)
        return if keep then some value else none
    itemsOnValue := scanOnValue items }

end TableQuery.Collection
