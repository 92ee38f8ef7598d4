import TableQuery.Collection.Basic

/-!
# Provided collections

A provider may offer less than the collection behind it.  A *restricted* collection honours only the
given filters and drops the others.  A *metered* one lets a source yield each of its rows, so that a
run shows how many rows of the source it costs.  Neither knows a better way to look rows up by value
than to scan.
-/

namespace TableQuery.Collection

/-- The collection with fewer capabilities. -/
def restricted (inner : Collection) (capabilities : List Capability) : Collection :=
  let items filters := inner.items (filters.restrictedTo capabilities)
  { inner with capabilities, items, itemsOnValue := scanOnValue items }

/-- The collection with every row yielded by a source. -/
def metered (inner : Collection) (source : Nat) : Collection :=
  let items filters := (inner.items filters).map (Run.metered source)
  { inner with items, itemsOnValue := scanOnValue items }

end TableQuery.Collection
