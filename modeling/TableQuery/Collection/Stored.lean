import TableQuery.Collection.Basic

/-!
# Stored collections

A stored collection keeps its rows in memory.  The rows of a tuple kind are tuples, and their
properties are inferred unless others are declared.  A key may occur more than once; looking it up
finds the last row.

A field of a tuple kind can be indexed.  An *index* groups the rows by the token of the field's value,
a row without the field counting as `null`, and keeps the order of the rows in every group.  Tokens
are equal exactly for values that agree, so a lookup by value can take the rows of one group instead
of reading all.

That tuple kinds hold tuples, and that each index is the index of the rows, is part of the type.
-/

namespace TableQuery

/-- Rows grouped by token. -/
abbrev Index := Fields (List Row)

namespace Index

/-- Puts a row in front of the group of its token. -/
def add (field : String) (row : Row) (index : Index) : Index :=
  let token := (row.2.fieldOrNull field).token
  index.insert token (row :: (index.get? token).getD [])

/-- The index of rows by a field. -/
def ofRows (field : String) (rows : List Row) : Index := rows.foldr (add field) []

end Index

/-- Whether a row holds a tuple. -/
def Row.isTuple (row : Row) : Bool := row.2.tuple?.isOk

/-- A collection in memory. -/
structure Stored where
  id : String
  kind : Kind
  properties : Properties
  rows : List Row
  indexes : Fields Index
  /-- The rows of a tuple kind hold tuples. -/
  tuples : kind.hasTuples = true → ∀ row ∈ rows, Row.isTuple row = true
  /-- Only the fields of tuple kinds are indexed. -/
  indexed : indexes ≠ [] → kind.hasTuples = true
  /-- Every index is that of the rows. -/
  current : ∀ field index, indexes.get? field = some index → index = Index.ofRows field rows

namespace Stored

/-- The tuples among the rows. -/
def tuplesOf (rows : List Row) : List Tuple := rows.filterMap fun row => row.2.tuple?.toOption

/-- The collection of some rows.  Fails at the first row that should be a tuple and is not. -/
def ofRows (id : String) (kind : Kind) (rows : List Row) : Except Fault Stored :=
  if tuples : kind.hasTuples = true → ∀ row ∈ rows, Row.isTuple row = true then
    .ok {
      id, kind, rows, tuples
      properties := if kind.hasTuples then .infer (tuplesOf rows) else []
      indexes := []
      indexed := by simp
      current := by simp [Fields.get?] }
  else
    .error (.notATuple (((rows.find? fun row => !Row.isTuple row).map Prod.snd).getD .null))

/-- The collection of some values, keyed by position. -/
def ofList (id : String) (kind : Kind) (values : List Json) : Except Fault Stored :=
  ofRows id kind (values.mapIdx fun position value => (.ofPosition position, value))

/-- The same collection with declared properties. -/
def withProperties (stored : Stored) (properties : Properties) : Stored := { stored with properties }

/-- The same collection with an index by a field. -/
def withIndex (stored : Stored) (field : String) : Except Fault Stored :=
  if tuples : stored.kind.hasTuples = true then
    .ok { stored with
      indexes := stored.indexes.insert field (.ofRows field stored.rows)
      indexed := fun _ => tuples
      current := by
        intro other index h
        rw [Fields.get?_insert] at h
        split at h
        · next e => subst e; simpa using h.symm
        · exact stored.current other index h }
  else .error (.incompatibleKind "index" stored.kind)

/-- The number of rows. -/
def size (stored : Stored) : Nat := stored.rows.length

/-- The indexed fields in order of name. -/
def indexedFields (stored : Stored) : List String :=
  stored.indexes.names.mergeSort fun a b => !decide (b < a)

/-! ## Reading -/

/-- All rows. -/
def read (stored : Stored) : Run := Run.ofRows (stored.rows.map .ok)

/-- The rows that satisfy a predicate, and faults for those it cannot be evaluated on. -/
def matching (stored : Stored) (predicate : Option Predicate) : Run :=
  match predicate with
  | none => stored.read
  | some predicate => stored.read.filterMap predicate.keep

/-- The rows under some filters. -/
def items (stored : Stored) (filters : Filters) : Run :=
  (stored.matching filters.predicate).skipRows (filters.skip.getD 0)

/-- The value of the last row with a key. -/
def find? (stored : Stored) (key : Key) : Option Json :=
  (stored.rows.reverse.find? fun row => row.1 == key).map Prod.snd

/-- The rows whose field agrees with a value, from the index of the field if there is one. -/
def itemsOnValue (stored : Stored) (field : String) (value : Json) : Run :=
  match stored.indexes.get? field with
  | some index => Run.ofRows (((index.get? value.token).getD []).map .ok)
  | none => stored.read.scan field value

/-- A stored collection as a collection.  It honours every filter. -/
def toCollection (stored : Stored) : Collection where
  id := stored.id
  kind := stored.kind
  properties := stored.properties
  capabilities := [.skip, .predicate]
  items filters := .ok (stored.items filters)
  item key := pure (stored.find? key)
  itemsOnValue field value := .ok (stored.itemsOnValue field value)

end Stored

end TableQuery
