import TableQuery.Collection.Run
import TableQuery.Schema.TypeTag

/-!
# Collections

A collection is what the operators of the algebra read and what they make: an id, a kind, properties,
and three ways of reading.  `items` delivers the rows, `item` looks one up by its key, and
`itemsOnValue` delivers the rows whose field has a given value.

`items` takes filters.  A collection has to honour only those it lists as its capabilities and ignores
the others.  Looking rows up by value is, unless a collection knows better, a scan: it keeps the rows
whose field agrees with the value, a row without the field counting as `null`, and all faults.
-/

namespace TableQuery

/-- A filter that a collection may apply while it delivers rows. -/
inductive Capability where
  | skip
  /-- Keeping the rows that satisfy a predicate. -/
  | predicate
  deriving DecidableEq, Repr

namespace Capability

/-- The name of a capability. -/
def name : Capability → String
  | skip => "skip"
  | predicate => "predicate"

/-- The capability of a name. -/
def ofName? (name : String) : Option Capability :=
  [skip, predicate].find? (·.name == name)

end Capability

/-- Filters handed to `Collection.items`.  The predicate comes first; rows it drops are not counted. -/
structure Filters where
  skip : Option Nat
  predicate : Option Predicate
  deriving DecidableEq

namespace Filters

/-- No filters. -/
def none : Filters := ⟨.none, .none⟩

/-- Only a number of rows to discard. -/
def skipping (count : Nat) : Filters := ⟨some count, .none⟩

/-- The filters that the given capabilities cover. -/
def restrictedTo (filters : Filters) (capabilities : List Capability) : Filters :=
  ⟨if .skip ∈ capabilities then filters.skip else .none,
    if .predicate ∈ capabilities then filters.predicate else .none⟩

end Filters

/-- Something that delivers rows. -/
structure Collection where
  /-- The canonical id, which the query language reads back. -/
  id : String
  kind : Kind
  properties : Properties
  /-- The filters that `items` honours. -/
  capabilities : List Capability
  items : Filters → Except Fault Run
  /-- Looks a row up by its key. -/
  item : Key → Lookup (Option Json)
  /-- Delivers the rows whose field agrees with a value. -/
  itemsOnValue : String → Json → Except Fault Run

namespace Predicate

/-- Keeps a row whose tuple satisfies the predicate.  A row that the predicate cannot be evaluated on
becomes a fault, and a fault stays. -/
def keep (predicate : Predicate) (outcome : Except Fault Row) : Option (Except Fault Row) :=
  match outcome with
  | .error fault => some (.error fault)
  | .ok row =>
    match row.2.tuple?.bind predicate.evaluate with
    | .ok true => some (.ok row)
    | .ok false => none
    | .error fault => some (.error fault)

end Predicate

/-- Whether a scan for a value keeps a row.  Faults are kept. -/
def scanKeeps (field : String) (value : Json) : Except Fault Row → Bool
  | .ok row => (row.2.fieldOrNull field).agrees value
  | .error _ => true

/-- The rows of a run whose field agrees with a value, and the faults. -/
def Run.scan (field : String) (value : Json) (run : Run) : Run :=
  run.filterMap fun outcome => if scanKeeps field value outcome then some outcome else none

/-- Looking up by value by reading everything. -/
def scanOnValue (items : Filters → Except Fault Run) (field : String) (value : Json) :
    Except Fault Run :=
  (items .none).map (Run.scan field value)

/-- Fails unless a collection holds tuples. -/
def requireTuples (operation : String) (input : Collection) : Except Fault Unit :=
  if input.kind.hasTuples then .ok () else .error (.incompatibleKind operation input.kind)

namespace Collection

/-- The rows from a position on.  The rows before it are discarded by the collection itself if it can;
faults are never discarded. -/
def page (source : Collection) (skip : Nat) : Except Fault Run :=
  if skip = 0 then source.items .none
  else if .skip ∈ source.capabilities then source.items (.skipping skip)
  else (source.items .none).map (Run.skipRows skip)

end Collection

end TableQuery
