import TableQuery.Json.Basic

/-!
# Row keys

A row is keyed by its position in a list or by a name.  The empty name stands in composite keys for
the missing side of a join; a collection may use it as a key of its own too.

Keys are ordered: positions come before names, positions by number and names by code point.
-/

namespace TableQuery

/-- The key of a row. -/
inductive Key where
  | index (position : UInt64)
  | name (text : String)
  deriving DecidableEq, Repr

namespace Key

/-- The key of the missing side of a join row. -/
def empty : Key := .name ""

/-- Whether a key is the empty name. -/
def isEmpty (key : Key) : Bool := key == empty

/-- The key of the item at a position, counted from zero. -/
def ofPosition (position : Nat) : Key := .index (.ofNat position)

/-- The text of a key. -/
def text : Key → String
  | index position => toString position.toNat
  | name text => text

/-- A key as a JSON value: a number or a text. -/
def toJson : Key → Json
  | index position => .ofUInt64 position
  | name text => .string text

/-- The key that a JSON value is: an integer from 0 to 2^64 - 1, or a text. -/
def ofJson? : Json → Option Key
  | .number (.integer value _) => if 0 ≤ value then some (.index (.ofNat value.toNat)) else none
  | .string text => some (.name text)
  | _ => none

theorem ofJson?_toJson (key : Key) : ofJson? key.toJson = some key := by
  cases key with
  | index position => simp [toJson, Json.ofUInt64, ofJson?]
  | name text => rfl

/-- The order of keys. -/
def before : Key → Key → Bool
  | index a, index b => a < b
  | index _, name _ => true
  | name _, index _ => false
  | name a, name b => a < b

/-- Keys in order, each once. -/
def sorted (keys : List Key) : List Key :=
  (keys.mergeSort fun a b => !before b a).eraseReps

end Key

end TableQuery
