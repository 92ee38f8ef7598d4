import TableQuery.Fault
import TableQuery.Json.Reader

/-!
# Composite keys

The rows of a product or a join are keyed by the pair of their operands' keys.  A pair is itself a
key: the name that is the compact JSON array of the two.  Escaping keeps the parts apart, so either
side may be a pair again.  `Key.split` undoes `Key.pair`.
-/

namespace TableQuery.Key

/-- The composite key of two keys. -/
def pair (left right : Key) : Key := .name (Json.array [left.toJson, right.toJson]).toText

/-- The keys that a text is the pair of. -/
def splitText? (text : List Char) : Option (Key × Key) :=
  match Json.parse? text with
  | some (.array [left, right]) =>
    match ofJson? left, ofJson? right with
    | some left, some right => some (left, right)
    | _, _ => none
  | _ => none

/-- The two keys of a composite key. -/
def split (key : Key) : Except Fault (Key × Key) :=
  match key with
  | .index _ => .error (.malformedKey key)
  | .name text =>
    match splitText? text.toList with
    | some keys => .ok keys
    | none => .error (.malformedKey key)

end TableQuery.Key
