import TableQuery.Schema.TypeTag

/-!
# Merging two schemas

A product or a join pairs the tuples of two operands.  The *merged schema* names the fields of the
pairs and remembers where each comes from.  A name that both operands have is prefixed with its side,
`s1_` or `s2_`; every other name stays as it is.  A prefixed name may coincide with another name; then
the later field takes the earlier one's place.
-/

namespace TableQuery

/-- An operand of a binary operator. -/
inductive Side where
  | left
  | right
  deriving DecidableEq, Repr

namespace Side

/-- The short name of a side. -/
def tag : Side → String
  | left => "s1"
  | right => "s2"

/-- The name of a side in JSON. -/
def code : Side → String
  | left => "S1"
  | right => "S2"

end Side

/-- Where a field of a merged schema comes from. -/
structure Origin where
  tag : TypeTag
  /-- The name of the field in its operand. -/
  sourceName : String
  side : Side

/-- The JSON form of an origin. -/
def Origin.toJson (origin : Origin) : Json :=
  .object [("prop_type", .string origin.tag.text), ("original_name", .string origin.sourceName),
    ("source", .string origin.side.code)]

/-- The fields of paired tuples with their origins. -/
abbrev MergedSchema := Fields Origin

namespace MergedSchema

/-- The name that a property of one operand has in the merged schema. -/
def outputName (side : Side) (other : Properties) (name : String) : String :=
  if other.has name then side.tag ++ "_" ++ name else name

/-- Adds the properties of one operand. -/
def addSide (schema : MergedSchema) (side : Side) (own other : Properties) : MergedSchema :=
  own.foldl (fun schema (name, tag) => schema.insert (outputName side other name) ⟨tag, name, side⟩)
    schema

/-- The merged schema of two operands. -/
def merge (left right : Properties) : MergedSchema :=
  addSide (addSide [] .left left right) .right right left

/-- The merged schema of any number of operands; only two can be merged. -/
def ofSources : List Properties → Except Fault MergedSchema
  | [left, right] => .ok (merge left right)
  | sources => .error (.notImplemented ("product of " ++ toString sources.length ++ " collections"))

/-- The properties of the paired tuples. -/
def properties (schema : MergedSchema) : Properties :=
  schema.map fun (name, origin) => (name, origin.tag)

/-- The value that a pair of tuples has under a field: null if its operand lacks it, or is missing. -/
def valueOf (left : Tuple) (right : Option Tuple) (origin : Origin) : Json :=
  let source := match origin.side with
    | .left => some left
    | .right => right
  (source.bind (Fields.get? · origin.sourceName)).getD .null

/-- The tuple of a pair. -/
def mergeTuples (schema : MergedSchema) (left : Tuple) (right : Option Tuple) : Tuple :=
  schema.map fun (name, origin) => (name, valueOf left right origin)

end MergedSchema

end TableQuery
