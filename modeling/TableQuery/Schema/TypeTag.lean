import TableQuery.Fault
import TableQuery.Text.Blank

/-!
# Type tags

A type tag is a simplified type of a property.  It has a text: `string`, `enum(a,b)`,
`array(integer)`, `object(a:string,b:number)`, `GeoJSON(Point)` and so on.

Reading trims a tag, takes what stands before its first `(` as the constructor and requires a `)` at
its end.  The parts of an `enum` or an `object` are separated by the commas outside parentheses, where
a `)` too many does not count, and each part is trimmed.  The name of an object field ends at the
first colon.  A text that is no tag is reported as it stands after trimming, and of nested tags it is
the inner one that is reported.

`TypeTag.ofValue` is the tag of a value.  An array has the tag of its first item, and an object that
looks like a geometry is tagged as one.
-/

namespace TableQuery

/-- The simplified type of a property. -/
inductive TypeTag where
  | string
  | number
  /-- A number without a fraction. -/
  | integer
  | boolean
  | enum (values : List String)
  | array (item : TypeTag)
  | object (fields : List (String × TypeTag))
  | geoJson (geometry : String)
  /-- Nothing is known. -/
  | unknown
  deriving Inhabited

/-- Property names with their type tags, in order of declaration. -/
abbrev Properties := Fields TypeTag

namespace TypeTag

/-! ## The text of a tag -/

/-- Texts with commas between them. -/
def commaSeparated : List (List Char) → List Char
  | [] => []
  | [part] => part
  | part :: rest => part ++ ',' :: commaSeparated rest

mutual

/-- The text of a tag. -/
def toChars : TypeTag → List Char
  | string => "string".toList
  | number => "number".toList
  | integer => "integer".toList
  | boolean => "boolean".toList
  | unknown => "unknown".toList
  | enum values => "enum(".toList ++ (commaSeparated (values.map String.toList) ++ [')'])
  | array item => "array(".toList ++ (item.toChars ++ [')'])
  | geoJson geometry => "GeoJSON(".toList ++ (geometry.toList ++ [')'])
  | object fields => "object(".toList ++ (fieldsChars fields ++ [')'])

/-- Members with commas between them. -/
def fieldsChars : List (String × TypeTag) → List Char
  | [] => []
  | [(name, tag)] => name.toList ++ ':' :: tag.toChars
  | (name, tag) :: rest => name.toList ++ ':' :: (tag.toChars ++ ',' :: fieldsChars rest)

end

/-- The text of a tag. -/
def text (tag : TypeTag) : String := String.ofList tag.toChars

/-! ## Reading a tag -/

/-- The text before and after the first occurrence of a character. -/
def cutAt? (mark : Char) : List Char → Option (List Char × List Char)
  | [] => none
  | c :: rest =>
    if c = mark then some ([], rest)
    else (cutAt? mark rest).map fun (front, back) => (c :: front, back)

/-- The text without the given last character. -/
def dropLast? (mark : Char) (cs : List Char) : Option (List Char) :=
  match cs.reverse with
  | [] => none
  | c :: rest => if c = mark then some rest.reverse else none

/-- The pieces between the commas outside parentheses, at the given depth; `piece` is the current one
in reverse. -/
def splitAtDepth : (depth : Nat) → (piece : List Char) → List Char → List (List Char)
  | _, piece, [] => [piece.reverse]
  | depth, piece, c :: rest =>
    if c = '(' then splitAtDepth (depth + 1) (c :: piece) rest
    else if c = ')' then splitAtDepth (depth - 1) (c :: piece) rest
    else if c = ',' ∧ depth = 0 then piece.reverse :: splitAtDepth 0 [] rest
    else splitAtDepth depth (c :: piece) rest

/-- The trimmed parts between the commas outside parentheses; a blank text has none. -/
def parts (cs : List Char) : List (List Char) :=
  if (Text.trim cs).isEmpty then [] else (splitAtDepth 0 [] cs).map Text.trim

/-- The fault of a text that is no tag. -/
def invalid {α : Type} (cs : List Char) : Except Fault α :=
  .error (.invalidTypeTag (String.ofList cs))

/-- Reads a tag; each nesting spends one unit of fuel. -/
def read : (fuel : Nat) → List Char → Except Fault TypeTag
  | 0, cs => invalid cs
  | fuel + 1, cs =>
    let cs := Text.trim cs
    match cutAt? '(' cs with
    | none =>
      if cs = "string".toList then .ok string
      else if cs = "number".toList then .ok number
      else if cs = "integer".toList then .ok integer
      else if cs = "boolean".toList then .ok boolean
      else if cs = "unknown".toList then .ok unknown
      else invalid cs
    | some (name, rest) =>
      match dropLast? ')' rest with
      | none => invalid cs
      | some inner =>
        if name = "enum".toList then .ok (enum ((parts inner).map String.ofList))
        else if name = "array".toList then (read fuel inner).map array
        else if name = "GeoJSON".toList then .ok (geoJson (String.ofList (Text.trim inner)))
        else if name = "object".toList then
          ((parts inner).mapM fun part =>
            match cutAt? ':' part with
            | none => invalid cs
            | some (field, tag) =>
              (read fuel tag).map fun tag => (String.ofList (Text.trim field), tag)).map object
        else invalid cs

/-- The tag that a text spells. -/
def ofText (text : String) : Except Fault TypeTag := read (text.length + 1) text.toList

/-! ## The tag of a value -/

/-- The geometry of an object that looks like one: a text as `type`, and coordinates or geometries. -/
def geometry? (members : List (String × Json)) : Option String :=
  match Fields.get? members "type" with
  | some (.string geometry) =>
    if Fields.has members "coordinates" || Fields.has members "geometries" then some geometry else none
  | _ => none

mutual

/-- The tag of a value. -/
def ofValue : Json → TypeTag
  | .null => unknown
  | .bool _ => boolean
  | .number (.integer ..) => integer
  | .number (.double _) => number
  | .string _ => string
  | .array items => array (ofFirst items)
  | .object members =>
    match geometry? members with
    | some geometry => geoJson geometry
    | none => object (ofMembers members)

/-- The tag of the first item, if there is one. -/
def ofFirst : List Json → TypeTag
  | [] => unknown
  | value :: _ => ofValue value

/-- The tags of the members. -/
def ofMembers : List (String × Json) → List (String × TypeTag)
  | [] => []
  | (name, value) :: rest => (name, ofValue value) :: ofMembers rest

end

/-- Whether a tag says nothing. -/
def isUnknown : TypeTag → Bool
  | unknown => true
  | _ => false

end TypeTag

/-! ## Inferring properties -/

namespace Properties

/-- Learns from one field of a tuple: a new name is added, and a tag that says nothing is replaced. -/
def learn (properties : Properties) (field : String × Json) : Properties :=
  match properties.get? field.1 with
  | some tag => if tag.isUnknown then properties.insert field.1 (.ofValue field.2) else properties
  | none => properties.insert field.1 (.ofValue field.2)

/-- The properties of some tuples: every field name in order of first occurrence, tagged by its first
value that is not null. -/
def infer (tuples : List Tuple) : Properties :=
  tuples.foldl (fun properties tuple => tuple.foldl learn properties) []

/-- Properties as a JSON object of tag texts. -/
def toJson (properties : Properties) : Json :=
  .object (properties.map fun (name, tag) => (name, .string tag.text))

end Properties

end TableQuery
