import TableQuery.Operator.Join
import TableQuery.Operator.Projection

/-!
# Queries as trees

A table expression describes a collection, and a program says what is to be done with one.  Every
expression has a text, written without white space.  It is the id of the collection that the expression
builds, and parsing it gives the expression back.

Expressions also have a JSON form: an object whose one member is named for the kind of the expression.
-/

namespace TableQuery

/-- A table expression. -/
inductive Table where
  | collection (dataset sectionName : String)
  | fieldJoin (join : JoinType) (left : Table) (leftField : String) (right : Table)
    (rightField : String)
  | predicateJoin (join : JoinType) (left right : Table) (predicate : Predicate)
  | spatialJoin (left right : Table)
  | union (left right : Table)
  | product (left right : Table)
  | projection (input : Table) (pairs : FieldPairs)
  | selection (predicate : Predicate) (input : Table)
  deriving DecidableEq, Inhabited

/-- A program of the query language. -/
inductive Program where
  | display (input : Table)
  | draw (dataset : String)
  | table (input : Table)
  deriving DecidableEq

/-! ## Text -/

/-- The text of a table expression. -/
def Table.text : Table → String
  | collection dataset sectionName => dataset ++ "." ++ sectionName
  | fieldJoin join left leftField right rightField =>
    join.name ++ "(" ++ left.text ++ "," ++ leftField ++ "," ++ right.text ++ "," ++ rightField ++ ")"
  | predicateJoin join left right predicate =>
    join.name ++ "(" ++ left.text ++ "," ++ right.text ++ "," ++ predicate.text ++ ")"
  | spatialJoin left right => "spatial-join(" ++ left.text ++ "," ++ right.text ++ ")"
  | union left right => "union(" ++ left.text ++ "," ++ right.text ++ ")"
  | product left right => "product(" ++ left.text ++ "," ++ right.text ++ ")"
  | projection input pairs => "proj(" ++ input.text ++ ",[" ++ pairs.text ++ "])"
  | selection predicate input => "select(" ++ predicate.text ++ "," ++ input.text ++ ")"

/-- The text of a program. -/
def Program.text : Program → String
  | display input => "display(" ++ input.text ++ ")"
  | draw dataset => "draw(" ++ dataset ++ ")"
  | table input => input.text

/-! ## JSON -/

/-- The JSON form of a pair of names. -/
def FieldPairs.toJson (pairs : FieldPairs) : Json :=
  .array (pairs.map fun (source, target) => .array [.string source, .string target])

/-- The pair of names that a JSON value denotes. -/
def FieldPairs.pairOfJson? : Json → Option (String × String)
  | .array [.string source, .string target] => some (source, target)
  | _ => none

/-- The pairs that a JSON value denotes. -/
def FieldPairs.ofJson? : Json → Option FieldPairs
  | .array items => items.mapM pairOfJson?
  | _ => none

namespace Table

/-- The JSON form of a table expression. -/
def toJson : Table → Json
  | collection dataset sectionName =>
    .object [("Collection", .object [("dataset", .string dataset), ("section", .string sectionName)])]
  | fieldJoin join left leftField right rightField =>
    .object [("FieldJoin", .object [("join_type", .string join.code), ("left", left.toJson),
      ("left_field", .string leftField), ("right", right.toJson),
      ("right_field", .string rightField)])]
  | predicateJoin join left right predicate =>
    .object [("PredicateJoin", .object [("join_type", .string join.code), ("left", left.toJson),
      ("right", right.toJson), ("predicate", predicate.toJson)])]
  | spatialJoin left right =>
    .object [("SpatialJoin", .object [("left", left.toJson), ("right", right.toJson)])]
  | union left right =>
    .object [("Union", .object [("left", left.toJson), ("right", right.toJson)])]
  | product left right =>
    .object [("Product", .object [("left", left.toJson), ("right", right.toJson)])]
  | projection input pairs =>
    .object [("Projection", .object [("input", input.toJson), ("pairs", pairs.toJson)])]
  | selection predicate input =>
    .object [("Selection", .object [("predicate", predicate.toJson), ("input", input.toJson)])]

/-- The text member of an object. -/
def textMember? (members : Json) (name : String) : Option String :=
  match members.field? name with
  | some (.string text) => some text
  | _ => none

/-- The type of join that a member of an object names. -/
def joinMember? (members : Json) : Option JoinType :=
  (textMember? members "join_type").bind JoinType.ofCode?

/-- Reads the JSON form; each nesting spends one unit of fuel. -/
def readJson : (fuel : Nat) → Json → Option Table
  | 0, _ => none
  | fuel + 1, .object [(form, members)] =>
    let table (name : String) : Option Table := (members.field? name).bind (readJson fuel)
    let both (make : Table → Table → Table) : Option Table := do
      return make (← table "left") (← table "right")
    let predicate : Option Predicate := (members.field? "predicate").bind Predicate.ofJson?
    if form = "Collection" then do
      return collection (← textMember? members "dataset") (← textMember? members "section")
    else if form = "FieldJoin" then do
      return fieldJoin (← joinMember? members) (← table "left") (← textMember? members "left_field")
        (← table "right") (← textMember? members "right_field")
    else if form = "PredicateJoin" then do
      return predicateJoin (← joinMember? members) (← table "left") (← table "right") (← predicate)
    else if form = "SpatialJoin" then both spatialJoin
    else if form = "Union" then both union
    else if form = "Product" then both product
    else if form = "Projection" then do
      return projection (← table "input") (← (members.field? "pairs").bind FieldPairs.ofJson?)
    else if form = "Selection" then do
      return selection (← predicate) (← table "input")
    else none
  | _ + 1, _ => none

/-- The table expression that a JSON value denotes. -/
def ofJson? (value : Json) : Option Table := readJson value.toChars.length value

end Table

namespace Program

/-- The JSON form of a program. -/
def toJson : Program → Json
  | display input => .object [("Display", input.toJson)]
  | draw dataset => .object [("Draw", .object [("dataset", .string dataset)])]
  | table input => .object [("Table", input.toJson)]

/-- The program that a JSON value denotes. -/
def ofJson? : Json → Option Program
  | .object [(form, inner)] =>
    if form = "Display" then (Table.ofJson? inner).map display
    else if form = "Draw" then (Table.textMember? inner "dataset").map draw
    else if form = "Table" then (Table.ofJson? inner).map table
    else none
  | _ => none

end Program

end TableQuery
