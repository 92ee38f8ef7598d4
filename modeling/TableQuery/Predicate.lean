import TableQuery.Comparison

/-!
# Predicates

A predicate compares a field of a tuple with a constant or with another field.  A tuple without a
named field does not fail the comparison but the evaluation: the left field is looked up first, and
the first one missing is the fault.
-/

namespace TableQuery

/-- A comparison operator. -/
inductive Comparator where
  | equal
  /-- The operator `<>`, which may also be spelled `!=`. -/
  | notEqual
  | less
  | atMost
  | greater
  | atLeast
  deriving DecidableEq, Repr

namespace Comparator

/-- Every operator. -/
def all : List Comparator := [equal, notEqual, less, atMost, greater, atLeast]

/-- The spelling of an operator. -/
def symbol : Comparator → String
  | equal => "="
  | notEqual => "<>"
  | less => "<"
  | atMost => "<="
  | greater => ">"
  | atLeast => ">="

/-- The name of an operator in JSON. -/
def code : Comparator → String
  | equal => "Eq"
  | notEqual => "Ne"
  | less => "Lt"
  | atMost => "Le"
  | greater => "Gt"
  | atLeast => "Ge"

/-- The operator that a text spells. -/
def ofText (text : String) : Except Fault Comparator :=
  if text = "!=" then .ok notEqual
  else match all.find? (·.symbol == text) with
    | some comparator => .ok comparator
    | none => .error (.unsupportedOperator text)

/-- The operator of a JSON name. -/
def ofCode? (code : String) : Option Comparator := all.find? (·.code == code)

/-- Whether an operator holds of two values that compare in the given way. -/
def holds : Comparator → Ordering → Bool
  | equal, o => o == .eq
  | notEqual, o => o != .eq
  | less, o => o == .lt
  | atMost, o => o != .gt
  | greater, o => o == .gt
  | atLeast, o => o != .lt

theorem ofText_symbol (comparator : Comparator) : ofText comparator.symbol = .ok comparator := by
  cases comparator <;> rfl

end Comparator

/-- What a field is compared with. -/
inductive Operand where
  | field (name : String)
  | constant (value : Json)
  deriving DecidableEq

/-- A comparison of a field. -/
structure Predicate where
  field : String
  comparator : Comparator
  /-- What stands on the right. -/
  operand : Operand
  deriving DecidableEq

namespace Predicate

/-- The value of a field that a predicate names. -/
def valueOf (tuple : Tuple) (field : String) : Except Fault Json :=
  match tuple.get? field with
  | some value => .ok value
  | none => .error (.missingField field)

/-- Whether a tuple satisfies a predicate. -/
def evaluate (predicate : Predicate) (tuple : Tuple) : Except Fault Bool := do
  let left ← valueOf tuple predicate.field
  let right ← match predicate.operand with
    | .field name => valueOf tuple name
    | .constant value => pure value
  return predicate.comparator.holds (left.order right)

/-- The field on the right, if the comparison is with a field. -/
def otherField? (predicate : Predicate) : Option String :=
  match predicate.operand with
  | .field name => some name
  | .constant _ => none

/-- The constant on the right, if the comparison is with one. -/
def constant? (predicate : Predicate) : Option Json :=
  match predicate.operand with
  | .field _ => none
  | .constant value => some value

/-! ## Text and JSON -/

/-- The text of a predicate, without spaces. -/
def text (predicate : Predicate) : String :=
  predicate.field ++ predicate.comparator.symbol ++
    match predicate.operand with
    | .field name => name
    | .constant value => value.toText

/-- The JSON form of a predicate. -/
def toJson (predicate : Predicate) : Json :=
  .object [("field", .string predicate.field), ("op", .string predicate.comparator.code),
    ("rhs", match predicate.operand with
      | .field name => .object [("Field", .string name)]
      | .constant value => .object [("Const", value)])]

/-- The right side that a JSON value denotes. -/
def operandOfJson? : Json → Option Operand
  | .object [("Field", .string name)] => some (.field name)
  | .object [("Const", value)] => some (.constant value)
  | _ => none

/-- The predicate that a JSON value denotes. -/
def ofJson? (value : Json) : Option Predicate := do
  let .string field ← value.field? "field" | none
  let .string code ← value.field? "op" | none
  let comparator ← Comparator.ofCode? code
  let operand ← (← value.field? "rhs") |> operandOfJson?
  return ⟨field, comparator, operand⟩

end Predicate

end TableQuery
