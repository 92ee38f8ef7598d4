import TableQuery.Json.Printer
import TableQuery.Key.Basic
import TableQuery.Kind

/-!
# What can go wrong in the algebra

A `Fault` is the cause of a failure: of building an operator, of a call on a collection, or of a
single row.  A fault of a row takes the place of the row, and the rows after it still come.
-/

namespace TableQuery

/-- A failure of the algebra. -/
inductive Fault where
  /-- An operation on tuples was given a collection of bare values. -/
  | incompatibleKind (operation : String) (kind : Kind)
  /-- A tuple lacks a field that a predicate or a projection names. -/
  | missingField (field : String)
  | unknownCollection (name : String)
  /-- A join predicate names a field that the merged schema does not have. -/
  | unknownField (field : String)
  | malformedKey (key : Key)
  /-- The query language has the form, but nothing carries it out. -/
  | notImplemented (form : String)
  | unsupportedOperator (text : String)
  | invalidTypeTag (text : String)
  /-- A value other than an object stands where a tuple is needed. -/
  | notATuple (value : Json)
  | provider (reason : String)
  deriving DecidableEq

namespace Fault

/-- What is told to the user.  Of a name that is no pair of keys it is also told what the reader of pairs
explains about it. -/
def message (explain : String → String) : Fault → String
  | incompatibleKind operation kind =>
    "Incompatible kind: " ++ operation ++ " requires tuples, got " ++ kind.name
  | missingField field => "Missing field: " ++ field
  | unknownCollection name => "Unknown collection: " ++ name
  | unknownField field => "Unknown field: " ++ field
  | malformedKey (.name text) => "Malformed key: " ++ text ++ ": " ++ explain text
  | malformedKey key@(.index _) => "Malformed key: " ++ key.text
  | notImplemented form => "Not implemented: " ++ form
  | unsupportedOperator text => "Unsupported operator: " ++ text
  | invalidTypeTag text => "Invalid type tag: " ++ text
  | notATuple value => "Expected a tuple, got " ++ value.toText
  | provider reason => "Provider error: " ++ reason

end Fault

/-- The tuple that a value is. -/
def Json.tuple? : Json → Except Fault Tuple
  | .object members => .ok members
  | value => .error (.notATuple value)

/-- The value of a field of a value; none if the value is not an object or lacks the field. -/
def Json.field? : Json → String → Option Json
  | .object members, field => Fields.get? members field
  | _, _ => none

/-- The value of a field, `null` if there is none. -/
def Json.fieldOrNull (value : Json) (field : String) : Json := (value.field? field).getD .null

end TableQuery
