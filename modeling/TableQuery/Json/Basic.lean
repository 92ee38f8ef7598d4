import TableQuery.Decimal.Double
import TableQuery.Fields

/-!
# JSON values

Values keep the order of their members, and a number keeps whether it was written as an integer: an
`integer` fits 64 bits with or without a sign, every other number is a `double`.

The members of an object are a list of pairs.  A reader may leave a name in it more than once;
`Json.settled` resolves that in every object of a value, a repeated name keeping its first place and
taking its last value.
-/

namespace TableQuery

/-- A JSON number. -/
inductive Number where
  /-- An integer between -2^63 and 2^64 - 1. -/
  | integer (value : Int) (inRange : -0x8000000000000000 ≤ value ∧ value < 0x10000000000000000)
  /-- Any other number, rounded to a double. -/
  | double (value : Double)
  deriving DecidableEq

namespace Number

/-- The integer as a number, if it fits 64 bits. -/
def ofInt? (value : Int) : Option Number :=
  if h : -0x8000000000000000 ≤ value ∧ value < 0x10000000000000000 then some (.integer value h) else none

/-- The nearest double. -/
def toDouble : Number → Double
  | integer value _ => .ofInt value
  | double value => value

end Number

/-- A JSON value. -/
inductive Json where
  | null
  | bool (value : Bool)
  | number (value : Number)
  | string (text : String)
  | array (items : List Json)
  /-- An object, its members in order. -/
  | object (members : List (String × Json))
  deriving Inhabited

/-- A row: field names with values, in order. -/
abbrev Tuple := Fields Json

namespace Json

/-! ## Equality is decidable -/

mutual

/-- Whether two values are the same. -/
def decEq : (a b : Json) → Decidable (a = b)
  | .null, .null => .isTrue rfl
  | .bool a, .bool b => decidable_of_iff (a = b) (by simp)
  | .number a, .number b => decidable_of_iff (a = b) (by simp)
  | .string a, .string b => decidable_of_iff (a = b) (by simp)
  | .array a, .array b => match decEqItems a b with
    | .isTrue h => .isTrue (by rw [h])
    | .isFalse h => .isFalse (by simpa using h)
  | .object a, .object b => match decEqMembers a b with
    | .isTrue h => .isTrue (by rw [h])
    | .isFalse h => .isFalse (by simpa using h)
  | .null, .bool _ | .null, .number _ | .null, .string _ | .null, .array _ | .null, .object _
  | .bool _, .null | .bool _, .number _ | .bool _, .string _ | .bool _, .array _
  | .bool _, .object _ | .number _, .null | .number _, .bool _ | .number _, .string _
  | .number _, .array _ | .number _, .object _ | .string _, .null | .string _, .bool _
  | .string _, .number _ | .string _, .array _ | .string _, .object _ | .array _, .null
  | .array _, .bool _ | .array _, .number _ | .array _, .string _ | .array _, .object _
  | .object _, .null | .object _, .bool _ | .object _, .number _ | .object _, .string _
  | .object _, .array _ => .isFalse (by simp)

/-- Whether two arrays have the same items. -/
def decEqItems : (a b : List Json) → Decidable (a = b)
  | [], [] => .isTrue rfl
  | [], _ :: _ => .isFalse (by simp)
  | _ :: _, [] => .isFalse (by simp)
  | a :: as, b :: bs => match decEq a b with
    | .isFalse h => .isFalse (by simp [h])
    | .isTrue h => match decEqItems as bs with
      | .isTrue hs => .isTrue (by rw [h, hs])
      | .isFalse hs => .isFalse (by simp [hs])

/-- Whether two objects have the same members in the same order. -/
def decEqMembers : (a b : List (String × Json)) → Decidable (a = b)
  | [], [] => .isTrue rfl
  | [], _ :: _ => .isFalse (by simp)
  | _ :: _, [] => .isFalse (by simp)
  | (m, a) :: as, (n, b) :: bs =>
    if hn : m = n then match decEq a b with
      | .isFalse h => .isFalse (by simp [h])
      | .isTrue h => match decEqMembers as bs with
        | .isTrue hs => .isTrue (by rw [hn, h, hs])
        | .isFalse hs => .isFalse (by simp [hs])
    else .isFalse (by simp [hn])

end

instance : DecidableEq Json := decEq

/-! ## Repeated members -/

mutual

/-- The value with no name repeated in any object: the first place and the last value remain. -/
def settled : Json → Json
  | .array items => .array (settledItems items)
  | .object members => .object (Fields.ofPairs (settledMembers members))
  | value => value

/-- The items of an array, each settled. -/
def settledItems : List Json → List Json
  | [] => []
  | value :: rest => value.settled :: settledItems rest

/-- The members of an object, each value settled. -/
def settledMembers : List (String × Json) → List (String × Json)
  | [] => []
  | (name, value) :: rest => (name, value.settled) :: settledMembers rest

end

/-! ## Building values -/

/-- A natural number below 2^64 as a value; a greater one wraps. -/
def ofUInt64 (n : UInt64) : Json :=
  .number (.integer n.toNat ⟨by omega, by have := n.toNat_lt; omega⟩)

end Json

end TableQuery
