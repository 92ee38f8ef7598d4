/-!
# The kinds of collections

A collection holds tuples or bare values, keyed by name or by position.  Its kind says which of the
four it is and never changes.  The operators of the algebra work on tuples only.
-/

namespace TableQuery

/-- What a collection holds and how it is keyed. -/
inductive Kind where
  | dictOfTuples
  | dictOfValues
  | listOfTuples
  | listOfValues
  deriving DecidableEq, Repr

namespace Kind

/-- Every kind. -/
def all : List Kind := [dictOfTuples, dictOfValues, listOfTuples, listOfValues]

/-- The name of a kind, as it is written in dataset files. -/
def name : Kind → String
  | dictOfTuples => "DictOfTuples"
  | dictOfValues => "DictOfValues"
  | listOfTuples => "ListOfTuples"
  | listOfValues => "ListOfValues"

/-- The kind of a name. -/
def ofName? (name : String) : Option Kind := all.find? (·.name == name)

/-- Whether the items are tuples. -/
def hasTuples : Kind → Bool
  | dictOfTuples | listOfTuples => true
  | dictOfValues | listOfValues => false

/-- Whether the items are keyed by name. -/
def isDict : Kind → Bool
  | dictOfTuples | dictOfValues => true
  | listOfTuples | listOfValues => false

theorem ofName?_name (kind : Kind) : ofName? kind.name = some kind := by
  cases kind <;> decide

end Kind

end TableQuery
