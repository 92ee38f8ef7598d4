import TableQuery.Query.Lexer
import TableQuery.Query.Table
import TableQuery.Query.Trace

/-!
# Parsing queries

The grammar, where a name is any word and a dataset is a name that the catalog knows:

* program: `display` `(` table `)`, or `draw` `(` dataset `)`, or table
* table: dataset `.` name, or join `(` table `,` condition, or one of `spatial-join`, `union` and
  `product` with `(` table `,` table `)`, or `proj` `(` table `,` `[` pairs `]` `)`, or
  `select` `(` predicate `,` table `)`
* condition: name `,` table `,` name `)`, or table `,` predicate `)`
* pairs: pair `,` pairs, or pair
* pair: name `>` name
* predicate: name operator operand, the operand a name, a string literal or a number
* join: `inner-join`, `left-join` or `diff-join`

A rule takes the remaining tokens and gives, if it applies, a node and the tokens after it.
Alternatives are tried in order on the same tokens and the first that applies is taken.  Every attempt
is recorded.

The rule for tables is a recursion on fuel.  A table inside a table starts at a later token, so one
unit for each token and one for the end is enough.
-/

namespace TableQuery

/-! ## Rules -/

/-- What applying a rule to some tokens gives. -/
structure Outcome (α : Type) where
  /-- The node and the tokens after it, if the rule applied. -/
  result : Option (α × List Token)
  trace : List Attempt

/-- A rule of the grammar. -/
def Parser (α : Type) : Type := List Token → Outcome α

namespace Parser

instance : Monad Parser where
  pure node := fun input => ⟨some (node, input), []⟩
  bind first next := fun input =>
    match first input with
    | ⟨none, trace⟩ => ⟨none, trace⟩
    | ⟨some (node, rest), trace⟩ =>
      let outcome := next node rest
      ⟨outcome.result, trace ++ outcome.trace⟩

variable {α : Type}

/-- The rule that a function on tokens makes; it records nothing. -/
def ofFunction (f : List Token → Option (α × List Token)) : Parser α := fun input => ⟨f input, []⟩

/-- Records the attempt to apply a rule.  The rule is given the path to it. -/
def attempt (path : RulePath) (rule : Rule) (body : RulePath → Parser α)
    (note : List Token → Option Note) : Parser α := fun input =>
  let outcome := body (path ++ [rule]) input
  ⟨outcome.result,
    ⟨path ++ [rule], input, outcome.result.map Prod.snd, note input⟩ :: outcome.trace⟩

/-- Records the attempt to apply a rule, without a note. -/
def trying (path : RulePath) (rule : Rule) (body : RulePath → Parser α) : Parser α :=
  attempt path rule body fun _ => none

/-- Applies the first of two rules that does apply. -/
def orElse (first second : Parser α) : Parser α := fun input =>
  match first input with
  | ⟨some found, trace⟩ => ⟨some found, trace⟩
  | ⟨none, trace⟩ =>
    let outcome := second input
    ⟨outcome.result, trace ++ outcome.trace⟩

/-- Applies the first of some rules that does apply. -/
def firstOf : List (Parser α) → Parser α
  | [] => ofFunction fun _ => none
  | [rule] => rule
  | rule :: rules => rule.orElse (firstOf rules)

/-! ## Tokens -/

/-- A token that is the given lexeme. -/
def expect (lexeme : Lexeme) : Parser Unit := ofFunction fun
  | token :: rest => if token.lexeme = lexeme then some ((), rest) else none
  | [] => none

/-- A word that is the given keyword. -/
def keyword (text : String) : Parser Unit := expect (.word text)

/-- Any word. -/
def name : Parser String := ofFunction fun
  | ⟨.word text, _⟩ :: rest => some (text, rest)
  | _ => none

/-- The name of a join. -/
def joinName : Parser JoinType := ofFunction fun
  | ⟨.word text, _⟩ :: rest => (JoinType.ofName? text).map fun join => (join, rest)
  | _ => none

/-- A comparison operator. -/
def comparator : Parser Comparator := ofFunction fun
  | ⟨.comparator comparator, _⟩ :: rest => some (comparator, rest)
  | _ => none

/-- The right side of a predicate. -/
def operand : Parser Operand := ofFunction fun
  | ⟨.word text, _⟩ :: rest => some (.field text, rest)
  | ⟨.text value, _⟩ :: rest => some (.constant (.string value), rest)
  | ⟨.number value, _⟩ :: rest => some (.constant value, rest)
  | _ => none

/-! ## Names, predicates and pairs -/

/-- The note at a name that is not that of a dataset. -/
def unknownNote (knows : String → Bool) : List Token → Option Note
  | ⟨.word text, _⟩ :: _ => if knows text then none else some (.unknownDataset text)
  | _ => none

/-- The name of a dataset. -/
def dataset (knows : String → Bool) (path : RulePath) : Parser String :=
  attempt path .dataset
    (fun _ => ofFunction fun
      | ⟨.word text, _⟩ :: rest => if knows text then some (text, rest) else none
      | _ => none)
    (unknownNote knows)

/-- A predicate. -/
def predicate (path : RulePath) : Parser Predicate :=
  trying path .predicate fun _ => do
    let field ← name
    let comparator ← comparator
    let operand ← operand
    return ⟨field, comparator, operand⟩

/-- A pair of names. -/
def namePair (path : RulePath) : Parser (String × String) :=
  trying path .namePair fun _ => do
    let source ← name
    expect (.comparator .greater)
    let target ← name
    return (source, target)

/-- One pair or more; each pair spends one unit of fuel. -/
def pairsFrom : (fuel : Nat) → RulePath → Parser FieldPairs
  | 0, _ => ofFunction fun _ => none
  | fuel + 1, path =>
    orElse
      (trying path .pairList fun path => do
        let pair ← namePair path
        expect .comma
        let pairs ← pairsFrom fuel path
        return pair :: pairs)
      (trying path .singlePair fun path => do
        let pair ← namePair path
        return [pair])

/-- One pair or more. -/
def pairs (path : RulePath) : Parser FieldPairs := fun input =>
  pairsFrom (input.length + 1) path input

/-! ## Tables -/

/-- What follows the left operand of a join. -/
inductive Condition where
  /-- A field of either operand, with the right operand between them. -/
  | onFields (leftField : String) (right : Table) (rightField : String)
  /-- The right operand and a predicate. -/
  | onPredicate (right : Table) (predicate : Predicate)

/-- The join of a left operand under a condition. -/
def Condition.table (join : JoinType) (left : Table) : Condition → Table
  | onFields leftField right rightField => .fieldJoin join left leftField right rightField
  | onPredicate right predicate => .predicateJoin join left right predicate

section Tables

variable (knows : String → Bool) (table : RulePath → Parser Table)

/-- A section of a dataset. -/
def collection (path : RulePath) : Parser Table := do
  let dataset ← dataset knows path
  expect .dot
  let sectionName ← name
  return .collection dataset sectionName

/-- What follows the left operand of a join. -/
def condition (path : RulePath) : Parser Condition :=
  orElse
    (trying path .onFields fun path => do
      let leftField ← name
      expect .comma
      let right ← table path
      expect .comma
      let rightField ← name
      expect .closeParen
      return .onFields leftField right rightField)
    (trying path .onPredicate fun path => do
      let right ← table path
      expect .comma
      let predicate ← predicate path
      expect .closeParen
      return .onPredicate right predicate)

/-- A join. -/
def join (path : RulePath) : Parser Table := do
  let join ← joinName
  expect .openParen
  let left ← table path
  expect .comma
  let condition ← condition table path
  return condition.table join left

/-- An operation with two tables, by its keyword. -/
def binary (word : String) (make : Table → Table → Table) (path : RulePath) : Parser Table := do
  keyword word
  expect .openParen
  let left ← table path
  expect .comma
  let right ← table path
  expect .closeParen
  return make left right

/-- A projection. -/
def projection (path : RulePath) : Parser Table := do
  keyword "proj"
  expect .openParen
  let input ← table path
  expect .comma
  expect .openBracket
  let pairs ← pairs path
  expect .closeBracket
  expect .closeParen
  return .projection input pairs

/-- A selection. -/
def selection (path : RulePath) : Parser Table := do
  keyword "select"
  expect .openParen
  let predicate ← predicate path
  expect .comma
  let input ← table path
  expect .closeParen
  return .selection predicate input

/-- A table whose operands are read by the given rule. -/
def tableStep (path : RulePath) : Parser Table :=
  firstOf [
    trying path .collection (collection knows),
    trying path .join (join table),
    trying path .spatialJoin (binary table "spatial-join" .spatialJoin),
    trying path .union (binary table "union" .union),
    trying path .product (binary table "product" .product),
    trying path .projection (projection table),
    trying path .selection (selection table)]

end Tables

/-- A table; each nesting spends one unit of fuel. -/
def tableFrom (knows : String → Bool) : (fuel : Nat) → RulePath → Parser Table
  | 0, _ => ofFunction fun _ => none
  | fuel + 1, path => tableStep knows (tableFrom knows fuel) path

/-- A table. -/
def table (knows : String → Bool) (path : RulePath) : Parser Table := fun input =>
  tableFrom knows (input.length + 1) path input

/-! ## Programs -/

/-- A program that displays a table. -/
def display (knows : String → Bool) (path : RulePath) : Parser Program := do
  keyword "display"
  expect .openParen
  let input ← table knows path
  expect .closeParen
  return .display input

/-- A program that draws a dataset. -/
def draw (knows : String → Bool) (path : RulePath) : Parser Program := do
  keyword "draw"
  expect .openParen
  let dataset ← dataset knows path
  expect .closeParen
  return .draw dataset

/-- A program that is a table. -/
def bare (knows : String → Bool) (path : RulePath) : Parser Program := do
  let input ← table knows path
  return .table input

/-- Records the attempt to read the whole of a query by a rule.  Tokens that are left over make the
attempt fail, with a note. -/
def whole (rule : Rule) (body : RulePath → Parser Program) : Parser Program := fun input =>
  match body [rule] input with
  | ⟨some (program, []), trace⟩ =>
    ⟨some (program, []), ⟨[rule], input, some [], none⟩ :: trace⟩
  | ⟨some (_, rest), trace⟩ =>
    ⟨none, ⟨[rule], input, none, some (.trailingInput rest)⟩ :: trace⟩
  | ⟨none, trace⟩ => ⟨none, ⟨[rule], input, none, none⟩ :: trace⟩

/-- A program. -/
def program (knows : String → Bool) : Parser Program :=
  firstOf [whole .display (display knows), whole .draw (draw knows), whole .table (bare knows)]

end Parser

/-! ## Parsing a source -/

/-- Why a source is no program. -/
inductive ParseCause where
  | lexical (fault : LexFault)
  /-- The rules that applied used up the whole query. -/
  | unexpectedEnd
  /-- This is what the rules that got furthest left over. -/
  | stuckAt (rest : String)
  | nothingApplied
  deriving DecidableEq

/-- What is told to the user. -/
def ParseCause.message : ParseCause → String
  | lexical fault => fault.message
  | unexpectedEnd => "unexpected end of query"
  | stuckAt rest => "could not parse query from \x60" ++ rest ++ "\x60"
  | nothingApplied => "could not parse query"

/-- The cause that a trace of failed attempts shows. -/
def ParseCause.ofFurthest : Option String → ParseCause
  | none => nothingApplied
  | some rest => if rest = "" then unexpectedEnd else stuckAt rest

/-- A failure to parse. -/
structure ParseFailure where
  cause : ParseCause
  trace : List TraceEntry
  deriving DecidableEq

namespace ParseFailure

/-- What is told to the user. -/
def message (failure : ParseFailure) : String := failure.cause.message

/-- The JSON form of a failure. -/
def toJson (failure : ParseFailure) : Json :=
  .object [("message", .string failure.message),
    ("trace", .object [("entries", .array (failure.trace.map TraceEntry.toJson))])]

end ParseFailure

/-- Parses a source, given the names of the datasets. -/
def parse (knows : String → Bool) (source : String) : Except ParseFailure Program :=
  match tokenize source.toList with
  | .error fault => .error ⟨.lexical fault, []⟩
  | .ok tokens =>
    match Parser.program knows tokens with
    | ⟨some (program, _), _⟩ => .ok program
    | ⟨none, trace⟩ =>
      let entries := trace.map (Attempt.entry source.toList)
      .error ⟨.ofFurthest (Trace.furthest? entries), entries⟩

end TableQuery
