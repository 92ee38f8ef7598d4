import TableQuery.Query.Build
import TableQuery.Query.Parser

/-!
# Compiling and running queries

Compiling a source parses it and builds its collection.  Running a query writes one line for each row,
a JSON object of the key and the tuple, and stops at the first fault.  Lines that were written before
stay written.  A map cannot be drawn here.

Where the lines go is the caller's business: a *sink* takes a line and the state of the output, and
gives the new state, or the reason why the line could not be written.
-/

namespace TableQuery

/-- A compiled query. -/
inductive Query where
  | display (operator : Operator)
  | draw (dataset : String)
  | table (operator : Operator)

/-- Why a query fails. -/
inductive QueryFault where
  /-- Its source is no program. -/
  | parse (failure : ParseFailure)
  | algebra (fault : Fault)
  | output (reason : String)
  deriving DecidableEq

/-- What is told to the user, where malformed keys are explained. -/
def QueryFault.message (explain : String → String) : QueryFault → String
  | parse failure => "parse error: " ++ failure.message
  | algebra fault => fault.message explain
  | output reason => "IO error: " ++ reason

namespace Query

/-- Builds the collection of a program. -/
def ofProgram (catalog : Catalog) : Program → Except Fault Query
  | .display input => return .display (← input.build catalog)
  | .draw dataset => return .draw dataset
  | .table input => return .table (← input.build catalog)

/-- The collection that a query reads; drawing a map reads none here. -/
def operator : Query → Except Fault Operator
  | display operator | table operator => .ok operator
  | draw dataset => .error (.notImplemented ("draw(" ++ dataset ++ ")"))

/-- The line that shows a row. -/
def line (row : Row) : String :=
  (Json.object [("key", row.1.toJson), ("tuple", row.2)]).toText

/-- Writes a row, given the number of lines written and the state of the output.  A fault ends the
writing. -/
def writeRow {σ : Type} (sink : σ → String → Except String σ) :
    Nat × σ → Except Fault Row → (σ × Except QueryFault Nat) ⊕ (Nat × σ)
  | (_, state), .error fault => .inl (state, .error (.algebra fault))
  | (written, state), .ok row =>
    match sink state (line row) with
    | .error reason => .inl (state, .error (.output reason))
    | .ok state => .inr (written + 1, state)

/-- Runs a query.  Gives the state of the output and the number of lines written. -/
def run {σ : Type} (query : Query) (sink : σ → String → Except String σ) (state : σ) :
    σ × Except QueryFault Nat :=
  match query.operator with
  | .error fault => (state, .error (.algebra fault))
  | .ok operator =>
    match operator.collection.items .none with
    | .error fault => (state, .error (.algebra fault))
    | .ok run => run.read (writeRow sink) (fun (written, state) => (state, .ok written)) (0, state)

end Query

/-- Parses a source and builds its collection. -/
def compile (catalog : Catalog) (source : String) : Except QueryFault Query :=
  match parse catalog.knows source with
  | .error failure => .error (.parse failure)
  | .ok program =>
    match Query.ofProgram catalog program with
    | .error fault => .error (.algebra fault)
    | .ok query => .ok query

end TableQuery
