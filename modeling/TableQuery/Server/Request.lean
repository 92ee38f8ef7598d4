import TableQuery.Server.QueryString

/-!
# Requests

A request is a method and a target.  The target is a path and a query string, which starts at the first
question mark; a number sign ends it.  A scheme and an authority may stand before the path, and then an
empty path is a slash.

Parameters are read in the order of the query string, so the first one that is given twice or that is no
number is the fault; that the query is missing is seen last.  Parameters of other names are passed over.
-/

namespace TableQuery

/-- A request. -/
structure Request where
  method : String
  path : String
  query : List Char

/-- The text after the `://` that follows a scheme. -/
def afterScheme? : List Char → Option (List Char)
  | ':' :: '/' :: '/' :: rest => some rest
  | '/' :: _ | [] => none
  | _ :: rest => afterScheme? rest

/-- A target without its scheme and authority. -/
def withoutAuthority (target : List Char) : List Char :=
  match afterScheme? target with
  | none => target
  | some rest =>
    match rest.dropWhile fun c => c != '/' && c != '?' with
    | '/' :: rest => '/' :: rest
    | rest => '/' :: rest

/-- The request of a method and a target. -/
def Request.ofTarget (method target : String) : Request :=
  let (target, _) := Text.splitFirst '#' target.toList
  let (path, query) := Text.splitFirst '?' (withoutAuthority target)
  ⟨method, String.ofList path, query.getD []⟩

/-- What is wrong with the parameters of a request. -/
inductive ParameterFault where
  /-- A parameter is needed and not given. -/
  | missing (name : String)
  | duplicate (name : String)
  | number (fault : Text.UnsignedFault)
  deriving DecidableEq

/-- What is told to the user. -/
def ParameterFault.message : ParameterFault → String
  | missing name => "missing field \x60" ++ name ++ "\x60"
  | duplicate name => "duplicate field \x60" ++ name ++ "\x60"
  | number fault => fault.message

/-- The parameters of a page of a result. -/
structure PageParameters where
  source : String
  /-- How many rows come before the page. -/
  skip : UInt64
  limit : Option UInt64
  deriving DecidableEq

namespace ParameterFault

/-- The value of a parameter that may stand once. -/
def once {α : Type} (name : String) (seen : Option α) (value : Except ParameterFault α) :
    Except ParameterFault (Option α) :=
  match seen with
  | some _ => .error (.duplicate name)
  | none => value.map some

/-- The value of a parameter that has to be given. -/
def required {α : Type} (name : String) : Option α → Except ParameterFault α
  | some value => .ok value
  | none => .error (.missing name)

end ParameterFault

open ParameterFault (once required)

/-- Reads a parameter that is a number of rows. -/
def readCount (text : String) : Except ParameterFault UInt64 :=
  match Text.unsignedBelow 10 UInt64.size text.toList with
  | .ok count => .ok count.toUInt64
  | .error fault => .error (.number fault)

namespace PageParameters

/-- The parameters of a page, as far as they were read. -/
structure Seen where
  source : Option String := none
  /-- How many rows come before the page. -/
  skip : Option UInt64 := none
  limit : Option UInt64 := none

/-- Reads one more parameter. -/
def Seen.add (seen : Seen) : String × String → Except ParameterFault Seen
  | ("q", text) => do return { seen with source := ← once "q" seen.source (.ok text) }
  | ("skip", text) => do return { seen with skip := ← once "skip" seen.skip (readCount text) }
  | ("limit", text) => do return { seen with limit := ← once "limit" seen.limit (readCount text) }
  | _ => .ok seen

/-- Reads the parameters of a page. -/
def ofPairs (pairs : List (String × String)) : Except ParameterFault PageParameters := do
  let seen ← pairs.foldlM Seen.add {}
  let source ← required "q" seen.source
  return ⟨source, seen.skip.getD 0, seen.limit⟩

end PageParameters

/-- Reads the source of a query, the only parameter besides those that are passed over. -/
def sourceOfPairs (pairs : List (String × String)) : Except ParameterFault String := do
  let source ← pairs.foldlM
    (fun seen (name, text) => if name = "q" then once "q" seen (.ok text) else .ok seen) none
  required "q" source

end TableQuery
