import TableQuery.Query.Basic
import TableQuery.Text.Split

/-!
# Responses

A response has a status, headers and a body.  A query that fails is answered by a JSON object that tells
the fault and repeats the status; if the source could not be parsed, it also has the lines of the trace.
-/

namespace TableQuery

/-- A response. -/
structure Response where
  status : Nat
  /-- The headers, by lower-case name. -/
  headers : Fields String
  body : String

namespace Response

/-- A response without a body. -/
def bare (status : Nat) : Response := ⟨status, [], ""⟩

/-- A response whose body is JSON. -/
def ofJson (status : Nat) (body : Json) : Response :=
  ⟨status, [("content-type", "application/json")], body.toText⟩

/-- A response whose body is plain text. -/
def ofText (status : Nat) (body : String) : Response :=
  ⟨status, [("content-type", "text/plain; charset=utf-8")], body⟩

/-- A response that keeps its status and its headers and loses its body. -/
def withoutBody (response : Response) : Response := { response with body := "" }

/-- A response that names the request it answers. -/
def identified (id : String) (response : Response) : Response :=
  { response with headers := response.headers.insert "x-request-id" id }

end Response

/-- The status that tells of a fault of the algebra. -/
def Fault.status : Fault → Nat
  | unknownCollection _ => 404
  | notImplemented _ => 501
  | provider _ => 500
  | incompatibleKind .. | missingField _ | unknownField _ | malformedKey _ | unsupportedOperator _
  | invalidTypeTag _ | notATuple _ => 422

namespace QueryFault

/-- The status that tells of a fault. -/
def status : QueryFault → Nat
  | parse _ => 400
  | algebra fault => fault.status
  | output _ => 500

/-- The lines of the trace, if the source could not be parsed. -/
def traceLines? : QueryFault → Option (List String)
  | parse failure => some ((Text.lines (Trace.text failure.trace).toList).map String.ofList)
  | _ => none

/-- The JSON form of a fault, where malformed keys are explained. -/
def toJson (explain : String → String) (fault : QueryFault) : Json :=
  .object ([("error", .string (fault.message explain)), ("code", .ofUInt64 fault.status.toUInt64)] ++
    match fault.traceLines? with
    | some lines => [("trace", .array (lines.map Json.string))]
    | none => [])

/-- The response to a query that fails. -/
def response (explain : String → String) (fault : QueryFault) : Response :=
  .ofJson fault.status (fault.toJson explain)

end QueryFault

end TableQuery
