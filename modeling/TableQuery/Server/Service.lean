import TableQuery.Registry.Basic
import TableQuery.Server.Page
import TableQuery.Server.Request
import TableQuery.Server.Response

/-!
# The service

The service answers requests about the datasets of a registry, on four paths.

* `/health` says that it runs.
* `/datasets` lists the datasets.
* `/query` answers with a page of the rows of a query, given by `q`, `skip` and `limit`.
* `/schema` answers with the properties of the rows of a query, given by `q`.

These paths can be read, with a body or without one, and other methods are refused.  A map cannot be
drawn here.
-/

namespace TableQuery

/-- What the service answers from. -/
structure Service where
  registry : Registry
  paging : Paging
  /-- What is said about a name that should be a pair of keys and is none. -/
  explain : String → String

/-- A path of the service. -/
inductive Endpoint where
  /-- Whether the service runs. -/
  | health
  | datasets
  /-- A page of the rows of a query. -/
  | query
  /-- The properties of the rows of a query. -/
  | schema
  deriving DecidableEq, Repr

/-- The endpoint of a path. -/
def Endpoint.ofPath? : String → Option Endpoint
  | "/health" => some health
  | "/datasets" => some datasets
  | "/query" => some query
  | "/schema" => some schema
  | _ => none

/-- The JSON form of a dataset in a list; a title that is not there is left out. -/
def Dataset.toJson (dataset : Dataset) : Json :=
  .object ([("name", .string dataset.name)] ++
    (match dataset.title with
      | some title => [("title", .string title)]
      | none => []) ++
    [("sections", .array (dataset.sections.names.map Json.string))])

namespace Service

variable (service : Service)

/-- Compiles a source to the collection that it reads. -/
def collectionOf (source : String) : Except QueryFault Operator :=
  (compile service.registry.catalog source).bind fun query => query.operator.mapError .algebra

/-- The page that a request asks for, with what it is a page of. -/
def pageOf (parameters : PageParameters) : Except QueryFault (Operator × Page) := do
  let operator ← service.collectionOf parameters.source
  let limit := service.paging.limit parameters.limit
  let page ← (Page.ofCollection operator.collection parameters.skip.toNat limit.toNat).mapError .algebra
  return (operator, page)

/-- The response to a request whose parameters are not right. -/
def rejection (fault : ParameterFault) : Response :=
  .ofText 400 ("Failed to deserialize query string: " ++ fault.message)

/-- The response that lists the datasets. -/
def listResponse : Response := .ofJson 200 (.array (service.registry.datasets.map Dataset.toJson))

/-- The response to a request for a page. -/
def pageResponse (parameters : PageParameters) : Response :=
  match service.pageOf parameters with
  | .ok (operator, page) =>
    .ofJson 200 (page.toJson operator parameters.skip (service.paging.limit parameters.limit))
  | .error fault => fault.response service.explain

/-- The response to a request for the properties of a query. -/
def schemaResponse (source : String) : Response :=
  match service.collectionOf source with
  | .ok operator =>
    .ofJson 200 (.object [("id", .string operator.id), ("kind", .string operator.collection.kind.name),
      ("properties", operator.collection.properties.toJson)])
  | .error fault => fault.response service.explain

/-- The response of an endpoint to a query string. -/
def read (endpoint : Endpoint) (query : List Char) : Response :=
  match endpoint with
  | .health => .ofJson 200 (.object [("status", .string "ok")])
  | .datasets => service.listResponse
  | .query =>
    match PageParameters.ofPairs (QueryString.pairs query) with
    | .ok parameters => service.pageResponse parameters
    | .error fault => rejection fault
  | .schema =>
    match sourceOfPairs (QueryString.pairs query) with
    | .ok source => service.schemaResponse source
    | .error fault => rejection fault

/-- Finds the endpoint of a request and answers it. -/
def route (request : Request) : Response :=
  match Endpoint.ofPath? request.path with
  | none => .bare 404
  | some endpoint =>
    if request.method = "GET" then service.read endpoint request.query
    else if request.method = "HEAD" then (service.read endpoint request.query).withoutBody
    else .bare 405

/-- The response to a request that was given an id. -/
def answer (id : String) (request : Request) : Response := (service.route request).identified id

end Service

end TableQuery
