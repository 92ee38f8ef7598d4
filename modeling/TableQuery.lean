import TableQuery.Collection.Provider
import TableQuery.Operator.Basic
import TableQuery.Query.Basic
import TableQuery.Registry.File
import TableQuery.Server.Service
import TableQuery.Proofs.Operator.Lookup
import TableQuery.Proofs.Operator.Page
import TableQuery.Proofs.Operator.Identity
import TableQuery.Proofs.Operator.Capability
import TableQuery.Proofs.Operator.Failure
import TableQuery.Proofs.Operator.Schema
import TableQuery.Proofs.Operator.NestedLoop
import TableQuery.Proofs.Operator.EmptyKey
import TableQuery.Proofs.Operator.Respelling
import TableQuery.Proofs.Operator.Reading
import TableQuery.Proofs.Query.Parsing
import TableQuery.Proofs.Query.Lexeme
import TableQuery.Proofs.Query.RoundTrip
import TableQuery.Proofs.Query.Registration
import TableQuery.Proofs.Query.WhiteSpace
import TableQuery.Proofs.Query.Fuel
import TableQuery.Proofs.Query.Trace
import TableQuery.Proofs.Query.Constant
import TableQuery.Proofs.Query.Building
import TableQuery.Proofs.Query.Wrapping
import TableQuery.Proofs.Query.Printing
import TableQuery.Proofs.Query.StringLiteral
import TableQuery.Proofs.Schema.TypeTag
import TableQuery.Proofs.Schema.Inference
import TableQuery.Proofs.Schema.ValueTag
import TableQuery.Proofs.Json.Value
import TableQuery.Proofs.Registry.Directory
import TableQuery.Proofs.Server.Paging
import TableQuery.Proofs.Server.TraceLines
