import TableQuery.Json.Basic

/-!
# Typed reading of documents

Files of this program are JSON or YAML.  What a file says is read the same way from both: records with
named fields, mappings from names, lists, texts and open values.  A `Format` tells how a node of a
document is each of these.

A record is written as a mapping, where unknown names are ignored and known ones stand at most once.
Some documents may also write it as the list of its fields in order, where those at the end may be left
out.

Which texts are documents is not fixed here.  A `DocumentReader` tells this, and what holds of files is
stated for every reader of JSON and every reader of YAML.
-/

namespace TableQuery

/-- How the nodes of a document are read. -/
structure Format (α : Type) where
  /-- Whether a node stands for an absent value. -/
  isNull : α → Bool
  /-- The text that a node is. -/
  text? : α → Option String
  /-- The name of an enumeration that a node is. -/
  choice? : α → Option String
  /-- The members of a mapping, repeated ones included. -/
  members? : α → Option (List (String × α))
  /-- The items of a list. -/
  items? : α → Option (List α)
  /-- The number below a bound that a node is. -/
  unsigned? : Nat → α → Option Nat
  /-- The value of a node of any type. -/
  value? : α → Option Json
  /-- Whether a record that a node is written as is the list of its fields. -/
  isList : α → Bool

namespace Format

variable {α : Type} (format : Format α)

/-- The fields of a record with the given field names: those that a mapping has, or the first ones that
a list has. -/
def record? (names : List String) (node : α) : Option (Fields α) :=
  if format.isList node then
    (format.items? node).bind fun items =>
      if names.length < items.length then none else some (names.zip items)
  else
    (format.members? node).bind fun members =>
      let known := members.filter fun member => names.contains member.1
      if (known.map Prod.fst).Nodup then some known else none

/-- The texts of a list. -/
def texts? (node : α) : Option (List String) := (format.items? node).bind (·.mapM format.text?)

/-- Reads a node unless it stands for an absent value. -/
def optional? {β : Type} (read : α → Option β) (node : α) : Option (Option β) :=
  if format.isNull node then some none else (read node).map some

end Format

/-- A reader of documents. -/
structure DocumentReader where
  /-- The nodes of its documents. -/
  Node : Type
  format : Format Node
  /-- The document that a text is. -/
  document? : String → Option Node
  /-- What it says about a text that it does not read as what was asked for. -/
  complaint : String → String

/-- Reads what a text says, or tells what the reader says about it. -/
def DocumentReader.read {β : Type} (reader : DocumentReader) (read? : reader.Node → Option β)
    (text : String) : Except String β :=
  match (reader.document? text).bind read? with
  | some result => .ok result
  | none => .error (reader.complaint text)

/-- The readers of the files of this program. -/
structure Readers where
  json : DocumentReader
  yaml : DocumentReader

/-- Reads a field of a record; one that is left out is as given. -/
def Fields.read? {α β : Type} (fields : Fields α) (name : String) (leftOut : Option β)
    (read : α → Option β) : Option β :=
  match fields.get? name with
  | none => leftOut
  | some node => read node

end TableQuery
