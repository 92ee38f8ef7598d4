import TableQuery.Document
import TableQuery.Registry.Basic
import TableQuery.Registry.FileName

/-!
# Dataset files

A file holds one dataset, named for the stem of the file's name.  It has a title, which may be absent,
and sections.  A section has a kind, its items, properties that may be declared, and the fields to index.
The items of a dict kind are a mapping, those of a list kind a list.

A file is JSON if its extension says so and YAML otherwise.  Which texts are documents of the two formats is
up to their readers.  A dataset is loaded as a whole: the first section that cannot be built is the fault.
Loading a directory goes through its files in the order of their paths, so of two files with one stem the
later one stays, and passes over files that cannot be loaded.
-/

namespace TableQuery

/-- A section as a file gives it. -/
structure SectionFile where
  kind : Kind
  properties : Option Properties
  indexes : List String
  items : Json

/-- A dataset as a file gives it. -/
structure DatasetFile where
  title : Option String
  sections : Fields SectionFile

namespace DatasetFile

variable {α : Type} (format : Format α)

/-- Reads declared properties. -/
def readProperties? (node : α) : Option Properties := do
  let members ← format.members? node
  let tagged ← members.mapM fun (name, node) => do
    let tag ← (TypeTag.ofText (← format.text? node)).toOption
    return (name, tag)
  return Fields.ofPairs tagged

/-- Reads a section. -/
def readSection? (node : α) : Option SectionFile := do
  let fields ← format.record? ["kind", "properties", "indexes", "items"] node
  let kind ← fields.read? "kind" none fun node => (format.choice? node).bind Kind.ofName?
  let properties ← fields.read? "properties" (some none)
    (format.optional? (readProperties? format))
  let indexes ← fields.read? "indexes" (some []) format.texts?
  let items ← fields.read? "items" none format.value?
  return ⟨kind, properties, indexes, items⟩

/-- Reads sections; a repeated one keeps its first place and is the last one given. -/
def readSections? (node : α) : Option (Fields SectionFile) := do
  let members ← format.members? node
  let sections ← members.mapM fun (name, node) => (readSection? format node).map fun s => (name, s)
  return Fields.ofPairs sections

/-- Reads a dataset. -/
def read? (node : α) : Option DatasetFile := do
  let fields ← format.record? ["title", "sections"] node
  let title ← fields.read? "title" (some none) (format.optional? format.text?)
  let sections ← fields.read? "sections" none (readSections? format)
  return ⟨title, sections⟩

/-- Reads the text of the file of a path. -/
def ofText (readers : Readers) (path : Path) (text : String) : Except RegistryFault DatasetFile :=
  if FileName.extension? path = some "json" then
    (readers.json.read (read? readers.json.format) text).mapError .malformedJson
  else (readers.yaml.read (read? readers.yaml.format) text).mapError .malformedYaml

end DatasetFile

namespace SectionFile

/-- The rows of a section: items of a dict kind by name, items of a list kind by position. -/
def rows? (file : SectionFile) : Option (List Row) :=
  match file.kind.isDict, file.items with
  | true, .object members => some (members.map fun (name, value) => (.name name, value))
  | false, .array values =>
    some (values.mapIdx fun position value => (Key.ofPosition position, value))
  | _, _ => none

/-- The fault of a section whose items have the wrong form. -/
def wrongItems (id : String) (kind : Kind) : RegistryFault :=
  .invalid id (kind.name ++ " items must be an " ++ if kind.isDict then "object" else "array")

/-- Declares the properties of a section, if it has any. -/
def declare (file : SectionFile) (stored : Stored) : Stored :=
  match file.properties with
  | some properties => stored.withProperties properties
  | none => stored

/-- Builds the collection of a section. -/
def build (id : String) (file : SectionFile) : Except RegistryFault Stored :=
  match file.rows? with
  | none => .error (wrongItems id file.kind)
  | some rows =>
    match (Stored.ofRows id file.kind rows).bind fun stored =>
        file.indexes.foldlM Stored.withIndex (file.declare stored) with
    | .ok stored => .ok stored
    | .error fault => .error (.algebra fault)

end SectionFile

namespace Dataset

/-- Builds the sections of a dataset, in order. -/
def buildSections (dataset : String) :
    List (String × SectionFile) → Except RegistryFault (List (String × Stored))
  | [] => .ok []
  | (name, file) :: rest => do
    let stored ← file.build (dataset ++ "." ++ name)
    let others ← buildSections dataset rest
    return (name, stored) :: others

/-- Builds the dataset of a file. -/
def ofFile (name : String) (file : DatasetFile) : Except RegistryFault Dataset := do
  let sections ← buildSections name file.sections
  return ⟨name, file.title, sections⟩

/-- The text of a file's bytes, which have to be UTF-8.  If there are none, the system says why. -/
def textOf : Except String ByteArray → Except RegistryFault String
  | .error reason => .error (.unreadable reason)
  | .ok bytes =>
    match String.fromUTF8? bytes with
    | some text => .ok text
    | none => .error (.unreadable "stream did not contain valid UTF-8")

/-- Loads the dataset of a file, given its path and its bytes. -/
def load (readers : Readers) (path : Path) (contents : Except String ByteArray) :
    Except RegistryFault Dataset :=
  match FileName.stem? path with
  | none => .error (.invalid path.text "file name is not valid UTF-8")
  | some name => do
    let text ← textOf contents
    let file ← DatasetFile.ofText readers path text
    ofFile name file

end Dataset

/-- A file of a directory: its path and its bytes, or why they cannot be read. -/
abbrev DirectoryFile := Path × Except String ByteArray

namespace Registry

/-- The extensions of dataset files. -/
def extensions : List String := ["json", "yaml", "yml"]

/-- Registers the dataset of a file, if it can be loaded. -/
def addFile (readers : Readers) (registry : Registry) (file : DirectoryFile) : Registry :=
  match Dataset.load readers file.1 file.2 with
  | .ok dataset => registry.register dataset
  | .error _ => registry

/-- The files that hold datasets, in the order of their paths. -/
def datasetFiles (files : List DirectoryFile) : List DirectoryFile :=
  (files.filter fun file => (FileName.extension? file.1).any extensions.contains).mergeSort
    fun a b => !decide (b.1 < a.1)

/-- The registry of the files of a directory.  If it cannot be listed, the system says why. -/
def ofDirectory (readers : Readers) :
    Except String (List DirectoryFile) → Except RegistryFault Registry
  | .error reason => .error (.unreadable reason)
  | .ok files => .ok ((datasetFiles files).foldl (addFile readers) empty)

end Registry

end TableQuery
