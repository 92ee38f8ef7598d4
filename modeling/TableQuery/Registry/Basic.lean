import TableQuery.Collection.Stored
import TableQuery.Query.Build

/-!
# Datasets and their registry

A dataset is a named group of stored collections, its *sections*.  A registry holds datasets in the
order of their names, at most one of each name.  Registering a dataset replaces the one of the same name.

To queries a registry is a catalog.  There an unknown dataset and an unknown section are the same fault.
-/

namespace TableQuery

/-- A named group of collections. -/
structure Dataset where
  name : String
  title : Option String
  sections : Fields Stored

/-- What can go wrong with datasets. -/
inductive RegistryFault where
  | unknownDataset (name : String)
  | unknownSection (dataset sectionName : String)
  /-- A file or a directory cannot be read, for a reason that the system gives. -/
  | unreadable (reason : String)
  /-- A file is not read as a dataset, and this is what the reader of JSON says about it. -/
  | malformedJson (complaint : String)
  /-- A file is not read as a dataset, and this is what the reader of YAML says about it. -/
  | malformedYaml (complaint : String)
  /-- A dataset cannot be used. -/
  | invalid (dataset reason : String)
  | algebra (fault : Fault)
  deriving DecidableEq

/-- What is told to the user, where malformed keys are explained. -/
def RegistryFault.message (explain : String → String) : RegistryFault → String
  | unknownDataset name => "Dataset not found: " ++ name
  | unknownSection dataset sectionName => "Section not found: " ++ dataset ++ "." ++ sectionName
  | unreadable reason => "Failed to read dataset file: " ++ reason
  | malformedJson complaint => "Failed to parse JSON: " ++ complaint
  | malformedYaml complaint => "Failed to parse YAML: " ++ complaint
  | invalid dataset reason => "Invalid dataset " ++ dataset ++ ": " ++ reason
  | algebra fault => fault.message explain

/-- The section of a dataset. -/
def Dataset.section? (dataset : Dataset) (sectionName : String) : Except RegistryFault Stored :=
  match dataset.sections.get? sectionName with
  | some stored => .ok stored
  | none => .error (.unknownSection dataset.name sectionName)

/-- Datasets in order of name. -/
structure Registry where
  datasets : List Dataset
  /-- Their names increase. -/
  ordered : datasets.Pairwise fun a b => a.name < b.name

namespace Registry

/-- The registry without datasets. -/
def empty : Registry := ⟨[], .nil⟩

/-- Puts a dataset where its name belongs, in place of one of the same name. -/
def place (dataset : Dataset) : List Dataset → List Dataset
  | [] => [dataset]
  | other :: rest =>
    if dataset.name < other.name then dataset :: other :: rest
    else if dataset.name = other.name then dataset :: rest
    else other :: place dataset rest

theorem mem_place {dataset other : Dataset} {datasets : List Dataset}
    (h : other ∈ place dataset datasets) : other = dataset ∨ other ∈ datasets := by
  induction datasets with
  | nil => simpa [place] using h
  | cons first rest ih =>
    rw [place] at h
    split at h
    · simpa using h
    · split at h
      · rcases List.mem_cons.1 h with rfl | h
        · exact .inl rfl
        · exact .inr (List.mem_cons_of_mem _ h)
      · rcases List.mem_cons.1 h with rfl | h
        · exact .inr List.mem_cons_self
        · exact (ih h).imp id (List.mem_cons_of_mem _)

theorem ordered_place {datasets : List Dataset} (dataset : Dataset)
    (ordered : datasets.Pairwise fun a b => a.name < b.name) :
    (place dataset datasets).Pairwise fun a b => a.name < b.name := by
  induction datasets with
  | nil => simp [place]
  | cons first rest ih =>
    obtain ⟨above, later⟩ := List.pairwise_cons.1 ordered
    rw [place]
    split
    · next less =>
      refine List.pairwise_cons.2 ⟨fun other h => ?_, ordered⟩
      rcases List.mem_cons.1 h with rfl | h
      · exact less
      · exact String.lt_trans less (above other h)
    · next notLess =>
      split
      · next same => exact List.pairwise_cons.2 ⟨fun other h => same ▸ above other h, later⟩
      · next different =>
        refine List.pairwise_cons.2 ⟨fun other h => ?_, ih later⟩
        rcases mem_place h with rfl | h
        · exact Std.lt_of_le_of_ne (String.not_lt.1 notLess) fun same => different same.symm
        · exact above other h

/-- Registers a dataset. -/
def register (registry : Registry) (dataset : Dataset) : Registry :=
  ⟨place dataset registry.datasets, ordered_place dataset registry.ordered⟩

/-- The dataset of a name. -/
def dataset? (registry : Registry) (name : String) : Except RegistryFault Dataset :=
  match registry.datasets.find? fun dataset => dataset.name == name with
  | some dataset => .ok dataset
  | none => .error (.unknownDataset name)

/-- The section of a dataset. -/
def section? (registry : Registry) (dataset sectionName : String) : Except RegistryFault Stored :=
  (registry.dataset? dataset).bind fun dataset => dataset.section? sectionName

/-- Whether a dataset of that name is registered. -/
def has (registry : Registry) (name : String) : Bool :=
  registry.datasets.any fun dataset => dataset.name == name

/-- The number of datasets. -/
def size (registry : Registry) : Nat := registry.datasets.length

/-- The registry as the catalog of queries. -/
def catalog (registry : Registry) : Catalog where
  knows := registry.has
  collection dataset sectionName :=
    match registry.section? dataset sectionName with
    | .ok stored => .ok stored.toCollection
    | .error _ => .error (.unknownCollection (dataset ++ "." ++ sectionName))

end Registry

end TableQuery
