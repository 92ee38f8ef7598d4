import TableQuery.Proofs.Query.Compile

/-!
# Queries after a registration

A catalog extends another one if it knows what the other knows and has the same collections for it
(`Catalog.Extends`).  A source that compiles with a catalog compiles to the same query with every
extension (`compile_of_extends`).  What has to be shown is that a name that becomes known cannot draw
the parser to an earlier alternative.  It tries a section of a dataset before all else, and the new name
may well be a keyword.  But the parser finds whatever derives from the lexemes, in whatever order it
tries (`parse_eq_ok_iff`).  A derivation asks that the names of datasets be known, and never that a name
be unknown.

Registering a dataset of a new name extends the catalog of a registry, so it leaves all compiled queries
as they are (`Registry.compile_register`).
-/

namespace TableQuery

/-! ## Deriving with more names -/

namespace Grammar

variable {knows more : String → Bool} {before after : List Lexeme}

/-- What derives from lexemes still derives if more names are known. -/
theorem IsTable.mono (hmore : ∀ name, knows name = true → more name = true) {table : Table}
    (h : IsTable knows before table after) : IsTable more before table after := by
  induction h with
  | collection hdataset => exact .collection (hmore _ hdataset)
  | fieldJoin _ _ ihl ihr => exact .fieldJoin ihl ihr
  | predicateJoin _ _ hpredicate ihl ihr => exact .predicateJoin ihl ihr hpredicate
  | spatialJoin _ _ ihl ihr => exact .spatialJoin ihl ihr
  | union _ _ ihl ihr => exact .union ihl ihr
  | product _ _ ihl ihr => exact .product ihl ihr
  | projection _ hpairs ih => exact .projection ih hpairs
  | selection hpredicate _ ih => exact .selection hpredicate ih

theorem IsProgram.mono (hmore : ∀ name, knows name = true → more name = true) {program : Program}
    (h : IsProgram knows before program) : IsProgram more before program := by
  cases h with
  | display hinput => exact .display (hinput.mono hmore)
  | draw hdataset => exact .draw (hmore _ hdataset)
  | table hinput => exact .table (hinput.mono hmore)

end Grammar

theorem parse_of_more_names {knows more : String → Bool}
    (hmore : ∀ name, knows name = true → more name = true) {source : String} {program : Program}
    (h : parse knows source = .ok program) : parse more source = .ok program := by
  obtain ⟨tokens, htokens, hprogram⟩ := parse_eq_ok_iff.mp h
  exact parse_eq_ok_iff.mpr ⟨tokens, htokens, hprogram.mono hmore⟩

/-! ## Extending a catalog -/

/-- A catalog knows what another one knows and has the same collections for it. -/
structure Catalog.Extends (larger smaller : Catalog) : Prop where
  knows : ∀ name, smaller.knows name = true → larger.knows name = true
  collection : ∀ dataset sectionName source, smaller.collection dataset sectionName = .ok source →
    larger.collection dataset sectionName = .ok source

variable {larger smaller : Catalog}

theorem Table.Builds.of_extends (hextends : larger.Extends smaller) {table : Table} {tree : Operator}
    (h : table.Builds smaller tree) : table.Builds larger tree := by
  induction h with
  | collection hsource => exact .collection (hextends.collection _ _ _ hsource)
  | fieldJoin _ _ htree ihl ihr => exact .fieldJoin ihl ihr htree
  | predicateJoin _ _ htree ihl ihr => exact .predicateJoin ihl ihr htree
  | product _ _ htree ihl ihr => exact .product ihl ihr htree
  | projection _ htree ih => exact .projection ih htree
  | selection _ htree ih => exact .selection ih htree

theorem Query.ofProgram_of_extends (hextends : larger.Extends smaller) {program : Program}
    {query : Query} (h : Query.ofProgram smaller program = .ok query) :
    Query.ofProgram larger program = .ok query := by
  have hbuild : ∀ {table : Table} {tree : Operator}, table.build smaller = .ok tree →
      table.build larger = .ok tree := fun h =>
    Table.build_eq_ok_iff.mpr ((Table.build_eq_ok_iff.mp h).of_extends hextends)
  cases program with
  | draw dataset => exact h
  | display input | table input =>
    obtain ⟨tree, htree, hquery⟩ := bind_eq_ok_iff.mp h
    exact bind_eq_ok_iff.mpr ⟨tree, hbuild htree, hquery⟩

/-- A compiled query is the same with every extension of the catalog. -/
theorem compile_of_extends (hextends : larger.Extends smaller) {source : String} {query : Query}
    (h : compile smaller source = .ok query) : compile larger source = .ok query := by
  obtain ⟨program, hparse, hquery⟩ := compile_eq_ok_iff.mp h
  exact compile_eq_ok_iff.mpr ⟨program, parse_of_more_names hextends.knows hparse,
    Query.ofProgram_of_extends hextends hquery⟩

/-! ## Registering a dataset -/

theorem Registry.section?_eq_ok_iff {registry : Registry} {dataset sectionName : String}
    {stored : Stored} : registry.section? dataset sectionName = .ok stored ↔
      ∃ found, registry.dataset? dataset = .ok found ∧ found.section? sectionName = .ok stored := by
  rw [Registry.section?]
  cases registry.dataset? dataset <;> simp [Except.bind]

namespace Registry

variable {registry : Registry} {dataset : Dataset} {name : String}

theorem has_eq_true_iff : registry.has name = true ↔ ∃ found, registry.dataset? name = .ok found := by
  rw [has, List.any_eq_true, dataset?]
  cases hfind : registry.datasets.find? fun dataset => dataset.name == name with
  | none => simpa using hfind
  | some found =>
    have hname := List.find?_some hfind
    rw [beq_iff_eq] at hname
    simpa using ⟨found, List.mem_of_find?_eq_some hfind, hname⟩

theorem find?_cons_of_ne (hne : dataset.name ≠ name) (rest : List Dataset) :
    (dataset :: rest).find? (fun other => other.name == name) =
      rest.find? fun other => other.name == name :=
  List.find?_cons_of_neg (by simpa using hne)

theorem find?_place_of_ne (hne : dataset.name ≠ name) (datasets : List Dataset) :
    (place dataset datasets).find? (fun other => other.name == name) =
      datasets.find? fun other => other.name == name := by
  induction datasets with
  | nil => exact find?_cons_of_ne hne []
  | cons first rest ih =>
    rw [place]
    split
    next => exact find?_cons_of_ne hne (first :: rest)
    next =>
      split
      next hsame => rw [find?_cons_of_ne hne, find?_cons_of_ne (hsame ▸ hne)]
      next => rw [List.find?_cons, List.find?_cons, ih]

theorem find?_place_self (dataset : Dataset) (datasets : List Dataset) :
    (place dataset datasets).find? (fun other => other.name == dataset.name) = some dataset := by
  have hhead : ∀ rest, (dataset :: rest).find? (fun other => other.name == dataset.name) =
      some dataset := fun rest => List.find?_cons_of_pos (beq_self_eq_true _)
  induction datasets with
  | nil => exact hhead []
  | cons first rest ih =>
    rw [place]
    split
    next => exact hhead (first :: rest)
    next =>
      split
      next => exact hhead rest
      next hne => rw [find?_cons_of_ne (Ne.symm hne), ih]

theorem dataset?_register_self (registry : Registry) (dataset : Dataset) :
    (registry.register dataset).dataset? dataset.name = .ok dataset := by
  rw [dataset?, register, find?_place_self]

theorem dataset?_register_of_ne (hne : dataset.name ≠ name) :
    (registry.register dataset).dataset? name = registry.dataset? name := by
  rw [dataset?, dataset?, register, find?_place_of_ne hne]

/-- A dataset of a new name leaves those that are registered in place. -/
theorem dataset?_register_of_ok (hfresh : registry.has dataset.name = false) {found : Dataset}
    (h : registry.dataset? name = .ok found) :
    (registry.register dataset).dataset? name = .ok found := by
  have hne : dataset.name ≠ name := by
    rintro rfl
    rw [has_eq_true_iff.mpr ⟨found, h⟩] at hfresh
    cases hfresh
  rw [dataset?_register_of_ne hne, h]

theorem extends_catalog_register (hfresh : registry.has dataset.name = false) :
    (registry.register dataset).catalog.Extends registry.catalog where
  knows := by
    intro name hname
    obtain ⟨found, hfound⟩ := has_eq_true_iff.mp hname
    exact has_eq_true_iff.mpr ⟨found, dataset?_register_of_ok hfresh hfound⟩
  collection := by
    intro datasetName sectionName source hsource
    obtain ⟨stored, hstored, rfl⟩ := exists_section_of_collection hsource
    obtain ⟨found, hfound, hsection⟩ := Registry.section?_eq_ok_iff.mp hstored
    have hregistered : (registry.register dataset).section? datasetName sectionName = .ok stored :=
      Registry.section?_eq_ok_iff.mpr ⟨found, dataset?_register_of_ok hfresh hfound, hsection⟩
    simp only [catalog, hregistered]

/-- A dataset of a new name is found after it is registered, and every source that compiled before
compiles to the same query. -/
theorem compile_register (hfresh : registry.has dataset.name = false) :
    (registry.register dataset).dataset? dataset.name = .ok dataset ∧
      ∀ source query, compile registry.catalog source = .ok query →
        compile (registry.register dataset).catalog source = .ok query :=
  ⟨dataset?_register_self registry dataset,
    fun _ _ h => compile_of_extends (extends_catalog_register hfresh) h⟩

/-- A dataset named like an operator. -/
def selectDataset : Dataset := ⟨"select", none, [("s", readings)]⟩

/-- The source uses the operator that the dataset is named like. -/
theorem compile_register_of_keyword :
    (ofSection readings).has selectDataset.name = false ∧
      ((ofSection readings).register selectDataset).dataset? "select" = .ok selectDataset ∧
      ∃ query, compile (ofSection readings).catalog "display(select(x != 2, d.s))" = .ok query ∧
        compile ((ofSection readings).register selectDataset).catalog "display(select(x != 2, d.s))" =
          .ok query := by
  have hfresh : (ofSection readings).has selectDataset.name = false := by decide +kernel
  have hbuild : (Table.selection ⟨"x", .notEqual, .constant (.number (.integer 2 (by decide)))⟩
      (.collection "d" "s")).build (ofSection readings).catalog = .ok (.selection
        ⟨"x", .notEqual, .constant (.number (.integer 2 (by decide)))⟩ (.leaf readings.toCollection)) :=
    rfl
  have hcompile : compile (ofSection readings).catalog "display(select(x != 2, d.s))" = .ok (.display _) :=
    compile_eq_ok_iff.mpr ⟨.display _, by decide +kernel, bind_eq_ok_iff.mpr ⟨_, hbuild, rfl⟩⟩
  obtain ⟨hfound, hsame⟩ := compile_register hfresh
  exact ⟨hfresh, hfound, _, hcompile, hsame _ _ hcompile⟩

end Registry

end TableQuery
