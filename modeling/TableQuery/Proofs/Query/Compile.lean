import TableQuery.Proofs.Operator.Tree
import TableQuery.Proofs.Query.RoundTrip
import TableQuery.Query.Basic
import TableQuery.Registry.Basic

/-!
# Compiled queries and their ids

`Table.Builds` says how the collection of a table expression is built, with one constructor for each
operator that can be built.  It is all that `Table.build` does (`Table.builds_of_build`).

If the collection of a section has the id of the section, the id of what is built is the text of the
expression (`Table.Builds.id_eq`).  That text is parsed as the expression.  So an id can be compiled,
which gives the same tree again, and sources with equal ids describe the same tree
(`Registry.compile_id`).
-/

namespace TableQuery

/-! ## Building -/

/-- A table expression builds a tree of operators. -/
inductive Table.Builds (catalog : Catalog) : Table → Operator → Prop where
  | collection {dataset sectionName : String} {source : Collection} :
      catalog.collection dataset sectionName = .ok source →
      Builds catalog (.collection dataset sectionName) (.leaf source)
  | fieldJoin {join : JoinType} {left right : Table} {leftField rightField : String}
      {leftTree rightTree tree : Operator} :
      Builds catalog left leftTree → Builds catalog right rightTree →
      Operator.joinOnFields join leftTree leftField rightTree rightField = .ok tree →
      Builds catalog (.fieldJoin join left leftField right rightField) tree
  | predicateJoin {join : JoinType} {left right : Table} {predicate : Predicate}
      {leftTree rightTree tree : Operator} :
      Builds catalog left leftTree → Builds catalog right rightTree →
      Operator.joinOnPredicate join leftTree rightTree predicate = .ok tree →
      Builds catalog (.predicateJoin join left right predicate) tree
  | product {left right : Table} {leftTree rightTree tree : Operator} :
      Builds catalog left leftTree → Builds catalog right rightTree →
      Operator.cross leftTree rightTree = .ok tree → Builds catalog (.product left right) tree
  | projection {input : Table} {pairs : FieldPairs} {inputTree tree : Operator} :
      Builds catalog input inputTree → inputTree.project pairs = .ok tree →
      Builds catalog (.projection input pairs) tree
  | selection {predicate : Predicate} {input : Table} {inputTree tree : Operator} :
      Builds catalog input inputTree → Operator.select predicate inputTree = .ok tree →
      Builds catalog (.selection predicate input) tree

variable {catalog : Catalog}

theorem Table.builds_of_build {table : Table} {tree : Operator}
    (h : table.build catalog = .ok tree) : table.Builds catalog tree := by
  induction table generalizing tree with
  | collection dataset sectionName =>
    rw [Table.build, bind_eq_ok_iff] at h
    obtain ⟨source, hsource, htree⟩ := h
    cases htree
    exact .collection hsource
  | fieldJoin join left leftField right rightField ihl ihr =>
    simp only [Table.build, bind_eq_ok_iff] at h
    obtain ⟨leftTree, hleft, rightTree, hright, htree⟩ := h
    exact .fieldJoin (ihl hleft) (ihr hright) htree
  | predicateJoin join left right predicate ihl ihr =>
    simp only [Table.build, bind_eq_ok_iff] at h
    obtain ⟨leftTree, hleft, rightTree, hright, htree⟩ := h
    exact .predicateJoin (ihl hleft) (ihr hright) htree
  | spatialJoin => cases h
  | union => cases h
  | product left right ihl ihr =>
    simp only [Table.build, bind_eq_ok_iff] at h
    obtain ⟨leftTree, hleft, rightTree, hright, htree⟩ := h
    exact .product (ihl hleft) (ihr hright) htree
  | projection input pairs ih =>
    simp only [Table.build, bind_eq_ok_iff] at h
    obtain ⟨inputTree, hinput, htree⟩ := h
    exact .projection (ih hinput) htree
  | selection predicate input ih =>
    simp only [Table.build, bind_eq_ok_iff] at h
    obtain ⟨inputTree, hinput, htree⟩ := h
    exact .selection (ih hinput) htree

theorem Table.build_eq_ok_iff {table : Table} {tree : Operator} :
    table.build catalog = .ok tree ↔ table.Builds catalog tree := by
  constructor
  · exact Table.builds_of_build
  · intro h
    induction h with
    | collection hsource =>
      rw [Table.build, bind_eq_ok_iff]
      exact ⟨_, hsource, rfl⟩
    | fieldJoin _ _ htree ihl ihr | predicateJoin _ _ htree ihl ihr | product _ _ htree ihl ihr =>
      simp only [Table.build, bind_eq_ok_iff]
      exact ⟨_, ihl, _, ihr, htree⟩
    | projection _ htree ih | selection _ htree ih =>
      simp only [Table.build, bind_eq_ok_iff]
      exact ⟨_, ih, htree⟩

/-- What is built of leaves of some sort is a built tree over these leaves. -/
theorem Table.Builds.built {Leaf : Collection → Prop}
    (leaves : ∀ dataset sectionName source, catalog.collection dataset sectionName = .ok source →
      Leaf source) {table : Table} {tree : Operator} (h : table.Builds catalog tree) :
    Operator.Built Leaf tree := by
  induction h with
  | collection hsource => exact .leaf (leaves _ _ _ hsource)
  | fieldJoin _ _ htree ihl ihr => exact .joinOnFields ihl ihr htree
  | predicateJoin _ _ htree ihl ihr => exact .joinOnPredicate ihl ihr htree
  | product _ _ htree ihl ihr => exact .cross ihl ihr htree
  | projection _ htree ih => exact .project ih htree
  | selection _ htree ih => exact .select ih htree

/-- The id of a tree is the text of the table expression, if this is so for its leaves. -/
theorem Table.Builds.id_eq
    (hids : ∀ dataset sectionName source, catalog.collection dataset sectionName = .ok source →
      source.id = dataset ++ "." ++ sectionName) {table : Table} {tree : Operator}
    (h : table.Builds catalog tree) : tree.id = table.text := by
  induction h with
  | collection hsource => exact hids _ _ _ hsource
  | fieldJoin _ _ htree ihl ihr =>
    obtain ⟨_, _, rfl⟩ := Operator.joinOnFields_eq_ok_iff.mp htree
    rw [Table.text, ← ihl, ← ihr]
    rfl
  | predicateJoin _ _ htree ihl ihr =>
    obtain ⟨rfl, _, _, _, rfl⟩ := Operator.joinOnPredicate_eq_ok_iff.mp htree
    rw [Table.text, ← ihl, ← ihr]
    rfl
  | product _ _ htree ihl ihr =>
    obtain ⟨_, _, rfl⟩ := Operator.cross_eq_ok_iff.mp htree
    rw [Table.text, ← ihl, ← ihr]
    rfl
  | projection _ htree ih =>
    obtain ⟨_, rfl⟩ := Operator.project_eq_ok_iff.mp htree
    rw [Table.text, ← ih]
    rfl
  | selection _ htree ih =>
    obtain ⟨_, rfl⟩ := Operator.select_eq_ok_iff.mp htree
    rw [Table.text, ← ih]
    rfl

/-! ## Compiling -/

/-- The table expression of a program that reads one. -/
def Program.input? : Program → Option Table
  | display input | table input => some input
  | draw _ => none

/-- A source is a program that reads the collection of a table expression. -/
def Source.Describes (knows : String → Bool) (source : String) (table : Table) : Prop :=
  ∃ program, parse knows source = .ok program ∧ program.input? = some table

theorem compile_eq_ok_iff {source : String} {query : Query} :
    compile catalog source = .ok query ↔
      ∃ program, parse catalog.knows source = .ok program ∧
        Query.ofProgram catalog program = .ok query := by
  rw [compile]
  cases parse catalog.knows source with
  | error failure => simp
  | ok program =>
    cases hquery : Query.ofProgram catalog program with
    | error fault => simp [hquery]
    | ok query => simp [hquery]

/-- A compiled query reads what the table expression of its source builds. -/
theorem exists_build_of_compile {source : String} {query : Query} {tree : Operator}
    (hcompile : compile catalog source = .ok query) (htree : query.operator = .ok tree) :
    ∃ table, Source.Describes catalog.knows source table ∧ table.build catalog = .ok tree := by
  obtain ⟨program, hparse, hquery⟩ := compile_eq_ok_iff.mp hcompile
  cases program with
  | draw dataset =>
    cases hquery
    cases htree
  | display input =>
    obtain ⟨built, hbuild, hquery⟩ := bind_eq_ok_iff.mp hquery
    cases hquery
    cases htree
    exact ⟨input, ⟨_, hparse, rfl⟩, hbuild⟩
  | table input =>
    obtain ⟨built, hbuild, hquery⟩ := bind_eq_ok_iff.mp hquery
    cases hquery
    cases htree
    exact ⟨input, ⟨_, hparse, rfl⟩, hbuild⟩

/-- The text of a table expression that a source has is parsed as this expression alone. -/
theorem parse_text_of_describes {knows : String → Bool} {source : String} {table : Table}
    (h : Source.Describes knows source table) : parse knows table.text = .ok (.table table) := by
  obtain ⟨program, hparse, hinput⟩ := h
  have hlegible := legible_of_parse hparse
  cases program with
  | draw dataset => cases hinput
  | display input | table input =>
    cases hinput
    exact parse_text_table hlegible

/-- The text of a table expression that builds compiles to what it builds. -/
theorem compile_text_of_build {source : String} {table : Table} {tree : Operator}
    (hdescribes : Source.Describes catalog.knows source table)
    (hbuild : table.build catalog = .ok tree) : compile catalog table.text = .ok (.table tree) := by
  refine compile_eq_ok_iff.mpr ⟨_, parse_text_of_describes hdescribes, ?_⟩
  exact bind_eq_ok_iff.mpr ⟨tree, hbuild, rfl⟩

theorem Registry.exists_section_of_collection {registry : Registry} {dataset sectionName : String}
    {source : Collection} (h : registry.catalog.collection dataset sectionName = .ok source) :
    ∃ stored, registry.section? dataset sectionName = .ok stored ∧ stored.toCollection = source := by
  simp only [Registry.catalog] at h
  split at h
  next stored hstored => exact ⟨stored, hstored, Except.ok.inj h⟩
  next => cases h

/-- If the collection of a section has the id of the section, the id of a compiled collection is the
text of the table expression, it compiles to the same collection, and sources with equal ids have
equal table expressions and collections. -/
theorem Registry.compile_id {registry : Registry}
    (hids : ∀ dataset sectionName stored, registry.section? dataset sectionName = .ok stored →
      stored.id = dataset ++ "." ++ sectionName) {source : String} {query : Query} {tree : Operator}
    (hcompile : compile registry.catalog source = .ok query) (htree : query.operator = .ok tree) :
    ∃ table, Source.Describes registry.has source table ∧ tree.id = table.text ∧
      compile registry.catalog tree.id = .ok (.table tree) ∧
      ∀ source' query' tree', compile registry.catalog source' = .ok query' →
        query'.operator = .ok tree' → tree'.id = tree.id →
        Source.Describes registry.has source' table ∧ tree' = tree := by
  have hid : ∀ {table : Table} {tree : Operator}, table.build registry.catalog = .ok tree →
      tree.id = table.text := fun hbuild => by
    refine (Table.builds_of_build hbuild).id_eq fun dataset sectionName source hsource => ?_
    obtain ⟨stored, hstored, rfl⟩ := exists_section_of_collection hsource
    exact hids dataset sectionName stored hstored
  obtain ⟨table, hdescribes, hbuild⟩ := exists_build_of_compile hcompile htree
  refine ⟨table, hdescribes, hid hbuild, ?_, ?_⟩
  · rw [hid hbuild]
    exact compile_text_of_build hdescribes hbuild
  · intro source' query' tree' hcompile' htree' hsame
    obtain ⟨table', hdescribes', hbuild'⟩ := exists_build_of_compile hcompile' htree'
    have htext : table'.text = table.text := by
      rw [← hid hbuild', hsame, hid hbuild]
    have hparse' := parse_text_of_describes hdescribes'
    rw [htext, parse_text_of_describes hdescribes] at hparse'
    cases hparse'
    exact ⟨hdescribes', Except.ok.inj (hbuild'.symm.trans hbuild)⟩

/-- A section that has its name as its id. -/
def readings : Stored :=
  Stored.ofTuples "d.s" [("x", .number)] [(.name "a", [("x", .number (.integer 1 (by decide)))])] []

/-- A registry of one section. -/
def Registry.ofSection (stored : Stored) : Registry :=
  Registry.empty.register ⟨"d", none, [("s", stored)]⟩

/-- Two sources that differ in their spelling and in what is done with the table. -/
theorem Registry.compile_id_of_spellings :
    ∃ tree table, compile (ofSection readings).catalog "display( select(x != 02, d.s) )" = .ok (.display tree) ∧
      compile (ofSection readings).catalog "select(x<>2,d.s)" = .ok (.table tree) ∧
      Source.Describes (ofSection readings).has "display( select(x != 02, d.s) )" table ∧
      tree.id = table.text ∧ table.text = "select(x<>2,d.s)" ∧
      compile (ofSection readings).catalog tree.id = .ok (.table tree) ∧
      Source.Describes (ofSection readings).has "select(x<>2,d.s)" table := by
  have hids : ∀ dataset sectionName stored, (ofSection readings).section? dataset sectionName = .ok stored →
      stored.id = dataset ++ "." ++ sectionName := by
    intro dataset sectionName stored h
    by_cases hdataset : "d" = dataset
    · by_cases hsection : "s" = sectionName
      · subst hdataset hsection
        cases h
        rfl
      · subst hdataset
        simp [section?, dataset?, ofSection, register, empty, place, Dataset.section?, Except.bind,
          Fields.get?, hsection] at h
    · simp [section?, dataset?, ofSection, register, empty, place, Except.bind, hdataset] at h
  have hbuild : (Table.selection ⟨"x", .notEqual, .constant (.number (.integer 2 (by decide)))⟩
      (.collection "d" "s")).build (ofSection readings).catalog = .ok (.selection
        ⟨"x", .notEqual, .constant (.number (.integer 2 (by decide)))⟩ (.leaf readings.toCollection)) :=
    rfl
  have hdisplay : compile (ofSection readings).catalog "display( select(x != 02, d.s) )" = .ok (.display _) :=
    compile_eq_ok_iff.mpr ⟨.display _, by decide +kernel, bind_eq_ok_iff.mpr ⟨_, hbuild, rfl⟩⟩
  have htable : compile (ofSection readings).catalog "select(x<>2,d.s)" = .ok (.table _) :=
    compile_eq_ok_iff.mpr ⟨.table _, by decide +kernel, bind_eq_ok_iff.mpr ⟨_, hbuild, rfl⟩⟩
  obtain ⟨table, hdescribes, hid, hsame, hall⟩ := compile_id hids hdisplay rfl
  refine ⟨_, table, hdisplay, htable, hdescribes, hid, ?_, hsame, (hall _ _ _ htable rfl rfl).1⟩
  rw [← hid]
  decide +kernel

end TableQuery
