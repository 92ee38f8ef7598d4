import TableQuery.Proofs.Operator.Failure
import TableQuery.Proofs.Query.Registration

/-!
# When building fails

A table expression over a registry fails to build exactly if one of its nodes is blocked
(`Registry.build_fails_iff`).  `Table.Blocked` lists the ways, and looks at a node, the kinds of its
inputs and the schema of its inputs, never at a row.

The schema of a node is read off the expression (`Table.schema`), also where an input is blocked and
nothing is built.  Where a node builds, it is the schema of what is built (`Table.Builds.properties_eq`).

A node builds exactly if it is not blocked and its inputs build (`Table.exists_builds_iff`).  The theorem
follows by induction on the expression.
-/

namespace TableQuery

/-! ## Strategies -/

theorem JoinStrategy.has_of_originOf {schema : MergedSchema} {name : String} {origin : Origin}
    (h : originOf schema name = .ok origin) : schema.has name = true := by
  rw [Fields.has, originOf_eq_ok_iff.mp h]
  rfl

theorem JoinStrategy.exists_originOf {schema : MergedSchema} {name : String}
    (h : schema.has name = true) : ∃ origin, originOf schema name = .ok origin := by
  obtain ⟨origin, horigin⟩ := Option.isSome_iff_exists.mp h
  exact ⟨origin, originOf_eq_ok_iff.mpr horigin⟩

/-- A join has a strategy unless its predicate is an equation that names an unknown field. -/
theorem JoinStrategy.exists_choose_iff {schema : MergedSchema} {predicate : Predicate} :
    (∃ chosen, choose schema predicate = .ok chosen) ↔
      (predicate.comparator = .equal → ∀ field ∈ predicate.fieldsRead, schema.has field = true) := by
  rw [choose]
  split
  next hequal =>
    simp only [hequal, true_implies, bind_eq_ok_iff]
    cases hoperand : predicate.operand with
    | constant value =>
      have hfields : predicate.fieldsRead = [predicate.field] := by
        simp [Predicate.fieldsRead, Predicate.otherField?, hoperand]
      rw [hfields, List.forall_mem_singleton]
      constructor
      · rintro ⟨_, first, hfirst, _⟩
        exact has_of_originOf hfirst
      · intro hfield
        obtain ⟨first, hfirst⟩ := exists_originOf hfield
        exact ⟨_, first, hfirst, rfl⟩
    | field name =>
      have hfields : predicate.fieldsRead = [predicate.field, name] := by
        simp [Predicate.fieldsRead, Predicate.otherField?, hoperand]
      rw [hfields, List.forall_mem_cons, List.forall_mem_singleton]
      constructor
      · rintro ⟨_, first, hfirst, hchosen⟩
        obtain ⟨second, hsecond, _⟩ := bind_eq_ok_iff.mp hchosen
        exact ⟨has_of_originOf hfirst, has_of_originOf hsecond⟩
      · rintro ⟨hfield, hname⟩
        obtain ⟨first, hfirst⟩ := exists_originOf hfield
        obtain ⟨second, hsecond⟩ := exists_originOf hname
        exact ⟨_, first, hfirst, bind_eq_ok_iff.mpr ⟨second, hsecond, rfl⟩⟩
  next hother =>
    exact iff_of_true ⟨_, rfl⟩ fun hequal => absurd hequal hother

/-! ## Sections -/

namespace Registry

variable {registry : Registry} {dataset sectionName : String}

/-- A registry has the sections that its datasets have. -/
theorem exists_section_iff : (∃ stored, registry.section? dataset sectionName = .ok stored) ↔
    ∃ found, registry.dataset? dataset = .ok found ∧ found.sections.has sectionName = true := by
  have hsection : ∀ found : Dataset, (∃ stored, found.section? sectionName = .ok stored) ↔
      found.sections.has sectionName = true := by
    intro found
    rw [Dataset.section?, Fields.has]
    cases found.sections.get? sectionName <;> simp
  constructor
  · rintro ⟨stored, hstored⟩
    obtain ⟨found, hfound, hget⟩ := section?_eq_ok_iff.mp hstored
    exact ⟨found, hfound, (hsection found).mp ⟨stored, hget⟩⟩
  · rintro ⟨found, hfound, hhas⟩
    obtain ⟨stored, hget⟩ := (hsection found).mpr hhas
    exact ⟨stored, section?_eq_ok_iff.mpr ⟨found, hfound, hget⟩⟩

theorem collection_of_section {stored : Stored}
    (h : registry.section? dataset sectionName = .ok stored) :
    registry.catalog.collection dataset sectionName = .ok stored.toCollection := by
  simp only [catalog, h]

end Registry

namespace Table

/-! ## Nodes -/

/-- The direct inputs of a node. -/
def inputs : Table → List Table
  | collection _ _ => []
  | fieldJoin _ left _ right _ | predicateJoin _ left right _ => [left, right]
  | spatialJoin left right | union left right | product left right => [left, right]
  | projection input _ | selection _ input => [input]

/-- The nodes of a table expression, from the root down. -/
def nodes : Table → List Table
  | collection dataset sectionName => [collection dataset sectionName]
  | fieldJoin join left leftField right rightField =>
    fieldJoin join left leftField right rightField :: (left.nodes ++ right.nodes)
  | predicateJoin join left right predicate =>
    predicateJoin join left right predicate :: (left.nodes ++ right.nodes)
  | spatialJoin left right => spatialJoin left right :: (left.nodes ++ right.nodes)
  | union left right => union left right :: (left.nodes ++ right.nodes)
  | product left right => product left right :: (left.nodes ++ right.nodes)
  | projection input pairs => projection input pairs :: input.nodes
  | selection predicate input => selection predicate input :: input.nodes

theorem forall_mem_nodes {P : Table → Prop} {table : Table} : (∀ node ∈ table.nodes, P node) ↔
    P table ∧ ∀ input ∈ table.inputs, ∀ node ∈ input.nodes, P node := by
  cases table <;> simp [nodes, inputs, or_imp, forall_and]

/-- What a node inherits from its inputs holds of every table expression. -/
theorem induction_on_inputs {P : Table → Prop}
    (step : ∀ table : Table, (∀ input ∈ table.inputs, P input) → P table) (table : Table) :
    P table := by
  induction table with
  | collection => exact step _ (by simp [inputs])
  | fieldJoin _ _ _ _ _ hleft hright => exact step _ (by simp [inputs, hleft, hright])
  | predicateJoin _ _ _ _ hleft hright => exact step _ (by simp [inputs, hleft, hright])
  | spatialJoin _ _ hleft hright => exact step _ (by simp [inputs, hleft, hright])
  | union _ _ hleft hright => exact step _ (by simp [inputs, hleft, hright])
  | product _ _ hleft hright => exact step _ (by simp [inputs, hleft, hright])
  | projection _ _ hinput => exact step _ (by simp [inputs, hinput])
  | selection _ _ hinput => exact step _ (by simp [inputs, hinput])

/-- The schema of what a table expression builds; none if it cannot be built at all. -/
def schema (registry : Registry) : Table → Properties
  | collection dataset sectionName =>
    match registry.section? dataset sectionName with
    | .ok stored => stored.properties
    | .error _ => []
  | fieldJoin join left _ right _ =>
    match join with
    | .diff => left.schema registry
    | .inner | .left => (MergedSchema.merge (left.schema registry) (right.schema registry)).properties
  | predicateJoin _ left right _ | product left right =>
    (MergedSchema.merge (left.schema registry) (right.schema registry)).properties
  | projection input pairs => pairs.properties (input.schema registry)
  | selection _ input => input.schema registry
  | spatialJoin _ _ | union _ _ => []

/-- A node is a section that holds bare values. -/
def HoldsValues (registry : Registry) : Table → Prop
  | collection dataset sectionName => ∃ stored,
    registry.section? dataset sectionName = .ok stored ∧ stored.kind.hasTuples = false
  | _ => False

/-- A node cannot be built, whether its inputs can or not. -/
inductive Blocked (registry : Registry) : Table → Prop where
  | noSection {dataset sectionName : String} :
      (∀ found, registry.dataset? dataset = .ok found → found.sections.has sectionName = false) →
      Blocked registry (.collection dataset sectionName)
  | spatialJoin {left right : Table} : Blocked registry (.spatialJoin left right)
  | union {left right : Table} : Blocked registry (.union left right)
  | notInner {join : JoinType} {left right : Table} {predicate : Predicate} : join ≠ .inner →
      Blocked registry (.predicateJoin join left right predicate)
  | values {node input : Table} : input ∈ node.inputs → input.HoldsValues registry →
      Blocked registry node
  | noField {join : JoinType} {left right : Table} {predicate : Predicate} {field : String} :
      predicate.comparator = .equal → field ∈ predicate.fieldsRead →
      (MergedSchema.merge (left.schema registry) (right.schema registry)).has field = false →
      Blocked registry (.predicateJoin join left right predicate)

variable {registry : Registry} {table : Table} {tree : Operator}

/-! ## What is built -/

theorem Builds.properties_eq (h : table.Builds registry.catalog tree) :
    tree.collection.properties = table.schema registry := by
  induction h with
  | collection hsource =>
    obtain ⟨stored, hstored, rfl⟩ := Registry.exists_section_of_collection hsource
    rw [schema, hstored]
    rfl
  | @fieldJoin join _ _ _ _ _ _ _ _ _ htree ihl ihr =>
    obtain ⟨_, _, rfl⟩ := Operator.joinOnFields_eq_ok_iff.mp htree
    cases join <;> simp only [schema, ← ihl, ← ihr] <;> rfl
  | predicateJoin _ _ htree ihl ihr =>
    obtain ⟨_, _, _, _, rfl⟩ := Operator.joinOnPredicate_eq_ok_iff.mp htree
    rw [schema, ← ihl, ← ihr]
    exact Collection.properties_joinedOn _
  | product _ _ htree ihl ihr =>
    obtain ⟨_, _, rfl⟩ := Operator.cross_eq_ok_iff.mp htree
    rw [schema, ← ihl, ← ihr]
    rfl
  | projection _ htree ih =>
    obtain ⟨_, rfl⟩ := Operator.project_eq_ok_iff.mp htree
    rw [schema, ← ih]
    rfl
  | selection _ htree ih =>
    obtain ⟨_, rfl⟩ := Operator.select_eq_ok_iff.mp htree
    rw [schema, ← ih]
    rfl

/-- What is built has tuples, unless it is a section of values. -/
theorem Builds.hasTuples_iff (h : table.Builds registry.catalog tree) :
    tree.collection.kind.hasTuples = true ↔ ¬table.HoldsValues registry := by
  cases h with
  | collection hsource =>
    obtain ⟨stored, hstored, rfl⟩ := Registry.exists_section_of_collection hsource
    simp [HoldsValues, hstored, Operator.collection, Stored.toCollection]
  | fieldJoin _ _ htree =>
    obtain ⟨_, _, rfl⟩ := Operator.joinOnFields_eq_ok_iff.mp htree
    exact iff_of_true rfl id
  | predicateJoin _ _ htree =>
    obtain ⟨_, _, _, _, rfl⟩ := Operator.joinOnPredicate_eq_ok_iff.mp htree
    exact iff_of_true (congrArg Kind.hasTuples (Collection.kind_joinedOn _)) id
  | product _ _ htree =>
    obtain ⟨_, _, rfl⟩ := Operator.cross_eq_ok_iff.mp htree
    exact iff_of_true rfl id
  | projection _ htree =>
    obtain ⟨hkind, rfl⟩ := Operator.project_eq_ok_iff.mp htree
    exact iff_of_true hkind id
  | selection _ htree =>
    obtain ⟨hkind, rfl⟩ := Operator.select_eq_ok_iff.mp htree
    exact iff_of_true hkind id

/-! ## One node -/

/-- The inputs of a node that builds build too, and hold tuples. -/
theorem Builds.of_mem_inputs (h : table.Builds registry.catalog tree) {input : Table}
    (hinput : input ∈ table.inputs) :
    (∃ inputTree, input.Builds registry.catalog inputTree) ∧ ¬input.HoldsValues registry := by
  have hboth : ∀ {left right : Table} {leftTree rightTree : Operator},
      left.Builds registry.catalog leftTree → right.Builds registry.catalog rightTree →
      leftTree.collection.kind.hasTuples = true → rightTree.collection.kind.hasTuples = true →
      input ∈ [left, right] →
      (∃ inputTree, input.Builds registry.catalog inputTree) ∧ ¬input.HoldsValues registry := by
    intro left right leftTree rightTree hleft hright hl hr hmem
    rcases List.mem_pair.mp hmem with rfl | rfl
    · exact ⟨⟨_, hleft⟩, hleft.hasTuples_iff.mp hl⟩
    · exact ⟨⟨_, hright⟩, hright.hasTuples_iff.mp hr⟩
  cases h with
  | collection => cases hinput
  | fieldJoin hleft hright htree =>
    obtain ⟨hl, hr, _⟩ := Operator.joinOnFields_eq_ok_iff.mp htree
    exact hboth hleft hright hl hr hinput
  | predicateJoin hleft hright htree =>
    obtain ⟨_, hl, hr, _⟩ := Operator.joinOnPredicate_eq_ok_iff.mp htree
    exact hboth hleft hright hl hr hinput
  | product hleft hright htree =>
    obtain ⟨hl, hr, _⟩ := Operator.cross_eq_ok_iff.mp htree
    exact hboth hleft hright hl hr hinput
  | projection hbuilt htree =>
    obtain ⟨hkind, _⟩ := Operator.project_eq_ok_iff.mp htree
    cases List.mem_singleton.mp hinput
    exact ⟨⟨_, hbuilt⟩, hbuilt.hasTuples_iff.mp hkind⟩
  | selection hbuilt htree =>
    obtain ⟨hkind, _⟩ := Operator.select_eq_ok_iff.mp htree
    cases List.mem_singleton.mp hinput
    exact ⟨⟨_, hbuilt⟩, hbuilt.hasTuples_iff.mp hkind⟩

theorem Builds.not_blocked (h : table.Builds registry.catalog tree) : ¬table.Blocked registry := by
  intro hblocked
  cases hblocked with
  | noSection hsection =>
    cases h with
    | collection hsource =>
      obtain ⟨stored, hstored, _⟩ := Registry.exists_section_of_collection hsource
      obtain ⟨found, hfound, hhas⟩ := Registry.exists_section_iff.mp ⟨stored, hstored⟩
      rw [hsection found hfound] at hhas
      cases hhas
  | spatialJoin => cases h
  | union => cases h
  | notInner hjoin =>
    cases h with
    | predicateJoin _ _ htree => exact hjoin (Operator.joinOnPredicate_eq_ok_iff.mp htree).1
  | values hinput hvalues => exact (h.of_mem_inputs hinput).2 hvalues
  | noField hequal hfield hnone =>
    cases h with
    | predicateJoin hleft hright htree =>
      obtain ⟨_, _, _, hchosen, _⟩ := Operator.joinOnPredicate_eq_ok_iff.mp htree
      have hhas := JoinStrategy.exists_choose_iff.mp hchosen hequal _ hfield
      rw [hleft.properties_eq, hright.properties_eq, hnone] at hhas
      cases hhas

/-- A node builds exactly if it is not blocked and its inputs build. -/
theorem exists_builds_iff : (∃ tree, table.Builds registry.catalog tree) ↔
    ¬table.Blocked registry ∧ ∀ input ∈ table.inputs, ∃ tree, input.Builds registry.catalog tree := by
  constructor
  · rintro ⟨tree, h⟩
    exact ⟨h.not_blocked, fun input hinput => (h.of_mem_inputs hinput).1⟩
  · rintro ⟨hfree, hinputs⟩
    -- An input that builds has tuples, since the node is not blocked by values.
    have htuples : ∀ {input : Table}, input ∈ table.inputs → ∃ inputTree,
        input.Builds registry.catalog inputTree ∧ inputTree.collection.kind.hasTuples = true := by
      intro input hinput
      obtain ⟨inputTree, hbuilt⟩ := hinputs input hinput
      exact ⟨inputTree, hbuilt, hbuilt.hasTuples_iff.mpr fun hvalues => hfree (.values hinput hvalues)⟩
    cases table with
    | collection dataset sectionName =>
      have hsection : ∃ stored, registry.section? dataset sectionName = .ok stored := by
        rw [Registry.exists_section_iff]
        by_contra hnone
        refine hfree (.noSection fun found hfound => ?_)
        rw [← Bool.not_eq_true]
        exact fun hhas => hnone ⟨found, hfound, hhas⟩
      obtain ⟨stored, hstored⟩ := hsection
      exact ⟨_, .collection (Registry.collection_of_section hstored)⟩
    | fieldJoin join left leftField right rightField =>
      obtain ⟨leftTree, hleft, hl⟩ := htuples (List.mem_cons_self ..)
      obtain ⟨rightTree, hright, hr⟩ := htuples (List.mem_cons_of_mem _ (List.mem_cons_self ..))
      exact ⟨_, .fieldJoin hleft hright (Operator.joinOnFields_eq_ok_iff.mpr ⟨hl, hr, rfl⟩)⟩
    | predicateJoin join left right predicate =>
      obtain ⟨leftTree, hleft, hl⟩ := htuples (List.mem_cons_self ..)
      obtain ⟨rightTree, hright, hr⟩ := htuples (List.mem_cons_of_mem _ (List.mem_cons_self ..))
      have hinner : join = .inner := by
        by_contra hjoin
        exact hfree (.notInner hjoin)
      have hchosen : ∃ chosen, Operator.strategy leftTree rightTree predicate = .ok chosen := by
        refine JoinStrategy.exists_choose_iff.mpr fun hequal field hfield => ?_
        by_contra hnone
        rw [hleft.properties_eq, hright.properties_eq, Bool.not_eq_true] at hnone
        exact hfree (.noField hequal hfield hnone)
      exact ⟨_, .predicateJoin hleft hright
        (Operator.joinOnPredicate_eq_ok_iff.mpr ⟨hinner, hl, hr, hchosen, rfl⟩)⟩
    | spatialJoin left right => exact absurd .spatialJoin hfree
    | union left right => exact absurd .union hfree
    | product left right =>
      obtain ⟨leftTree, hleft, hl⟩ := htuples (List.mem_cons_self ..)
      obtain ⟨rightTree, hright, hr⟩ := htuples (List.mem_cons_of_mem _ (List.mem_cons_self ..))
      exact ⟨_, .product hleft hright (Operator.cross_eq_ok_iff.mpr ⟨hl, hr, rfl⟩)⟩
    | projection input pairs =>
      obtain ⟨inputTree, hbuilt, hkind⟩ := htuples (List.mem_cons_self ..)
      exact ⟨_, .projection hbuilt (Operator.project_eq_ok_iff.mpr ⟨hkind, rfl⟩)⟩
    | selection predicate input =>
      obtain ⟨inputTree, hbuilt, hkind⟩ := htuples (List.mem_cons_self ..)
      exact ⟨_, .selection hbuilt (Operator.select_eq_ok_iff.mpr ⟨hkind, rfl⟩)⟩

/-! ## All nodes -/

/-- A table expression builds exactly if none of its nodes is blocked. -/
theorem exists_builds_iff_nodes : (∃ tree, table.Builds registry.catalog tree) ↔
    ∀ node ∈ table.nodes, ¬node.Blocked registry := by
  induction table using induction_on_inputs with
  | step table ih =>
    rw [exists_builds_iff, forall_mem_nodes]
    exact and_congr_right fun _ => forall₂_congr ih

end Table

/-- Building fails exactly if some node of the expression is a section that does not exist, a spatial
join, a union, a join on a predicate that is not an inner one, an operator with a section of values as
an input, or a join on an equation that names no field of the merged schema of its inputs. -/
theorem Registry.build_fails_iff (registry : Registry) (table : Table) :
    (∃ fault, table.build registry.catalog = .error fault) ↔
      ∃ node ∈ table.nodes, node.Blocked registry := by
  have hbuilds : (∃ tree, table.build registry.catalog = .ok tree) ↔
      ∀ node ∈ table.nodes, ¬node.Blocked registry := by
    rw [← Table.exists_builds_iff_nodes]
    exact exists_congr fun _ => Table.build_eq_ok_iff
  have hfails : (∃ fault, table.build registry.catalog = .error fault) ↔
      ¬∃ tree, table.build registry.catalog = .ok tree := by
    cases table.build registry.catalog <;> simp
  rw [hfails, hbuilds]
  simp only [not_forall, not_not, exists_prop]

end TableQuery
