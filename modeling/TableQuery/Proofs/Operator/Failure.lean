import TableQuery.Proofs.Operator.Lookup
import TableQuery.Proofs.Operator.Page

/-!
# What can go wrong in a tree

A tree that was built can be read: the call succeeds, with rows to skip or without, and a row fails only
for lack of a field that a projection or a predicate of the tree reads (`Operator.fieldsRead`).  A lookup
by key fails only for such a field or because some key is not a pair.  So nothing that building checks
can go wrong later (`only_missing_fields_fail`).

`Collection.FailsFor` says this of a collection, and every operator keeps it.  Its inputs deliver tuples
only, by rows and by lookups, so the operators' own checks for tuples never fail.
-/

namespace TableQuery

/-- A fault for lack of one of the given fields. -/
def Fault.Lacks (fields : List String) (fault : Fault) : Prop :=
  ∃ field ∈ fields, fault = .missingField field

theorem Fault.Lacks.mono {fields others : List String} {fault : Fault} (h : fault.Lacks fields)
    (hsubset : fields ⊆ others) : fault.Lacks others := by
  obtain ⟨field, hmem, rfl⟩ := h
  exact ⟨field, hsubset hmem, rfl⟩

/-! ## Predicates and projections -/

namespace Predicate

/-- The fields that a predicate reads. -/
def fieldsRead (predicate : Predicate) : List String :=
  predicate.field :: predicate.otherField?.toList

theorem eq_missingField_of_valueOf {tuple : Tuple} {field : String} {fault : Fault}
    (h : valueOf tuple field = .error fault) : fault = .missingField field := by
  rw [valueOf] at h
  split at h
  · cases h
  · cases h
    rfl

theorem lacks_of_evaluate {predicate : Predicate} {tuple : Tuple} {fault : Fault}
    (h : predicate.evaluate tuple = .error fault) : fault.Lacks predicate.fieldsRead := by
  rw [evaluate] at h
  rcases bind_eq_error_iff.mp h with hleft | ⟨left, _, h⟩
  · exact ⟨_, List.mem_cons_self .., eq_missingField_of_valueOf hleft⟩
  · cases hoperand : predicate.operand with
    | field name =>
      simp only [hoperand] at h
      rcases bind_eq_error_iff.mp h with hright | ⟨_, _, h⟩
      · refine ⟨name, List.mem_cons_of_mem _ ?_, eq_missingField_of_valueOf hright⟩
        simp [otherField?, hoperand]
      · cases h
    | constant value =>
      simp only [hoperand] at h
      cases h

end Predicate

namespace FieldPairs

theorem lacks_of_projectFrom {pairs : FieldPairs} {tuple out : Tuple} {fault : Fault}
    (h : projectFrom tuple pairs out = .error fault) : fault.Lacks (pairs.map Prod.fst) := by
  induction pairs generalizing out with
  | nil => cases h
  | cons pair rest ih =>
    obtain ⟨source, target⟩ := pair
    rw [projectFrom] at h
    split at h
    · exact (ih h).mono (List.subset_cons_self ..)
    · cases h
      exact ⟨source, List.mem_cons_self .., rfl⟩

theorem lacks_of_project {pairs : FieldPairs} {tuple : Tuple} {fault : Fault}
    (h : pairs.project (.object tuple) = .error fault) : fault.Lacks (pairs.map Prod.fst) := by
  rw [project_object, map_eq_error_iff] at h
  exact lacks_of_projectFrom h

end FieldPairs

theorem Key.exists_malformedKey_of_split {key : Key} {fault : Fault}
    (h : key.split = .error fault) : ∃ part, fault = .malformedKey part := by
  cases key with
  | index position =>
    cases h
    exact ⟨_, rfl⟩
  | name text =>
    rw [Key.split] at h
    split at h
    · cases h
    · cases h
      exact ⟨_, rfl⟩

/-! ## Faults among the rows of an operator -/

section Rows

variable {schema : MergedSchema} {key : Key} {tuple : Tuple} {fault : Fault}
variable {rows : List (Except Fault Row)}

theorem error_mem_map_projectRow {pairs : FieldPairs}
    (htuples : ∀ row, .ok row ∈ rows → Row.isTuple row = true)
    (h : .error fault ∈ rows.map pairs.projectRow) :
    .error fault ∈ rows ∨ fault.Lacks (pairs.map Prod.fst) := by
  obtain ⟨outcome, hmem, hrow⟩ := List.mem_map.mp h
  cases outcome with
  | error other =>
    cases hrow
    exact .inl hmem
  | ok row =>
    obtain ⟨key, value⟩ := row
    obtain ⟨tuple, rfl⟩ := Row.isTuple_iff.mp (htuples _ hmem)
    rw [FieldPairs.projectRow_ok, map_eq_error_iff] at hrow
    exact .inr (FieldPairs.lacks_of_project hrow)

theorem error_mem_filterMap_keep {predicate : Predicate}
    (htuples : ∀ row, .ok row ∈ rows → Row.isTuple row = true)
    (h : .error fault ∈ rows.filterMap predicate.keep) :
    .error fault ∈ rows ∨ fault.Lacks predicate.fieldsRead := by
  obtain ⟨outcome, hmem, hkeep⟩ := List.mem_filterMap.mp h
  cases outcome with
  | error other =>
    cases hkeep
    exact .inl hmem
  | ok row =>
    obtain ⟨key, value⟩ := row
    obtain ⟨tuple, rfl⟩ := Row.isTuple_iff.mp (htuples _ hmem)
    cases hevaluate : predicate.evaluate tuple with
    | ok holds =>
      rw [Predicate.keep_object hevaluate] at hkeep
      cases holds <;> cases hkeep
    | error other =>
      have hbind : (Json.object tuple).tuple?.bind predicate.evaluate = .error other := hevaluate
      rw [Predicate.keep, hbind] at hkeep
      cases hkeep
      exact .inr (Predicate.lacks_of_evaluate hevaluate)

theorem error_mem_map_pairRow (htuples : ∀ row, .ok row ∈ rows → Row.isTuple row = true)
    (h : .error fault ∈ rows.map (schema.pairRow key tuple)) : .error fault ∈ rows := by
  obtain ⟨outcome, hmem, hrow⟩ := List.mem_map.mp h
  cases outcome with
  | error other =>
    cases hrow
    exact hmem
  | ok row =>
    obtain ⟨otherKey, value⟩ := row
    obtain ⟨other, rfl⟩ := Row.isTuple_iff.mp (htuples _ hmem)
    cases hrow

theorem error_mem_matchRows {join : JoinType}
    (htuples : ∀ row, .ok row ∈ rows → Row.isTuple row = true)
    (h : .error fault ∈ join.matchRows schema key tuple rows) : .error fault ∈ rows := by
  match join, rows with
  | .inner, rows => exact error_mem_map_pairRow htuples h
  | .left, [] => cases List.mem_singleton.mp h
  | .left, _ :: _ => exact error_mem_map_pairRow htuples h
  | .diff, [] => cases List.mem_singleton.mp h
  | .diff, .ok _ :: _ => cases h
  | .diff, .error _ :: _ =>
    cases List.mem_singleton.mp h
    exact List.mem_cons_self ..

theorem error_mem_flatMap_expandTuple {f : Key → Tuple → List (Except Fault Row)}
    (htuples : ∀ row, .ok row ∈ rows → Row.isTuple row = true)
    (h : .error fault ∈ rows.flatMap (expandTuple f)) :
    .error fault ∈ rows ∨ ∃ key tuple, .error fault ∈ f key tuple := by
  obtain ⟨outcome, hmem, hrow⟩ := List.mem_flatMap.mp h
  cases outcome with
  | error other =>
    cases List.mem_singleton.mp hrow
    exact .inl hmem
  | ok row =>
    obtain ⟨key, value⟩ := row
    obtain ⟨tuple, rfl⟩ := Row.isTuple_iff.mp (htuples _ hmem)
    exact .inr ⟨key, tuple, hrow⟩

end Rows

/-! ## What can go wrong in a collection -/

namespace Collection

/-- What can go wrong when a collection is read: a row fails only for lack of one of the given fields,
and a lookup by key only so or because some key is not a pair. -/
structure FailsFor (source : Collection) (rows : List (Except Fault Row)) (fields : List String) : Prop
    extends source.Delivers rows where
  /-- A row lacks a field. -/
  row : ∀ fault, .error fault ∈ rows → fault.Lacks fields
  /-- A lookup finds that a row lacks a field, or splits a key that is no pair. -/
  lookup : ∀ key fault, (source.item key).result = .error fault →
    fault.Lacks fields ∨ ∃ part, fault = .malformedKey part
  /-- What a lookup finds in a tuple kind is a tuple. -/
  found : source.kind.hasTuples = true → ∀ key value,
    (source.item key).result = .ok (some value) → ∃ tuple, value = .object tuple

variable {source left right : Collection} {rows leftRows rightRows : List (Except Fault Row)}
variable {fields : List String} {fault : Fault}

theorem FailsFor.stored (stored : Stored) : stored.toCollection.FailsFor stored.outcomes [] where
  toDelivers := .stored stored
  row := by
    intro fault h
    obtain ⟨row, _, hrow⟩ := List.mem_map.mp h
    cases hrow
  lookup := by
    intro key fault h
    cases h
  found := by
    intro hkind key value h
    obtain ⟨row, hrow, hvalue⟩ := Option.map_eq_some_iff.mp (Except.ok.inj h)
    have hmem : row ∈ stored.rows := List.mem_reverse.mp (List.mem_of_find?_eq_some hrow)
    obtain ⟨tuple, htuple⟩ := Row.isTuple_iff.mp (stored.tuples hkind row hmem)
    exact ⟨tuple, hvalue ▸ htuple⟩

theorem FailsFor.mono (h : source.FailsFor rows fields) {others : List String}
    (hsubset : fields ⊆ others) : source.FailsFor rows others where
  toDelivers := h.toDelivers
  row := fun fault hfault => (h.row fault hfault).mono hsubset
  lookup := fun key fault hfault => (h.lookup key fault hfault).imp_left fun hlacks =>
    hlacks.mono hsubset
  found := h.found

theorem FailsFor.withId (h : source.FailsFor rows fields) (id : String) :
    FailsFor { source with id } rows fields :=
  ⟨h.toDelivers.withId id, h.row, h.lookup, h.found⟩

/-! ### Operators with one input -/

theorem FailsFor.projected (h : source.FailsFor rows fields) (hkind : source.kind.hasTuples = true)
    {pairs : FieldPairs} (hpairs : pairs.map Prod.fst ⊆ fields) :
    (source.projected pairs).FailsFor (rows.map pairs.projectRow) fields where
  toDelivers := h.toDelivers.projected pairs
  row := by
    intro fault hfault
    rcases error_mem_map_projectRow (h.tuples hkind) hfault with hmem | hlacks
    · exact h.row fault hmem
    · exact hlacks.mono hpairs
  lookup := by
    intro key fault hfault
    rcases Lookup.result_bind_eq_error_iff.mp hfault with hinput | ⟨found, hfound, hfault⟩
    · exact h.lookup key fault hinput
    · cases found with
      | none => cases hfault
      | some value =>
        obtain ⟨tuple, rfl⟩ := h.found hkind key value hfound
        rcases Lookup.result_bind_eq_error_iff.mp hfault with hproject | ⟨out, _, hout⟩
        · exact .inl ((FieldPairs.lacks_of_project hproject).mono hpairs)
        · cases hout
  found := by
    intro _ key value hfound
    obtain ⟨input, _, hproject⟩ := result_item_projected.mp hfound
    exact FieldPairs.exists_object_of_project hproject

theorem FailsFor.selected (h : source.FailsFor rows fields) (hkind : source.kind.hasTuples = true)
    {predicate : Predicate} (hpredicate : predicate.fieldsRead ⊆ fields) :
    (source.selected predicate).FailsFor (rows.filterMap predicate.keep) fields where
  toDelivers := h.toDelivers.selected hkind predicate
  row := by
    intro fault hfault
    rcases error_mem_filterMap_keep (h.tuples hkind) hfault with hmem | hlacks
    · exact h.row fault hmem
    · exact hlacks.mono hpredicate
  lookup := by
    intro key fault hfault
    rcases Lookup.result_bind_eq_error_iff.mp hfault with hinput | ⟨found, hfound, hfault⟩
    · exact h.lookup key fault hinput
    · cases found with
      | none => cases hfault
      | some value =>
        obtain ⟨tuple, rfl⟩ := h.found hkind key value hfound
        rcases Lookup.result_bind_eq_error_iff.mp hfault with hevaluate | ⟨keep, _, hkeep⟩
        · exact .inl ((Predicate.lacks_of_evaluate hevaluate).mono hpredicate)
        · cases hkeep
  found := fun _ key value hfound => h.found hkind key value (result_item_selected.mp hfound).1

/-! ### Operators with two inputs -/

theorem FailsFor.product (hl : left.FailsFor leftRows fields) (hr : right.FailsFor rightRows fields)
    (hleft : left.kind.hasTuples = true) (hright : right.kind.hasTuples = true) :
    (left.product right).FailsFor
      (productRows (.merge left.properties right.properties) leftRows rightRows) fields where
  toDelivers := hl.toDelivers.product hr.toDelivers
  row := by
    intro fault hfault
    rcases error_mem_flatMap_expandTuple (hl.tuples hleft) hfault with hmem | ⟨_, _, hpair⟩
    · exact hl.row fault hmem
    · exact hr.row fault (error_mem_map_pairRow (hr.tuples hright) hpair)
  lookup := by
    intro key fault hfault
    rcases Lookup.result_bind_eq_error_iff.mp hfault with hsplit | ⟨⟨a, b⟩, _, hfault⟩
    · exact .inr (Key.exists_malformedKey_of_split hsplit)
    rcases Lookup.result_bind_eq_error_iff.mp hfault with hitem | ⟨leftValue, hleftItem, hfault⟩
    · exact hl.lookup a fault hitem
    rcases Lookup.result_bind_eq_error_iff.mp hfault with hitem | ⟨rightValue, hrightItem, hfault⟩
    · exact hr.lookup b fault hitem
    match leftValue, rightValue with
    | none, _ => cases hfault
    | some _, none => cases hfault
    | some leftValue, some rightValue =>
      obtain ⟨tuple, rfl⟩ := hl.found hleft a leftValue hleftItem
      obtain ⟨other, rfl⟩ := hr.found hright b rightValue hrightItem
      cases hfault
  found := by
    intro _ key value hfound
    obtain ⟨_, _, _, _, _, _, _, rfl⟩ := result_item_product.mp hfound
    exact ⟨_, rfl⟩

/-- The search for a match of a left row fails only with a right row. -/
theorem FailsFor.lacks_of_findUnmatched (hr : right.FailsFor rightRows fields) {join : JoinType}
    {schema : MergedSchema} {rightField : String} {sought : Json} {tuple : Tuple}
    (h : (findUnmatched join schema right rightField sought tuple).result = .error fault) :
    fault.Lacks fields := by
  obtain ⟨found, hfound, hrows⟩ := map_eq_ok_iff.mp (hr.onValue rightField sought)
  rw [findUnmatched] at h
  split at h
  next => cases h
  next =>
    rcases Lookup.result_bind_eq_error_iff.mp h with hcall | ⟨run, hrun, h⟩
    · cases hfound.symm.trans hcall
    · cases hfound.symm.trans hrun
      simp only [Lookup.result_bind, Lookup.result_first] at h
      cases hhead : found.rows with
      | nil =>
        rw [hhead] at h
        cases h
      | cons outcome others =>
        rw [hhead] at h
        cases outcome with
        | ok row => cases h
        | error other =>
          cases h
          have hmem : .error fault ∈ found.rows := hhead ▸ List.mem_cons_self ..
          rw [hrows] at hmem
          exact hr.row fault (List.mem_filter.mp hmem).1

theorem FailsFor.lookup_findMatched (hr : right.FailsFor rightRows fields)
    (hright : right.kind.hasTuples = true) {join : JoinType} {schema : MergedSchema}
    {rightField : String} {sought : Json} {tuple : Tuple} {b : Key}
    (h : (findMatched join schema right rightField sought tuple b).result = .error fault) :
    fault.Lacks fields ∨ ∃ part, fault = .malformedKey part := by
  rw [findMatched] at h
  split at h
  next => cases h
  next =>
    rcases Lookup.result_bind_eq_error_iff.mp h with hitem | ⟨rightValue, hitem, h⟩
    · exact hr.lookup b fault hitem
    · cases rightValue with
      | none => cases h
      | some value =>
        obtain ⟨other, rfl⟩ := hr.found hright b value hitem
        dsimp only at h
        split at h
        · cases h
        · cases h

theorem FailsFor.joined (hl : left.FailsFor leftRows fields) (hr : right.FailsFor rightRows fields)
    (hleft : left.kind.hasTuples = true) (hright : right.kind.hasTuples = true) (join : JoinType)
    (leftField rightField : String) :
    (left.joined join leftField right rightField).FailsFor
      (joinRows join (.merge left.properties right.properties) leftField rightField leftRows rightRows)
      fields where
  toDelivers := hl.toDelivers.joined hr.toDelivers join leftField rightField
  row := by
    intro fault hfault
    rcases error_mem_flatMap_expandTuple (hl.tuples hleft) hfault with hmem | ⟨_, _, hmatch⟩
    · exact hl.row fault hmem
    · have hfound := error_mem_matchRows
        (fun row hrow => hr.tuples hright row (List.mem_filter.mp hrow).1) hmatch
      exact hr.row fault (List.mem_filter.mp hfound).1
  lookup := by
    intro key fault hfault
    rcases Lookup.result_bind_eq_error_iff.mp hfault with hsplit | ⟨⟨a, b⟩, _, hfault⟩
    · exact .inr (Key.exists_malformedKey_of_split hsplit)
    rcases Lookup.result_bind_eq_error_iff.mp hfault with hitem | ⟨leftValue, hleftItem, hfault⟩
    · exact hl.lookup a fault hitem
    cases leftValue with
    | none => cases hfault
    | some leftValue =>
      obtain ⟨tuple, rfl⟩ := hl.found hleft a leftValue hleftItem
      rcases Lookup.result_bind_eq_error_iff.mp hfault with htuple | ⟨_, _, hfault⟩
      · cases htuple
      · split at hfault
        · exact .inl (hr.lacks_of_findUnmatched hfault)
        · exact hr.lookup_findMatched hright hfault
  found := by
    intro _ key value hfound
    obtain ⟨_, _, tuple, _, _, hcase⟩ := (result_item_joined hr.toDelivers).mp hfound
    rcases hcase with ⟨_, _, _, rfl⟩ | ⟨_, _, _, _, _, rfl⟩
    · cases join <;> exact ⟨_, rfl⟩
    · exact ⟨_, rfl⟩

theorem FailsFor.joinedOn (hl : left.FailsFor leftRows fields) (hr : right.FailsFor rightRows fields)
    (hleft : left.kind.hasTuples = true) (hright : right.kind.hasTuples = true)
    {predicate : Predicate} (hpredicate : predicate.fieldsRead ⊆ fields) :
    (left.joinedOn right predicate).FailsFor
      ((productRows (.merge left.properties right.properties) leftRows rightRows).filterMap
        predicate.keep)
      fields := by
  rw [Collection.joinedOn]
  split
  next leftField rightField hchoose =>
    have hequates := JoinStrategy.equates_of_choose hchoose
    rw [productRows_filterMap_keep hequates leftRows (hr.tuples hright)]
    exact (hl.joined hr hleft hright .inner leftField rightField).withId _
  next => exact ((hl.product hr hleft hright).selected rfl hpredicate).withId _

end Collection

/-! ## Trees -/

namespace Operator

/-- The fields that the projections and the predicates of a tree read. -/
def fieldsRead : Operator → List String
  | leaf _ => []
  | projection input pairs => pairs.map Prod.fst ++ input.fieldsRead
  | selection predicate input => predicate.fieldsRead ++ input.fieldsRead
  | product left right => left.fieldsRead ++ right.fieldsRead
  | fieldJoin _ left _ right _ => left.fieldsRead ++ right.fieldsRead
  | predicateJoin left right predicate =>
    predicate.fieldsRead ++ (left.fieldsRead ++ right.fieldsRead)

theorem Built.failsFor {tree : Operator} (h : Built InMemory tree) :
    tree.collection.FailsFor tree.rows tree.fieldsRead := by
  induction h with
  | leaf hleaf =>
    obtain ⟨stored, rfl⟩ := hleaf
    rw [rows, (Collection.Delivers.stored stored).rows_eq]
    exact .stored stored
  | project _ hbuild ih =>
    obtain ⟨hkind, rfl⟩ := project_eq_ok_iff.mp hbuild
    exact (ih.mono (List.subset_append_right ..)).projected hkind (List.subset_append_left ..)
  | select _ hbuild ih =>
    obtain ⟨hkind, rfl⟩ := select_eq_ok_iff.mp hbuild
    exact (ih.mono (List.subset_append_right ..)).selected hkind (List.subset_append_left ..)
  | cross _ _ hbuild ihl ihr =>
    obtain ⟨hleft, hright, rfl⟩ := cross_eq_ok_iff.mp hbuild
    exact (ihl.mono (List.subset_append_left ..)).product (ihr.mono (List.subset_append_right ..))
      hleft hright
  | joinOnFields _ _ hbuild ihl ihr =>
    obtain ⟨hleft, hright, rfl⟩ := joinOnFields_eq_ok_iff.mp hbuild
    exact (ihl.mono (List.subset_append_left ..)).joined (ihr.mono (List.subset_append_right ..))
      hleft hright _ _ _
  | @joinOnPredicate _ left right _ predicate _ _ hbuild ihl ihr =>
    obtain ⟨hleft, hright, rfl⟩ := of_joinOnPredicate_eq_ok hbuild
    have hinputs : left.fieldsRead ++ right.fieldsRead ⊆
        (predicateJoin left right predicate).fieldsRead := List.subset_append_right ..
    exact (ihl.mono (List.append_subset.mp hinputs).1).joinedOn
      (ihr.mono (List.append_subset.mp hinputs).2) hleft hright (List.subset_append_left ..)

/-- An operator makes a collection of tuples. -/
theorem Built.hasTuples {Leaf : Collection → Prop} {tree : Operator} (h : Built Leaf tree)
    (hderived : ∀ source, tree ≠ .leaf source) : tree.collection.kind.hasTuples = true := by
  cases h with
  | leaf _ => exact absurd rfl (hderived _)
  | project _ hbuild =>
    obtain ⟨hkind, rfl⟩ := project_eq_ok_iff.mp hbuild
    exact hkind
  | select _ hbuild =>
    obtain ⟨hkind, rfl⟩ := select_eq_ok_iff.mp hbuild
    exact hkind
  | cross _ _ hbuild =>
    obtain ⟨_, _, rfl⟩ := cross_eq_ok_iff.mp hbuild
    rfl
  | joinOnFields _ _ hbuild =>
    obtain ⟨_, _, rfl⟩ := joinOnFields_eq_ok_iff.mp hbuild
    rfl
  | joinOnPredicate _ _ hbuild =>
    obtain ⟨_, _, rfl⟩ := of_joinOnPredicate_eq_ok hbuild
    exact congrArg Kind.hasTuples (Collection.kind_joinedOn _)

/-- Reading a built tree succeeds, with rows to skip or without, and by value.  A row fails only for lack
of a field that a projection or a predicate of the tree reads, and a lookup by key only so or because a
key is no pair.  The rows of an operator hold tuples. -/
theorem only_missing_fields_fail {tree : Operator} (h : Built InMemory tree) :
    (∀ skip, ∃ rows, (tree.collection.items ⟨skip, none⟩).map Run.rows = .ok rows ∧
      ((∀ source, tree ≠ .leaf source) →
        ∀ key value, .ok (key, value) ∈ rows → ∃ tuple, value = .object tuple) ∧
      ∀ fault, .error fault ∈ rows → fault.Lacks tree.fieldsRead) ∧
    (∀ field value, ∃ rows, (tree.collection.itemsOnValue field value).map Run.rows = .ok rows ∧
      ∀ fault, .error fault ∈ rows → fault.Lacks tree.fieldsRead) ∧
    ∀ key fault, (tree.collection.item key).result = .error fault →
      fault.Lacks tree.fieldsRead ∨ ∃ part, fault = .malformedKey part := by
  have hdelivers := h.delivers fun _ => InMemory.delivers
  have hfails := h.failsFor
  refine ⟨fun skip => ?_, fun field value => ?_, hfails.lookup⟩
  · obtain ⟨rows, hitems, hsublist⟩ := h.exists_items_sublist skip
    refine ⟨rows, hitems, fun hderived key value hmem => ?_, fun fault hmem => ?_⟩
    · exact Row.isTuple_iff.mp (hdelivers.tuples (h.hasTuples hderived) _ (hsublist.subset hmem))
    · exact hfails.row fault (hsublist.subset hmem)
  · refine ⟨_, hdelivers.onValue field value, fun fault hmem => ?_⟩
    exact hfails.row fault (List.mem_filter.mp hmem).1

/-- A left operand whose second row lacks the projected field. -/
def projectedAmounts : Operator := .projection amounts [("x", "x")]

/-- A product of a projection that fails for one row. -/
theorem only_missing_fields_fail_of_product :
    Built InMemory (product projectedAmounts labels) ∧
      (∀ source, product projectedAmounts labels ≠ .leaf source) ∧
      (∀ skip, ∃ rows,
        ((product projectedAmounts labels).collection.items ⟨skip, none⟩).map Run.rows = .ok rows ∧
        (∀ key value, .ok (key, value) ∈ rows → ∃ tuple, value = .object tuple) ∧
        ∀ fault, .error fault ∈ rows → fault.Lacks ["x"]) ∧
      (∀ field value, ∃ rows, ((product projectedAmounts labels).collection.itemsOnValue field
          value).map Run.rows = .ok rows ∧
        ∀ fault, .error fault ∈ rows → fault.Lacks ["x"]) ∧
      ∀ key fault, ((product projectedAmounts labels).collection.item key).result = .error fault →
        fault.Lacks ["x"] ∨ ∃ part, fault = .malformedKey part := by
  have hl : Built InMemory projectedAmounts :=
    .project (.leaf ⟨_, rfl⟩) (project_eq_ok_iff.mpr ⟨rfl, rfl⟩)
  have hproduct : Built InMemory (product projectedAmounts labels) :=
    .cross hl (.leaf ⟨_, rfl⟩) (cross_eq_ok_iff.mpr ⟨rfl, rfl, rfl⟩)
  have hderived : ∀ source, product projectedAmounts labels ≠ .leaf source := nofun
  obtain ⟨hitems, hrest⟩ := only_missing_fields_fail hproduct
  refine ⟨hproduct, hderived, fun skip => ?_, hrest⟩
  obtain ⟨rows, hrun, htuples, hfaults⟩ := hitems skip
  exact ⟨rows, hrun, htuples hderived, hfaults⟩

end Operator

end TableQuery
