import TableQuery.Proofs.Operator.Lookup
import TableQuery.Proofs.Operator.Page
import TableQuery.Proofs.Schema.Merge

/-!
# Rows follow the announced schema

The properties of an operator are made once, from those of its inputs, and its tuples are made row by row.
Both list the same names in the same order.  A projection inserts its targets one after the other, into
the properties as into every tuple, so a repeated target keeps the same place in both
(`FieldPairs.hasNames_of_project`).  A merged schema is read off entry by entry, for the properties as
for every tuple, whatever was lost when it was made (`MergedSchema.names_mergeTuples`).

`Collection.FollowsSchema` says of a collection that its rows and what it finds by key have exactly the
names that it announces.  A projection, a product and a join follow their schema whatever their inputs do.
A selection and a difference hand on the tuples and the properties of an input, so they follow their
schema if it does.  Leaves announce what they like, and so a tree follows its schema if its rows are not
those of a leaf handed on (`rows_follow_schema`).
-/

namespace TableQuery

/-- A value is a tuple with the given field names, in this order. -/
def Json.HasNames (value : Json) (names : List String) : Prop :=
  ∃ tuple : Tuple, value = .object tuple ∧ Fields.names tuple = names

/-! ## Names of projected tuples -/

namespace FieldPairs

theorem properties_eq_ofPairs (pairs : FieldPairs) (input : Properties) :
    pairs.properties input =
      Fields.ofPairs (pairs.map fun pair => (pair.2, (input.get? pair.1).getD .unknown)) := by
  simp [properties, Fields.ofPairs, List.foldl_map]

/-- A projection inserts a value for each of its targets, one after the other. -/
theorem exists_insertAll_of_projectFrom {pairs : FieldPairs} {tuple out result : Tuple}
    (h : projectFrom tuple pairs out = .ok result) :
    ∃ values : List (String × Json), values.map Prod.fst = pairs.map Prod.snd ∧
      result = Fields.insertAll out values := by
  induction pairs generalizing out with
  | nil =>
    cases h
    exact ⟨[], rfl, rfl⟩
  | cons pair rest ih =>
    obtain ⟨source, target⟩ := pair
    rw [projectFrom] at h
    split at h
    next value hvalue =>
      obtain ⟨values, htargets, rfl⟩ := ih h
      exact ⟨(target, value) :: values, congrArg (target :: ·) htargets, rfl⟩
    next => cases h

/-- A projected tuple has the names of the projected properties, whatever properties the input has. -/
theorem hasNames_of_project {pairs : FieldPairs} {value result : Json}
    (h : pairs.project value = .ok result) (input : Properties) :
    result.HasNames (pairs.properties input).names := by
  obtain ⟨tuple, _, h⟩ := bind_eq_ok_iff.mp h
  obtain ⟨out, hout, h⟩ := bind_eq_ok_iff.mp h
  cases h
  obtain ⟨values, htargets, rfl⟩ := exists_insertAll_of_projectFrom hout
  refine ⟨_, rfl, ?_⟩
  rw [properties_eq_ofPairs, Fields.ofPairs_eq_insertAll]
  refine Fields.names_insertAll_congr rfl ?_
  rw [htargets, List.map_map]
  rfl

theorem nodup_names_properties (pairs : FieldPairs) (input : Properties) :
    (pairs.properties input).names.Nodup := by
  rw [properties_eq_ofPairs]
  exact Fields.nodup_names_ofPairs _

end FieldPairs

/-! ## Names of merged tuples -/

namespace MergedSchema

theorem names_properties (schema : MergedSchema) : schema.properties.names = schema.names := by
  simp [properties, Fields.names, Function.comp_def]

theorem names_mergeTuples (schema : MergedSchema) (left : Tuple) (right : Option Tuple) :
    (schema.mergeTuples left right).names = schema.properties.names := by
  rw [names_properties]
  simp [mergeTuples, Fields.names, Function.comp_def]

theorem hasNames_mergeTuples (schema : MergedSchema) (left : Tuple) (right : Option Tuple) :
    (Json.object (schema.mergeTuples left right)).HasNames schema.properties.names :=
  ⟨_, rfl, schema.names_mergeTuples left right⟩

theorem nodup_names_properties_merge (left right : Properties) :
    (merge left right).properties.names.Nodup := by
  rw [names_properties, merge_eq_ofPairs]
  exact Fields.nodup_names_ofPairs _

end MergedSchema

/-! ## Collections that follow their schema -/

namespace Collection

/-- The rows of a collection, under any filters, and what it finds by key are tuples with exactly the names
of its properties, in the same order. -/
structure FollowsSchema (source : Collection) : Prop where
  /-- No name is announced twice. -/
  distinct : source.properties.names.Nodup
  items : ∀ filters run, source.items filters = .ok run → ∀ key value, .ok (key, value) ∈ run.rows →
    value.HasNames source.properties.names
  item : ∀ key value, (source.item key).result = .ok (some value) →
    value.HasNames source.properties.names

variable {source left right : Collection}

theorem FollowsSchema.withId (h : source.FollowsSchema) (id : String) :
    FollowsSchema { source with id } :=
  ⟨h.distinct, h.items, h.item⟩

theorem followsSchema_projected (source : Collection) (pairs : FieldPairs) :
    (source.projected pairs).FollowsSchema where
  distinct := pairs.nodup_names_properties source.properties
  items := by
    intro filters run hrun key value hmem
    obtain ⟨input, _, rfl⟩ := map_eq_ok_iff.mp hrun
    rw [rows_projectRow] at hmem
    obtain ⟨outcome, _, hproject⟩ := List.mem_map.mp hmem
    obtain ⟨_, _, hvalue⟩ := FieldPairs.projectRow_eq_ok_iff.mp hproject
    exact FieldPairs.hasNames_of_project hvalue source.properties
  item := by
    intro key value hfound
    obtain ⟨_, _, hvalue⟩ := result_item_projected.mp hfound
    exact FieldPairs.hasNames_of_project hvalue source.properties

/-- A selection hands on rows of its input, whoever evaluates the predicate. -/
theorem FollowsSchema.selected (h : source.FollowsSchema) (predicate : Predicate) :
    (source.selected predicate).FollowsSchema where
  distinct := h.distinct
  items := by
    intro filters run hrun key value hmem
    simp only [Collection.selected] at hrun
    split at hrun
    next => exact h.items _ run hrun key value hmem
    next =>
      obtain ⟨input, hinput, rfl⟩ := map_eq_ok_iff.mp hrun
      rw [Run.rows_filterMap] at hmem
      obtain ⟨outcome, hrow, hkeep⟩ := List.mem_filterMap.mp hmem
      obtain ⟨rfl, _⟩ := Predicate.keep_eq_some_ok_iff.mp hkeep
      exact h.items _ input hinput key value hrow
  item := fun key value hfound => h.item key value (result_item_selected.mp hfound).1

theorem followsSchema_product (left right : Collection) : (left.product right).FollowsSchema where
  distinct := MergedSchema.nodup_names_properties_merge left.properties right.properties
  items := by
    intro filters run hrun key value hmem
    obtain ⟨leftRun, _, rfl⟩ := map_eq_ok_iff.mp hrun
    rw [Run.rows_concatMap] at hmem
    obtain ⟨outcome, _, hmem⟩ := List.mem_flatMap.mp hmem
    split at hmem
    next => cases List.mem_singleton.mp (Run.rows_single _ ▸ hmem)
    next leftKey tuple _ =>
      split at hmem
      next => cases List.mem_singleton.mp (Run.rows_single _ ▸ hmem)
      next rightRun _ =>
        rw [rows_pairs, mem_map_pairRow_iff] at hmem
        obtain ⟨_, other, _, _, rfl⟩ := hmem
        exact MergedSchema.hasNames_mergeTuples _ tuple (some other)
  item := by
    intro key value hfound
    obtain ⟨_, _, tuple, other, _, _, _, rfl⟩ := result_item_product.mp hfound
    exact MergedSchema.hasNames_mergeTuples _ tuple (some other)

end Collection

/-! ## Rows of joins on fields -/

/-- What a join may make of a left tuple: the tuple without a match or, unless the join drops those that
have one, the tuple paired with a right one. -/
def JoinType.Makes (join : JoinType) (schema : MergedSchema) (tuple : Tuple) (value : Json) : Prop :=
  value = join.unmatched schema tuple ∨
    join ≠ .diff ∧ ∃ other, value = .object (schema.mergeTuples tuple (some other))

namespace JoinType

variable {join : JoinType} {schema : MergedSchema} {tuple : Tuple} {value : Json}

/-- Matched or not, the tuples of an inner or a left join have the names of the merged schema. -/
theorem Makes.hasNames (h : join.Makes schema tuple value) (hjoin : join ≠ .diff) :
    value.HasNames schema.properties.names := by
  rcases h with rfl | ⟨_, other, rfl⟩
  · cases join with
    | diff => exact absurd rfl hjoin
    | inner | left => exact schema.hasNames_mergeTuples tuple none
  · exact schema.hasNames_mergeTuples tuple (some other)

/-- A difference leaves the tuples that it keeps as they are. -/
theorem Makes.eq_of_diff (h : diff.Makes schema tuple value) : value = .object tuple := by
  rcases h with rfl | ⟨hjoin, _⟩
  · rfl
  · exact absurd rfl hjoin

end JoinType

namespace Collection

variable {left right : Collection} {join : JoinType} {leftField rightField : String}

theorem exists_makes_of_mem_joined {filters : Filters} {run : Run} {key : Key} {value : Json}
    (hrun : (left.joined join leftField right rightField).items filters = .ok run)
    (hmem : .ok (key, value) ∈ run.rows) :
    ∃ leftRun leftKey tuple, left.items .none = .ok leftRun ∧
      .ok (leftKey, .object tuple) ∈ leftRun.rows ∧
      join.Makes (.merge left.properties right.properties) tuple value := by
  obtain ⟨leftRun, hleft, rfl⟩ := map_eq_ok_iff.mp hrun
  rw [Run.rows_skipRows] at hmem
  have hexpand := (Run.dropRows_sublist _ _).subset hmem
  rw [Run.rows_concatMap] at hexpand
  obtain ⟨outcome, hrow, hmatch⟩ := List.mem_flatMap.mp hexpand
  split at hmatch
  next => cases List.mem_singleton.mp (Run.rows_single _ ▸ hmatch)
  next leftKey tuple hkeyed =>
    rw [keyedTuple_eq_ok_iff.mp hkeyed] at hrow
    refine ⟨leftRun, leftKey, tuple, hleft, hrow, ?_⟩
    split at hmatch
    next => cases List.mem_singleton.mp (Run.rows_single _ ▸ hmatch)
    next found _ =>
      rw [rows_expandMatches] at hmatch
      rcases mem_matchRows_iff.mp hmatch with ⟨_, _, _, hvalue⟩ | ⟨hjoin, _, other, _, _, hvalue⟩
      · exact .inl hvalue
      · exact .inr ⟨hjoin, other, hvalue⟩

theorem eq_unmatched_of_findUnmatched {schema : MergedSchema} {sought : Json} {tuple : Tuple}
    {value : Json}
    (h : (findUnmatched join schema right rightField sought tuple).result = .ok (some value)) :
    value = join.unmatched schema tuple := by
  rw [findUnmatched] at h
  split at h
  next => cases h
  next =>
    obtain ⟨found, _, h⟩ := Lookup.result_bind_eq_ok_iff.mp h
    obtain ⟨first, _, h⟩ := Lookup.result_bind_eq_ok_iff.mp h
    cases first with
    | some outcome => cases outcome <;> cases h
    | none =>
      cases h
      rfl

theorem exists_makes_of_item_joined {key : Key} {value : Json}
    (h : ((left.joined join leftField right rightField).item key).result = .ok (some value)) :
    ∃ leftKey tuple, (left.item leftKey).result = .ok (some (.object tuple)) ∧
      join.Makes (.merge left.properties right.properties) tuple value := by
  obtain ⟨⟨leftKey, rightKey⟩, _, h⟩ := Lookup.result_bind_eq_ok_iff.mp h
  obtain ⟨leftValue, hleft, h⟩ := Lookup.result_bind_eq_ok_iff.mp h
  cases leftValue with
  | none => cases h
  | some leftValue =>
    obtain ⟨tuple, htuple, h⟩ := Lookup.result_bind_eq_ok_iff.mp h
    rw [Json.tuple?_eq_ok_iff.mp htuple] at hleft
    refine ⟨leftKey, tuple, hleft, ?_⟩
    split at h
    next => exact .inl (eq_unmatched_of_findUnmatched h)
    next =>
      obtain ⟨hjoin, other, _, _, hvalue⟩ := result_findMatched.mp h
      exact .inr ⟨hjoin, other, hvalue⟩

theorem followsSchema_joined (left right : Collection) (leftField rightField : String)
    (hjoin : join ≠ .diff) : (left.joined join leftField right rightField).FollowsSchema := by
  have hproperties : (left.joined join leftField right rightField).properties =
      (MergedSchema.merge left.properties right.properties).properties := by
    cases join with
    | diff => exact absurd rfl hjoin
    | inner | left => rfl
  constructor
  · rw [hproperties]
    exact MergedSchema.nodup_names_properties_merge left.properties right.properties
  · intro filters run hrun key value hmem
    obtain ⟨_, _, _, _, _, hmakes⟩ := exists_makes_of_mem_joined hrun hmem
    rw [hproperties]
    exact hmakes.hasNames hjoin
  · intro key value hfound
    obtain ⟨_, _, _, hmakes⟩ := exists_makes_of_item_joined hfound
    rw [hproperties]
    exact hmakes.hasNames hjoin

theorem FollowsSchema.diff (h : left.FollowsSchema) (right : Collection)
    (leftField rightField : String) :
    (left.joined .diff leftField right rightField).FollowsSchema where
  distinct := h.distinct
  items := by
    intro filters run hrun key value hmem
    obtain ⟨leftRun, leftKey, tuple, hleft, hrow, hmakes⟩ := exists_makes_of_mem_joined hrun hmem
    exact hmakes.eq_of_diff ▸ h.items .none leftRun hleft leftKey _ hrow
  item := by
    intro key value hfound
    obtain ⟨leftKey, tuple, hleft, hmakes⟩ := exists_makes_of_item_joined hfound
    exact hmakes.eq_of_diff ▸ h.item leftKey _ hleft

theorem followsSchema_joinedOn (left right : Collection) (predicate : Predicate) :
    (left.joinedOn right predicate).FollowsSchema := by
  have hselected := (followsSchema_product left right).selected predicate
  rw [Collection.joinedOn]
  split
  next leftField rightField _ =>
    have hjoined : (left.joined .inner leftField right rightField).FollowsSchema :=
      followsSchema_joined left right leftField rightField (by decide)
    exact hjoined.withId _
  next => exact hselected.withId _

end Collection

/-! ## Trees that follow their schema -/

namespace Operator

/-- The part of a tree that makes its tuples: a selection hands on those of its input, and a difference
those of its left input. -/
def rowMaker : Operator → Operator
  | selection _ input => input.rowMaker
  | fieldJoin .diff left _ _ _ => left.rowMaker
  | tree => tree

/-- The rows of a tree, and what it finds by key, are tuples with exactly the names of its properties,
in the same order, unless they are those of a leaf. -/
theorem rows_follow_schema {tree : Operator} (hmaker : ∀ source, tree.rowMaker ≠ leaf source) :
    tree.collection.FollowsSchema := by
  induction tree with
  | leaf source => exact absurd rfl (hmaker source)
  | projection input pairs => exact Collection.followsSchema_projected input.collection pairs
  | selection predicate input ih => exact (ih hmaker).selected predicate
  | product left right => exact Collection.followsSchema_product left.collection right.collection
  | fieldJoin join left leftField right rightField ihl =>
    cases join with
    | inner => exact Collection.followsSchema_joined _ _ leftField rightField (by decide)
    | left => exact Collection.followsSchema_joined _ _ leftField rightField (by decide)
    | diff => exact (ihl hmaker).diff right.collection leftField rightField
  | predicateJoin left right predicate =>
    exact Collection.followsSchema_joinedOn left.collection right.collection predicate

/-- A field copied three times, twice under the same name. -/
def doubled : Operator :=
  .selection ⟨"b", .notEqual, .constant (.string "")⟩
    (.fieldJoin .diff (.projection amounts [("x", "a"), ("x", "b"), ("x", "a")]) "a" labels "z")

/-- The tuples come from the projection on the left of the difference. -/
theorem rows_follow_schema_of_repeated_target :
    (∀ source, doubled.rowMaker ≠ leaf source) ∧
      doubled.collection.properties.names = ["a", "b"] ∧
      (doubled.collection.items .none).map Run.rows =
        .ok [.ok (.pair (.index 0) .empty, .object [("a", .string "1"), ("b", .string "1")]),
          .error (.missingField "x")] ∧
      doubled.collection.FollowsSchema := by
  have hmaker : ∀ source, doubled.rowMaker ≠ leaf source := fun _ h => nomatch h
  exact ⟨hmaker, rfl, by decide +kernel, rows_follow_schema hmaker⟩

end Operator

end TableQuery
