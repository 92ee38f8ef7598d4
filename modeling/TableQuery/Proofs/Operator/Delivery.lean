import TableQuery.Proofs.Collection.Stored
import TableQuery.Proofs.Operator.Row

/-!
# What operators deliver

`Collection.Delivers` says of a collection which rows it delivers, however it is read: all of them
without filters, those that agree with a value if they are looked up by value, and those that satisfy a
predicate if it can evaluate predicates.  Stored collections deliver their rows, and every operator
delivers a list that depends on nothing but the lists that its inputs deliver: `Delivers.projected`,
`Delivers.selected`, `Delivers.product`, `Delivers.joined`.

The lists are those of `projectRow`, `keep`, `productRows` and `joinRows`, which mention no filters, no
capabilities and no runs.
-/

namespace TableQuery

/-! ## The first row of a run -/

namespace Run

theorem rows_onFirst_of_nil {run : Run} (h : run.rows = []) (onNone : Unit → Run)
    (onRow : Except Fault Row → (Unit → Run) → Run) :
    (run.onFirst onNone onRow).rows = (onNone ()).rows := by
  induction run with
  | done => rfl
  | step event rest ih =>
    cases event with
    | pull source =>
      rw [rows_pull] at h
      rw [onFirst, rows_pull]
      exact ih () h
    | row outcome =>
      rw [rows_row] at h
      cases h
  | later rest ih => exact ih () h

theorem rows_onFirst_of_cons {run : Run} {outcome : Except Fault Row}
    {others : List (Except Fault Row)} (h : run.rows = outcome :: others) (onNone : Unit → Run)
    (onRow : Except Fault Row → (Unit → Run) → Run) :
    ∃ rest, (rest ()).rows = others ∧
      (run.onFirst onNone onRow).rows = (onRow outcome rest).rows := by
  induction run with
  | done => cases h
  | step event rest ih =>
    cases event with
    | pull source =>
      rw [rows_pull] at h
      rw [onFirst, rows_pull]
      exact ih () h
    | row first =>
      rw [rows_row] at h
      obtain ⟨rfl, rfl⟩ := List.cons.inj h
      exact ⟨rest, rfl, rfl⟩
  | later rest ih => exact ih () h

end Run

/-! ## Rows of pairs -/

/-- What a row becomes: a list that depends on its key and tuple, or the fault if there is none. -/
def expandTuple (f : Key → Tuple → List (Except Fault Row)) (outcome : Except Fault Row) :
    List (Except Fault Row) :=
  match keyedTuple outcome with
  | .error fault => [.error fault]
  | .ok (key, tuple) => f key tuple

/-- The rows of a product. -/
def productRows (schema : MergedSchema) (left right : List (Except Fault Row)) :
    List (Except Fault Row) :=
  left.flatMap (expandTuple fun key tuple => right.map (schema.pairRow key tuple))

/-- What a left row of a join becomes, given its matches. -/
def JoinType.matchRows (join : JoinType) (schema : MergedSchema) (key : Key) (tuple : Tuple)
    (found : List (Except Fault Row)) : List (Except Fault Row) :=
  match join, found with
  | inner, found => found.map (schema.pairRow key tuple)
  | left, [] | diff, [] => [.ok (.pair key .empty, join.unmatched schema tuple)]
  | left, found => found.map (schema.pairRow key tuple)
  | diff, .ok _ :: _ => []
  | diff, .error fault :: _ => [.error fault]

/-- What a left row without the field looks for is null. -/
def Tuple.valueOrNull (tuple : Tuple) (field : String) : Json := (tuple.get? field).getD .null

/-- The rows of a join on a field of each side. -/
def joinRows (join : JoinType) (schema : MergedSchema) (leftField rightField : String)
    (left right : List (Except Fault Row)) : List (Except Fault Row) :=
  left.flatMap (expandTuple fun key tuple =>
    join.matchRows schema key tuple (right.filter (scanKeeps rightField (tuple.valueOrNull leftField))))

theorem rows_pairs (schema : MergedSchema) (key : Key) (tuple : Tuple) (found : Run) :
    (found.filterMap fun other => some (schema.pairRow key tuple other)).rows =
      found.rows.map (schema.pairRow key tuple) := by
  rw [Run.rows_filterMap]
  exact congrFun List.filterMap_eq_map' found.rows

theorem rows_expandMatches (join : JoinType) (schema : MergedSchema) (key : Key) (tuple : Tuple)
    (found : Run) :
    (join.expandMatches schema key tuple found).rows =
      join.matchRows schema key tuple found.rows := by
  cases join with
  | inner => exact rows_pairs schema key tuple found
  | left =>
    cases hrows : found.rows with
    | nil =>
      have hnil := rows_pairs schema key tuple found
      rw [hrows] at hnil
      rw [JoinType.expandMatches]
      exact Run.rows_onFirst_of_nil hnil _ _
    | cons outcome others =>
      have hcons := rows_pairs schema key tuple found
      rw [hrows] at hcons
      rw [JoinType.expandMatches]
      obtain ⟨rest, hrest, hfirst⟩ := Run.rows_onFirst_of_cons hcons _ _
      refine hfirst.trans ?_
      rw [Run.rows_row, hrest]
      rfl
  | diff =>
    cases hrows : found.rows with
    | nil =>
      rw [JoinType.expandMatches]
      exact Run.rows_onFirst_of_nil hrows _ _
    | cons outcome others =>
      rw [JoinType.expandMatches]
      obtain ⟨rest, _, hfirst⟩ := Run.rows_onFirst_of_cons hrows _ _
      refine hfirst.trans ?_
      cases outcome <;> rfl

/-! ## Delivering rows -/

/-- Which rows a collection delivers, however it is read. -/
structure Collection.Delivers (source : Collection) (rows : List (Except Fault Row)) : Prop where
  /-- Without filters it delivers all rows. -/
  items : (source.items .none).map Run.rows = .ok rows
  /-- Looked up by value, it delivers the rows that a scan keeps. -/
  onValue : ∀ field value,
    (source.itemsOnValue field value).map Run.rows = .ok (rows.filter (scanKeeps field value))
  /-- The rows of a tuple kind hold tuples. -/
  tuples : source.kind.hasTuples = true → ∀ row, .ok row ∈ rows → Row.isTuple row = true
  /-- If it can evaluate predicates, it delivers the rows that satisfy one; and if it can skip rows too,
  it skips those. -/
  matching : .predicate ∈ source.capabilities → ∀ skip predicate,
    (skip ≠ none → .skip ∈ source.capabilities) →
      (source.items ⟨skip, some predicate⟩).map Run.rows =
        .ok (Run.dropRows (skip.getD 0) (rows.filterMap predicate.keep))

namespace Collection

variable {source left right : Collection} {rows leftRows rightRows : List (Except Fault Row)}

/-- A collection that scans and cannot evaluate predicates. -/
theorem Delivers.of_scan (items : (source.items .none).map Run.rows = .ok rows)
    (scans : source.itemsOnValue = scanOnValue source.items)
    (tuples : ∀ row, .ok row ∈ rows → Row.isTuple row = true)
    (plain : .predicate ∉ source.capabilities) : source.Delivers rows where
  items := items
  onValue := by
    intro field value
    obtain ⟨run, hrun, hrows⟩ := map_eq_ok_iff.mp items
    rw [scans, scanOnValue, hrun]
    show Except.ok (run.scan field value).rows = _
    rw [Run.rows_scan, hrows]
  tuples := fun _ => tuples
  matching := fun h => absurd h plain

theorem Delivers.stored (stored : Stored) : stored.toCollection.Delivers stored.outcomes where
  items := by
    show Except.ok (stored.items .none).rows = _
    rw [Stored.rows_items]
    exact congrArg Except.ok (Run.dropRows_zero _)
  onValue := fun field value => congrArg Except.ok (stored.rows_itemsOnValue field value)
  tuples := fun h _ hmem => Stored.isTuple_of_mem_outcomes h hmem
  matching := fun _ skip predicate _ => congrArg Except.ok (stored.rows_items ⟨skip, some predicate⟩)

/-! ## Operators with one input -/

theorem rows_projectRow (pairs : FieldPairs) (run : Run) :
    (run.filterMap fun outcome => some (pairs.projectRow outcome)).rows =
      run.rows.map pairs.projectRow := by
  rw [Run.rows_filterMap]
  exact congrFun List.filterMap_eq_map' run.rows

theorem Delivers.projected (h : source.Delivers rows) (pairs : FieldPairs) :
    (source.projected pairs).Delivers (rows.map pairs.projectRow) := by
  have hplain : .predicate ∉ (source.projected pairs).capabilities := by
    show .predicate ∉ if .skip ∈ source.capabilities then [Capability.skip] else []
    split <;> simp
  have hitems : ((source.projected pairs).items .none).map Run.rows =
      .ok (rows.map pairs.projectRow) := by
    obtain ⟨run, hrun, rfl⟩ := map_eq_ok_iff.mp h.items
    have hpassed : ∀ capabilities, Filters.restrictedTo ⟨Filters.none.skip, none⟩ capabilities =
        Filters.none := by
      intro capabilities
      simp [Filters.restrictedTo, Filters.none]
    simp only [Collection.projected, hpassed, hrun]
    exact congrArg Except.ok (rows_projectRow pairs run)
  refine .of_scan hitems rfl ?_ hplain
  intro row hrow
  obtain ⟨outcome, _, hproject⟩ := List.mem_map.mp hrow
  obtain ⟨value, _, hvalue⟩ := FieldPairs.projectRow_eq_ok_iff.mp hproject
  obtain ⟨out, hout⟩ := FieldPairs.exists_object_of_project hvalue
  rw [Row.isTuple, hout]
  rfl

theorem Delivers.selected (h : source.Delivers rows) (hkind : source.kind.hasTuples = true)
    (predicate : Predicate) :
    (source.selected predicate).Delivers (rows.filterMap predicate.keep) := by
  have hplain : .predicate ∉ (source.selected predicate).capabilities := by
    show .predicate ∉
      if source.takesPredicate && decide (.skip ∈ source.capabilities) then [Capability.skip] else []
    split <;> simp
  have hitems : ((source.selected predicate).items .none).map Run.rows =
      .ok (rows.filterMap predicate.keep) := by
    simp only [Collection.selected]
    split
    next htakes =>
      have hpredicate : .predicate ∈ source.capabilities := of_decide_eq_true htakes
      have hpassed : Filters.restrictedTo ⟨Filters.none.skip, some predicate⟩ source.capabilities =
          ⟨none, some predicate⟩ := by
        simp [Filters.restrictedTo, Filters.none, hpredicate]
      rw [hpassed, h.matching hpredicate none predicate (fun hne => absurd rfl hne)]
      exact congrArg Except.ok (Run.dropRows_zero _)
    next htakes =>
      obtain ⟨run, hrun, rfl⟩ := map_eq_ok_iff.mp h.items
      rw [hrun]
      exact congrArg Except.ok (Run.rows_filterMap predicate.keep run)
  refine .of_scan hitems rfl ?_ hplain
  intro row hrow
  obtain ⟨outcome, hmem, hkeep⟩ := List.mem_filterMap.mp hrow
  obtain ⟨rfl, _⟩ := Predicate.keep_eq_some_ok_iff.mp hkeep
  exact h.tuples hkind row hmem

/-! ## Operators with two inputs -/

theorem isTuple_of_mem_pairRows {schema : MergedSchema} {key : Key} {tuple : Tuple} {row : Row}
    {found : List (Except Fault Row)} (h : .ok row ∈ found.map (schema.pairRow key tuple)) :
    row.isTuple = true := by
  obtain ⟨outcome, _, hpair⟩ := List.mem_map.mp h
  obtain ⟨otherKey, other, _, rfl⟩ := MergedSchema.pairRow_eq_ok_iff.mp hpair
  rfl

/-- A row among those that rows become comes from one of these rows. -/
theorem mem_flatMap_expandTuple {f : Key → Tuple → List (Except Fault Row)} {row : Row} :
    .ok row ∈ leftRows.flatMap (expandTuple f) ↔
      ∃ key tuple, .ok (key, .object tuple) ∈ leftRows ∧ .ok row ∈ f key tuple := by
  rw [List.mem_flatMap]
  constructor
  · rintro ⟨outcome, hmem, hrow⟩
    rw [expandTuple] at hrow
    split at hrow
    next fault h => cases List.mem_singleton.mp hrow
    next key tuple h =>
      rw [keyedTuple_eq_ok_iff] at h
      subst h
      exact ⟨key, tuple, hmem, hrow⟩
  · rintro ⟨key, tuple, hmem, hrow⟩
    exact ⟨_, hmem, hrow⟩

theorem Delivers.product (hl : left.Delivers leftRows) (hr : right.Delivers rightRows) :
    (left.product right).Delivers
      (productRows (.merge left.properties right.properties) leftRows rightRows) := by
  have hitems : ((left.product right).items .none).map Run.rows =
      .ok (productRows (.merge left.properties right.properties) leftRows rightRows) := by
    obtain ⟨leftRun, hleft, rfl⟩ := map_eq_ok_iff.mp hl.items
    obtain ⟨rightRun, hright, rfl⟩ := map_eq_ok_iff.mp hr.items
    simp only [Collection.product, hleft, hright]
    refine congrArg Except.ok ?_
    rw [Run.rows_concatMap, productRows]
    congr 1
    funext outcome
    rw [expandTuple]
    cases keyedTuple outcome with
    | error fault => exact Run.rows_single _
    | ok keyed => exact rows_pairs _ keyed.1 keyed.2 rightRun
  refine .of_scan hitems rfl ?_ List.not_mem_nil
  intro row hrow
  obtain ⟨key, tuple, _, hpair⟩ := mem_flatMap_expandTuple.mp hrow
  exact isTuple_of_mem_pairRows hpair

theorem isTuple_of_mem_matchRows {join : JoinType} {schema : MergedSchema} {key : Key}
    {tuple : Tuple} {found : List (Except Fault Row)} {row : Row}
    (h : .ok row ∈ join.matchRows schema key tuple found) : row.isTuple = true := by
  have halone : ∀ join : JoinType,
      Row.isTuple (.pair key .empty, join.unmatched schema tuple) = true := by
    intro join
    cases join <;> rfl
  match join, found, h with
  | .inner, found, h => exact isTuple_of_mem_pairRows h
  | .left, [], h =>
    cases List.mem_singleton.mp h
    exact halone .left
  | .diff, [], h =>
    cases List.mem_singleton.mp h
    exact halone .diff
  | .left, outcome :: others, h => exact isTuple_of_mem_pairRows h
  | .diff, .ok _ :: _, h => cases h
  | .diff, .error _ :: _, h => cases List.mem_singleton.mp h

/-- A join skips the rows that it delivers. -/
theorem items_joined (hl : left.Delivers leftRows) (hr : right.Delivers rightRows) (join : JoinType)
    (leftField rightField : String) (filters : Filters) :
    ((left.joined join leftField right rightField).items filters).map Run.rows =
      .ok (Run.dropRows (filters.skip.getD 0)
        (joinRows join (.merge left.properties right.properties) leftField rightField leftRows
          rightRows)) := by
  obtain ⟨leftRun, hleft, rfl⟩ := map_eq_ok_iff.mp hl.items
  simp only [Collection.joined, hleft]
  refine congrArg Except.ok ?_
  rw [Run.rows_skipRows, Run.rows_concatMap, joinRows]
  congr 2
  funext outcome
  rw [expandTuple]
  cases keyedTuple outcome with
  | error fault => exact Run.rows_single _
  | ok keyed =>
    obtain ⟨found, hfound, hrows⟩ :=
      map_eq_ok_iff.mp (hr.onValue rightField (Tuple.valueOrNull keyed.2 leftField))
    simp only [Tuple.valueOrNull] at hfound hrows ⊢
    rw [hfound, ← hrows]
    exact rows_expandMatches join _ keyed.1 keyed.2 found

theorem Delivers.joined (hl : left.Delivers leftRows) (hr : right.Delivers rightRows)
    (join : JoinType) (leftField rightField : String) :
    (left.joined join leftField right rightField).Delivers
      (joinRows join (.merge left.properties right.properties) leftField rightField leftRows
        rightRows) := by
  have hitems := items_joined hl hr join leftField rightField .none
  rw [show Filters.none.skip.getD 0 = 0 from rfl, Run.dropRows_zero] at hitems
  refine .of_scan hitems rfl ?_ (by simp [Collection.joined])
  intro row hrow
  obtain ⟨key, tuple, _, hmatch⟩ := mem_flatMap_expandTuple.mp hrow
  exact isTuple_of_mem_matchRows hmatch

end Collection

end TableQuery
