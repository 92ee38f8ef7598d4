import TableQuery.Proofs.Operator.Strategy

/-!
# Trees and their rows

`Operator.Built` are the trees that building yields over given leaves: each operator was accepted by
its building function.  `Operator.rows` reads the rows of a tree off its operators, without filters,
capabilities, indexes or join strategies.  The collection of a built tree delivers just these rows
(`Built.delivers`), whatever it does to get them.

So a join on a predicate delivers what the selection of the product does
(`joinOnPredicate_eq_select_cross`), also if it runs as a join on fields.
-/

namespace TableQuery

/-! ## Building -/

theorem requireTuples_bind_eq_ok_iff {operation : String} {input : Collection} {α : Type}
    {next : Except Fault α} {result : α} :
    (requireTuples operation input >>= fun _ => next) = .ok result ↔
      input.kind.hasTuples = true ∧ next = .ok result := by
  rw [requireTuples]
  split
  · next h =>
    constructor
    · intro hnext
      exact ⟨h, hnext⟩
    · intro hnext
      exact hnext.2
  · next h =>
    constructor
    · intro hnext
      cases hnext
    · intro hnext
      exact absurd hnext.1 h

namespace Operator

theorem project_eq_ok_iff {input tree : Operator} {pairs : FieldPairs} :
    input.project pairs = .ok tree ↔
      input.collection.kind.hasTuples = true ∧ .projection input pairs = tree := by
  rw [project, requireTuples_bind_eq_ok_iff]
  exact and_congr_right fun _ => ⟨Except.ok.inj, congrArg Except.ok⟩

theorem select_eq_ok_iff {input tree : Operator} {predicate : Predicate} :
    select predicate input = .ok tree ↔
      input.collection.kind.hasTuples = true ∧ .selection predicate input = tree := by
  rw [select, requireTuples_bind_eq_ok_iff]
  exact and_congr_right fun _ => ⟨Except.ok.inj, congrArg Except.ok⟩

theorem cross_eq_ok_iff {left right tree : Operator} :
    cross left right = .ok tree ↔
      left.collection.kind.hasTuples = true ∧ right.collection.kind.hasTuples = true ∧
        .product left right = tree := by
  rw [cross, requireTuples_bind_eq_ok_iff, requireTuples_bind_eq_ok_iff]
  exact and_congr_right fun _ => and_congr_right fun _ => ⟨Except.ok.inj, congrArg Except.ok⟩

theorem joinOnFields_eq_ok_iff {join : JoinType} {left right tree : Operator}
    {leftField rightField : String} :
    joinOnFields join left leftField right rightField = .ok tree ↔
      left.collection.kind.hasTuples = true ∧ right.collection.kind.hasTuples = true ∧
        .fieldJoin join left leftField right rightField = tree := by
  rw [joinOnFields, requireTuples_bind_eq_ok_iff, requireTuples_bind_eq_ok_iff]
  exact and_congr_right fun _ => and_congr_right fun _ => ⟨Except.ok.inj, congrArg Except.ok⟩

/-- A planned join has tuples on both sides, whatever the strategy. -/
theorem hasTuples_of_plan {left right tree : Operator} {predicate : Predicate}
    {chosen : JoinStrategy} (h : plan left right predicate = .ok (chosen, tree)) :
    left.collection.kind.hasTuples = true ∧ right.collection.kind.hasTuples = true := by
  rw [plan] at h
  cases hstrategy : strategy left right predicate with
  | error fault =>
    rw [hstrategy] at h
    cases h
  | ok planned =>
    rw [hstrategy] at h
    cases planned with
    | onFields leftField rightField =>
      cases hjoin : joinOnFields .inner left leftField right rightField with
      | error fault =>
        simp only [bind, Except.bind, hjoin] at h
        cases h
      | ok joined =>
        obtain ⟨hl, hr, _⟩ := joinOnFields_eq_ok_iff.mp hjoin
        exact ⟨hl, hr⟩
    | productThenSelection =>
      cases hcross : cross left right with
      | error fault =>
        simp only [bind, Except.bind, hcross] at h
        cases h
      | ok crossed =>
        obtain ⟨hl, hr, _⟩ := cross_eq_ok_iff.mp hcross
        exact ⟨hl, hr⟩

/-- A join has a plan exactly if it has tuples on both sides and a strategy. -/
theorem exists_plan_iff {left right : Operator} {predicate : Predicate} :
    (∃ planned, plan left right predicate = .ok planned) ↔
      left.collection.kind.hasTuples = true ∧ right.collection.kind.hasTuples = true ∧
        ∃ chosen, strategy left right predicate = .ok chosen := by
  constructor
  · rintro ⟨⟨chosen, tree⟩, hplan⟩
    obtain ⟨hl, hr⟩ := hasTuples_of_plan hplan
    obtain ⟨planned, hstrategy, _⟩ := bind_eq_ok_iff.mp hplan
    exact ⟨hl, hr, planned, hstrategy⟩
  · rintro ⟨hl, hr, chosen, hstrategy⟩
    cases chosen with
    | onFields leftField rightField =>
      have hjoin : joinOnFields .inner left leftField right rightField = .ok _ :=
        joinOnFields_eq_ok_iff.mpr ⟨hl, hr, rfl⟩
      exact ⟨_, bind_eq_ok_iff.mpr ⟨_, hstrategy, bind_eq_ok_iff.mpr ⟨_, hjoin, rfl⟩⟩⟩
    | productThenSelection =>
      have hcross : cross left right = .ok _ := cross_eq_ok_iff.mpr ⟨hl, hr, rfl⟩
      have hselect : select predicate (.product left right) = .ok _ :=
        select_eq_ok_iff.mpr ⟨rfl, rfl⟩
      exact ⟨_, bind_eq_ok_iff.mpr ⟨_, hstrategy, bind_eq_ok_iff.mpr ⟨_, hcross,
        bind_eq_ok_iff.mpr ⟨_, hselect, rfl⟩⟩⟩⟩

theorem joinOnPredicate_eq_ok_iff {join : JoinType} {left right tree : Operator}
    {predicate : Predicate} :
    joinOnPredicate join left right predicate = .ok tree ↔
      join = .inner ∧ left.collection.kind.hasTuples = true ∧
        right.collection.kind.hasTuples = true ∧
        (∃ chosen, strategy left right predicate = .ok chosen) ∧
        .predicateJoin left right predicate = tree := by
  rw [joinOnPredicate]
  split
  next hinner =>
    rw [bind_eq_ok_iff]
    constructor
    · rintro ⟨planned, hplan, htree⟩
      obtain ⟨hl, hr, hchosen⟩ := exists_plan_iff.mp ⟨planned, hplan⟩
      exact ⟨hinner, hl, hr, hchosen, Except.ok.inj htree⟩
    · rintro ⟨_, hl, hr, hchosen, rfl⟩
      obtain ⟨planned, hplan⟩ := exists_plan_iff.mpr ⟨hl, hr, hchosen⟩
      exact ⟨planned, hplan, rfl⟩
  next hinner =>
    constructor
    · intro h
      cases h
    · intro h
      exact absurd h.1 hinner

theorem of_joinOnPredicate_eq_ok {join : JoinType} {left right tree : Operator}
    {predicate : Predicate} (h : joinOnPredicate join left right predicate = .ok tree) :
    left.collection.kind.hasTuples = true ∧ right.collection.kind.hasTuples = true ∧
      .predicateJoin left right predicate = tree := by
  obtain ⟨_, hl, hr, _, htree⟩ := joinOnPredicate_eq_ok_iff.mp h
  exact ⟨hl, hr, htree⟩

/-- The trees that building yields over leaves of the given sort. -/
inductive Built (Leaf : Collection → Prop) : Operator → Prop where
  | leaf {source : Collection} : Leaf source → Built Leaf (.leaf source)
  | project {input tree : Operator} {pairs : FieldPairs} :
      Built Leaf input → input.project pairs = .ok tree → Built Leaf tree
  | select {input tree : Operator} {predicate : Predicate} :
      Built Leaf input → select predicate input = .ok tree → Built Leaf tree
  | cross {left right tree : Operator} :
      Built Leaf left → Built Leaf right → cross left right = .ok tree → Built Leaf tree
  | joinOnFields {join : JoinType} {left right tree : Operator} {leftField rightField : String} :
      Built Leaf left → Built Leaf right →
        joinOnFields join left leftField right rightField = .ok tree → Built Leaf tree
  | joinOnPredicate {join : JoinType} {left right tree : Operator} {predicate : Predicate} :
      Built Leaf left → Built Leaf right →
        joinOnPredicate join left right predicate = .ok tree → Built Leaf tree

end Operator

/-! ## The rows of a tree -/

/-- The rows of a collection without filters, none if it cannot be read. -/
def Collection.rows (source : Collection) : List (Except Fault Row) :=
  match source.items .none with
  | .ok run => run.rows
  | .error _ => []

namespace Operator

/-- The merged schema of two trees. -/
def mergedSchema (left right : Operator) : MergedSchema :=
  .merge left.collection.properties right.collection.properties

/-- The rows of a tree, as its operators say and not as its collection gets them. -/
def rows : Operator → List (Except Fault Row)
  | leaf source => source.rows
  | projection input pairs => input.rows.map pairs.projectRow
  | selection predicate input => input.rows.filterMap predicate.keep
  | product left right => productRows (mergedSchema left right) left.rows right.rows
  | fieldJoin join left leftField right rightField =>
    joinRows join (mergedSchema left right) leftField rightField left.rows right.rows
  | predicateJoin left right predicate =>
    (productRows (mergedSchema left right) left.rows right.rows).filterMap predicate.keep

end Operator

namespace Collection

variable {source left right : Collection} {rows leftRows rightRows : List (Except Fault Row)}

theorem Delivers.rows_eq (h : source.Delivers rows) : source.rows = rows := by
  obtain ⟨run, hrun, hrows⟩ := map_eq_ok_iff.mp h.items
  rw [Collection.rows, hrun]
  exact hrows

theorem Delivers.self (h : source.Delivers rows) : source.Delivers source.rows := by
  rw [h.rows_eq]
  exact h

theorem Delivers.withId (h : source.Delivers rows) (id : String) :
    Delivers { source with id } rows :=
  ⟨h.items, h.onValue, h.tuples, h.matching⟩

/-- A join on a predicate is of one kind and has one schema, whatever its strategy. -/
theorem kind_joinedOn (predicate : Predicate) :
    (left.joinedOn right predicate).kind = .dictOfTuples := by
  rw [Collection.joinedOn]
  split <;> rfl

theorem properties_joinedOn (predicate : Predicate) :
    (left.joinedOn right predicate).properties =
      (MergedSchema.merge left.properties right.properties).properties := by
  rw [Collection.joinedOn]
  split <;> rfl

/-- A join on a predicate delivers the selection of the product, whatever its strategy. -/
theorem Delivers.joinedOn (hl : left.Delivers leftRows) (hr : right.Delivers rightRows)
    (hkind : right.kind.hasTuples = true) (predicate : Predicate) :
    (left.joinedOn right predicate).Delivers
      ((productRows (.merge left.properties right.properties) leftRows rightRows).filterMap
        predicate.keep) := by
  have hselected := (hl.product hr).selected rfl predicate
  rw [Collection.joinedOn]
  split
  next leftField rightField hchoose =>
    have hequates := JoinStrategy.equates_of_choose hchoose
    rw [productRows_filterMap_keep hequates leftRows (hr.tuples hkind)]
    exact (hl.joined hr .inner leftField rightField).withId _
  next => exact hselected.withId _

end Collection

namespace Operator

/-- A built tree delivers its rows. -/
theorem Built.delivers {Leaf : Collection → Prop}
    (leaves : ∀ source, Leaf source → source.Delivers source.rows) {tree : Operator}
    (h : Built Leaf tree) : tree.collection.Delivers tree.rows := by
  induction h with
  | leaf hleaf => exact leaves _ hleaf
  | project _ hbuild ih =>
    obtain ⟨_, rfl⟩ := project_eq_ok_iff.mp hbuild
    exact ih.projected _
  | select _ hbuild ih =>
    obtain ⟨hkind, rfl⟩ := select_eq_ok_iff.mp hbuild
    exact ih.selected hkind _
  | cross _ _ hbuild ihl ihr =>
    obtain ⟨_, _, rfl⟩ := cross_eq_ok_iff.mp hbuild
    exact ihl.product ihr
  | joinOnFields _ _ hbuild ihl ihr =>
    obtain ⟨_, _, rfl⟩ := joinOnFields_eq_ok_iff.mp hbuild
    exact ihl.joined ihr _ _ _
  | joinOnPredicate _ _ hbuild ihl ihr =>
    obtain ⟨_, hkind, rfl⟩ := of_joinOnPredicate_eq_ok hbuild
    exact ihl.joinedOn ihr hkind _

end Operator

/-- The collections in memory. -/
def InMemory (source : Collection) : Prop := ∃ stored : Stored, source = stored.toCollection

theorem InMemory.delivers {source : Collection} (h : InMemory source) :
    source.Delivers source.rows := by
  obtain ⟨stored, rfl⟩ := h
  exact (Collection.Delivers.stored stored).self

namespace Operator

/-- A join on a predicate whose strategy is a join on fields is this join, but for its id. -/
theorem collection_predicateJoin {left right : Operator} {predicate : Predicate}
    {leftField rightField : String}
    (h : strategy left right predicate = .ok (.onFields leftField rightField)) :
    (predicateJoin left right predicate).collection =
      { left.collection.joined .inner leftField right.collection rightField with
        id := (predicateJoin left right predicate).collection.id } := by
  rw [strategy] at h
  simp only [collection, Collection.joinedOn, h]

/-- A join on a predicate that runs as a join on fields delivers the same rows and faults in the same
order as the selection of the product, and is of the same kind with the same properties. -/
theorem joinOnPredicate_eq_select_cross {left right join : Operator} {predicate : Predicate}
    {leftField rightField : String} (hl : Built InMemory left) (hr : Built InMemory right)
    (hstrategy : strategy left right predicate = .ok (.onFields leftField rightField))
    (hjoin : joinOnPredicate .inner left right predicate = .ok join) :
    ∃ reference rows, (do select predicate (← cross left right)) = .ok reference ∧
      (join.collection.items .none).map Run.rows = .ok rows ∧
      (reference.collection.items .none).map Run.rows = .ok rows ∧
      join.collection.kind = reference.collection.kind ∧
      join.collection.properties = reference.collection.properties := by
  have hdelivered := (Built.joinOnPredicate hl hr hjoin).delivers fun _ => InMemory.delivers
  obtain ⟨hleft, hright, rfl⟩ := of_joinOnPredicate_eq_ok hjoin
  have hcross : cross left right = .ok (.product left right) :=
    cross_eq_ok_iff.mpr ⟨hleft, hright, rfl⟩
  have hselect : select predicate (.product left right) =
      .ok (.selection predicate (.product left right)) := select_eq_ok_iff.mpr ⟨rfl, rfl⟩
  have hreference := ((Built.cross hl hr hcross).select hselect).delivers
    fun _ => InMemory.delivers
  have hplanned := collection_predicateJoin hstrategy
  refine ⟨_, _, ?_, hdelivered.items, hreference.items, ?_, ?_⟩
  · rw [hcross]
    exact hselect
  · rw [hplanned]
    rfl
  · rw [hplanned]
    rfl

/-- A number as a text, and a row without the field. -/
def amounts : Operator :=
  .leaf (Stored.ofTuples "amounts" [("x", .string)]
    [(.index 0, [("x", .string "1")]), (.name "0", [])] []).toCollection

/-- The same number as another text, and a row without the field, in an index. -/
def labels : Operator :=
  .leaf (Stored.ofTuples "labels" [("y", .string)]
    [(.name "a", [("y", .string "1.0")]), (.name "b", [])] ["y"]).toCollection

/-- A row without the field on each side, and an index on the right. -/
theorem joinOnPredicate_eq_select_cross_of_missing_fields :
    Built InMemory amounts ∧ Built InMemory labels ∧
      strategy amounts labels ⟨"x", .equal, .field "y"⟩ = .ok (.onFields "x" "y") ∧
      joinOnPredicate .inner amounts labels ⟨"x", .equal, .field "y"⟩ =
        .ok (.predicateJoin amounts labels ⟨"x", .equal, .field "y"⟩) ∧
      ∃ reference rows,
        (do select ⟨"x", .equal, .field "y"⟩ (← cross amounts labels)) = .ok reference ∧
        ((predicateJoin amounts labels ⟨"x", .equal, .field "y"⟩).collection.items .none).map
          Run.rows = .ok rows ∧
        (reference.collection.items .none).map Run.rows = .ok rows ∧
        (predicateJoin amounts labels ⟨"x", .equal, .field "y"⟩).collection.kind =
          reference.collection.kind ∧
        (predicateJoin amounts labels ⟨"x", .equal, .field "y"⟩).collection.properties =
          reference.collection.properties := by
  have hl : Built InMemory amounts := .leaf ⟨_, rfl⟩
  have hr : Built InMemory labels := .leaf ⟨_, rfl⟩
  exact ⟨hl, hr, rfl, rfl, joinOnPredicate_eq_select_cross hl hr rfl rfl⟩

end Operator

end TableQuery
