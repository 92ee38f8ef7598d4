import TableQuery.Proofs.Collection.Skipping
import TableQuery.Proofs.Operator.Tree

/-!
# Paging through a tree

A page leaves leading rows out and no fault.  A tree that can skip rows is asked to skip them, and a
projection passes that on to its input.  Then the rows are counted below the projections
(`Operator.counted`), where a row that they will turn into a fault is still a row.

So paging drops leading rows of the counted tree and projects what is left (`Built.rows_page`).  It
drops leading rows of the tree itself exactly if none of the rows that it drops becomes a fault in the
projections (`page_eq_dropRows_iff`); otherwise that fault is lost, and a row too many is dropped.
-/

namespace TableQuery

namespace Run

/-! ## Leaving out leading rows -/

/-- The leading rows, without the faults between them. -/
def leading (n : Nat) (outcomes : List (Except Fault Row)) : List Row :=
  (outcomes.filterMap Except.toOption).take n

/-- Leaving rows out before or after a map makes no difference exactly if no row that is left out
becomes a fault: a fault that is left out is missing among the faults. -/
theorem map_dropRows_eq_iff {f : Except Fault Row → Except Fault Row}
    (hf : ∀ fault, f (.error fault) = .error fault) (n : Nat) (outcomes : List (Except Fault Row)) :
    (dropRows n outcomes).map f = dropRows n (outcomes.map f) ↔
      ∀ row ∈ leading n outcomes, (f (.ok row)).isOk = true := by
  induction outcomes generalizing n with
  | nil => cases n <;> simp [dropRows, leading]
  | cons outcome rest ih =>
    cases n with
    | zero => simp [dropRows, leading]
    | succ n =>
      cases outcome with
      | error fault =>
        have hstep := ih (n + 1)
        simp only [List.map_cons, dropRows, hf, List.cons.injEq, true_and]
        exact hstep
      | ok row =>
        have hleading : leading (n + 1) (.ok row :: rest) = row :: leading n rest := rfl
        cases hrow : f (.ok row) with
        | ok mapped =>
          have hstep := ih n
          simp only [List.map_cons, dropRows, hrow, hleading, List.forall_mem_cons]
          rw [hstep]
          exact ⟨fun h => ⟨rfl, h⟩, fun h => h.2⟩
        | error fault =>
          constructor
          · intro h
            have hfaults := congrArg faults h
            rw [faults_dropRows, List.map_cons, hrow] at hfaults
            have hle := length_faults_le ((dropRows_sublist n rest).map f)
            have hlength := congrArg List.length hfaults
            -- the fault made of this row is one more than the rest can have left
            simp only [dropRows, faults_error, List.length_cons] at hlength
            omega
          · intro h
            have hok := h row (hleading ▸ List.mem_cons_self ..)
            rw [hrow] at hok
            cases hok

end Run

namespace Operator

/-! ## Where rows are counted -/

/-- The tree whose rows are counted when a tree skips rows: below the projections that pass the
skipping on. -/
def counted : Operator → Operator
  | projection input pairs =>
    if .skip ∈ input.collection.capabilities then input.counted else .projection input pairs
  | tree => tree

/-- What the projections above the counted tree make of its rows. -/
def finish : Operator → Except Fault Row → Except Fault Row
  | projection input pairs, outcome =>
    if .skip ∈ input.collection.capabilities then pairs.projectRow (input.finish outcome) else outcome
  | _, outcome => outcome

theorem finish_error (tree : Operator) (fault : Fault) : tree.finish (.error fault) = .error fault := by
  induction tree with
  | projection input pairs ih =>
    rw [finish]
    split
    · rw [ih]
      rfl
    · rfl
  | _ => rfl

theorem rows_eq_map_finish (tree : Operator) : tree.rows = tree.counted.rows.map tree.finish := by
  have hself : ∀ tree : Operator, tree.rows = tree.rows.map fun outcome => outcome :=
    fun tree => (List.map_id' _).symm
  induction tree with
  | projection input pairs ih =>
    by_cases hskip : .skip ∈ input.collection.capabilities
    · simp only [counted, finish, if_pos hskip, rows]
      rw [ih, List.map_map]
      rfl
    · simp only [counted, finish, if_neg hskip]
      exact hself _
  | leaf source => exact hself _
  | selection predicate input => exact hself _
  | product left right => exact hself _
  | fieldJoin join left leftField right rightField => exact hself _
  | predicateJoin left right predicate => exact hself _

theorem skip_mem_projected {input : Collection} {pairs : FieldPairs} :
    .skip ∈ (input.projected pairs).capabilities ↔ .skip ∈ input.capabilities := by
  show .skip ∈ (if .skip ∈ input.capabilities then [Capability.skip] else []) ↔ _
  split
  next h => simp [h]
  next h => simp [h]

theorem skip_mem_selected {input : Collection} {predicate : Predicate} :
    .skip ∈ (input.selected predicate).capabilities ↔
      .predicate ∈ input.capabilities ∧ .skip ∈ input.capabilities := by
  show .skip ∈ (if input.takesPredicate && decide (.skip ∈ input.capabilities)
    then [Capability.skip] else []) ↔ _
  rw [Collection.takesPredicate, ← Bool.decide_and]
  split
  next hboth => simpa using hboth
  next hboth => simpa using hboth

/-- A tree that cannot skip rows counts its own. -/
theorem counted_of_not_skip {tree : Operator} (h : .skip ∉ tree.collection.capabilities) :
    tree.counted = tree ∧ ∀ outcome, tree.finish outcome = outcome := by
  cases tree with
  | projection input pairs =>
    have hskip : .skip ∉ input.collection.capabilities := fun hin => h (skip_mem_projected.mpr hin)
    refine ⟨if_neg hskip, fun outcome => ?_⟩
    rw [finish, if_neg hskip]
  | _ => exact ⟨rfl, fun _ => rfl⟩

/-! ## Skipping natively -/

/-- What a tree delivers that can skip rows and is told to. -/
def SkipsCounted (tree : Operator) : Prop :=
  .skip ∈ tree.collection.capabilities → ∀ n,
    (tree.collection.items (.skipping n)).map Run.rows =
      .ok ((Run.dropRows n tree.counted.rows).map tree.finish)

theorem SkipsCounted.projection {input : Operator} (h : input.SkipsCounted) (pairs : FieldPairs) :
    (projection input pairs).SkipsCounted := by
  intro hskip n
  have hin : .skip ∈ input.collection.capabilities := skip_mem_projected.mp hskip
  obtain ⟨run, hrun, hrows⟩ := map_eq_ok_iff.mp (h hin n)
  have hpassed : Filters.restrictedTo ⟨(Filters.skipping n).skip, none⟩ [Capability.skip] =
      .skipping n := by
    simp [Filters.restrictedTo, Filters.skipping]
  simp only [collection, Collection.projected, if_pos hin, hpassed, hrun, counted]
  refine congrArg Except.ok ?_
  rw [Collection.rows_projectRow, hrows, List.map_map]
  congr 1
  funext outcome
  simp only [finish, if_pos hin, Function.comp_apply]

/-- A selection can skip rows only if its input evaluates the predicate. -/
theorem SkipsCounted.selection {input : Operator}
    (h : input.collection.Delivers input.rows) (predicate : Predicate) :
    (selection predicate input).SkipsCounted := by
  intro hskip n
  obtain ⟨hpredicate, hin⟩ := skip_mem_selected.mp hskip
  have htakes : input.collection.takesPredicate = true := decide_eq_true hpredicate
  have hpassed : Filters.restrictedTo ⟨(Filters.skipping n).skip, some predicate⟩
      input.collection.capabilities = ⟨some n, some predicate⟩ := by
    simp [Filters.restrictedTo, Filters.skipping, hpredicate, hin]
  simp only [collection, Collection.selected, htakes, if_true, hpassed]
  rw [h.matching hpredicate (some n) predicate fun _ => hin]
  exact congrArg Except.ok (List.map_id' _).symm

theorem SkipsCounted.fieldJoin {left right : Operator} (hl : left.collection.Delivers left.rows)
    (hr : right.collection.Delivers right.rows) (join : JoinType) (leftField rightField : String) :
    (fieldJoin join left leftField right rightField).SkipsCounted := by
  intro _ n
  refine (Collection.items_joined hl hr join leftField rightField (.skipping n)).trans ?_
  exact congrArg Except.ok (List.map_id' _).symm

/-- A join on a predicate that runs as a selection of the product cannot skip rows. -/
theorem not_skip_of_strategy {left right : Operator} {predicate : Predicate}
    (h : ∀ leftField rightField, strategy left right predicate ≠ .ok (.onFields leftField rightField)) :
    .skip ∉ (predicateJoin left right predicate).collection.capabilities := by
  simp only [collection, Collection.joinedOn]
  split
  next leftField rightField hchoose => exact absurd hchoose (h leftField rightField)
  next => simp [Collection.selected, Collection.takesPredicate, Collection.product]

theorem SkipsCounted.predicateJoin {left right : Operator}
    (hl : left.collection.Delivers left.rows) (hr : right.collection.Delivers right.rows)
    (hkind : right.collection.kind.hasTuples = true) (predicate : Predicate) :
    (predicateJoin left right predicate).SkipsCounted := by
  intro hskip n
  cases hstrategy : strategy left right predicate with
  | error fault => exact absurd hskip (not_skip_of_strategy (by rw [hstrategy]; nofun))
  | ok chosen =>
    cases chosen with
    | productThenSelection => exact absurd hskip (not_skip_of_strategy (by rw [hstrategy]; nofun))
    | onFields leftField rightField =>
      have hequates := JoinStrategy.equates_of_choose hstrategy
      have hrows : (Operator.predicateJoin left right predicate).counted.rows =
          joinRows .inner (mergedSchema left right) leftField rightField left.rows right.rows :=
        productRows_filterMap_keep hequates left.rows (hr.tuples hkind)
      rw [collection_predicateJoin hstrategy, hrows]
      refine (Collection.items_joined hl hr .inner leftField rightField (.skipping n)).trans ?_
      exact congrArg Except.ok (List.map_id' _).symm

theorem SkipsCounted.stored (stored : Stored) : (leaf stored.toCollection).SkipsCounted := by
  intro _ n
  have hrows : stored.toCollection.rows = stored.outcomes :=
    (Collection.Delivers.stored stored).rows_eq
  refine (congrArg Except.ok (stored.rows_items (.skipping n))).trans ?_
  show _ = Except.ok ((Run.dropRows n stored.toCollection.rows).map fun outcome => outcome)
  rw [List.map_id', hrows]
  rfl

/-- A tree that skips rows skips those of the counted tree. -/
theorem Built.skipsCounted {tree : Operator} (h : Built InMemory tree) : tree.SkipsCounted := by
  have hdelivers : ∀ {tree : Operator}, Built InMemory tree → tree.collection.Delivers tree.rows :=
    fun h => h.delivers fun _ => InMemory.delivers
  induction h with
  | leaf hleaf =>
    obtain ⟨stored, rfl⟩ := hleaf
    exact .stored stored
  | project _ hbuild ih =>
    obtain ⟨_, rfl⟩ := project_eq_ok_iff.mp hbuild
    exact ih.projection _
  | select hinput hbuild _ =>
    obtain ⟨_, rfl⟩ := select_eq_ok_iff.mp hbuild
    exact .selection (hdelivers hinput) _
  | cross _ _ hbuild _ _ =>
    obtain ⟨_, _, rfl⟩ := cross_eq_ok_iff.mp hbuild
    intro hskip
    -- a product has no capability
    cases hskip
  | joinOnFields hl hr hbuild _ _ =>
    obtain ⟨_, _, rfl⟩ := joinOnFields_eq_ok_iff.mp hbuild
    exact .fieldJoin (hdelivers hl) (hdelivers hr) _ _ _
  | joinOnPredicate hl hr hbuild _ _ =>
    obtain ⟨_, hkind, rfl⟩ := of_joinOnPredicate_eq_ok hbuild
    exact .predicateJoin (hdelivers hl) (hdelivers hr) hkind _

/-- A tree that cannot skip rows ignores the request to. -/
theorem Built.items_of_not_skip {tree : Operator} (h : Built InMemory tree)
    (hskip : .skip ∉ tree.collection.capabilities) (skip : Option Nat) :
    tree.collection.items ⟨skip, none⟩ = tree.collection.items .none := by
  cases h with
  | leaf hleaf =>
    obtain ⟨stored, rfl⟩ := hleaf
    exact absurd (List.mem_cons_self ..) hskip
  | project _ hbuild =>
    obtain ⟨_, rfl⟩ := project_eq_ok_iff.mp hbuild
    have hin := fun hin => hskip (skip_mem_projected.mpr hin)
    simp only [collection, Collection.projected, if_neg hin, Filters.restrictedTo, List.not_mem_nil,
      if_false]
  | select _ hbuild =>
    obtain ⟨_, rfl⟩ := select_eq_ok_iff.mp hbuild
    simp only [collection, Collection.selected]
    split
    next htakes =>
      have hin := fun hin => hskip (skip_mem_selected.mpr ⟨of_decide_eq_true htakes, hin⟩)
      simp only [Filters.restrictedTo, if_neg hin]
    next => rfl
  | cross _ _ hbuild =>
    obtain ⟨_, _, rfl⟩ := cross_eq_ok_iff.mp hbuild
    rfl
  | joinOnFields _ _ hbuild =>
    obtain ⟨_, _, rfl⟩ := joinOnFields_eq_ok_iff.mp hbuild
    exact absurd (List.mem_cons_self ..) hskip
  | joinOnPredicate _ _ hbuild =>
    obtain ⟨_, _, rfl⟩ := of_joinOnPredicate_eq_ok hbuild
    simp only [collection, Collection.joinedOn] at hskip ⊢
    split at hskip
    next => exact absurd (List.mem_cons_self ..) hskip
    next => rfl

/-- With rows to skip or without, a tree delivers some of its rows, in their order. -/
theorem Built.exists_items_sublist {tree : Operator} (h : Built InMemory tree) (skip : Option Nat) :
    ∃ rows, (tree.collection.items ⟨skip, none⟩).map Run.rows = .ok rows ∧ rows.Sublist tree.rows := by
  have hitems := (h.delivers fun _ => InMemory.delivers).items
  by_cases hskip : .skip ∈ tree.collection.capabilities
  · cases skip with
    | none => exact ⟨_, hitems, List.Sublist.refl _⟩
    | some n =>
      refine ⟨_, h.skipsCounted hskip n, ?_⟩
      rw [rows_eq_map_finish tree]
      exact (Run.dropRows_sublist n _).map _
  · refine ⟨_, ?_, List.Sublist.refl _⟩
    rw [h.items_of_not_skip hskip skip]
    exact hitems

/-! ## Pages -/

/-- A page leaves out leading rows of the counted tree. -/
theorem Built.rows_page {tree : Operator} (h : Built InMemory tree) (n : Nat) :
    (tree.collection.page n).map Run.rows =
      .ok ((Run.dropRows n tree.counted.rows).map tree.finish) := by
  have hitems := (h.delivers fun _ => InMemory.delivers).items
  rw [Collection.page]
  split
  next hzero =>
    rw [hzero, Run.dropRows_zero, ← rows_eq_map_finish]
    exact hitems
  next =>
    split
    next hskip => exact h.skipsCounted hskip n
    next hskip =>
      obtain ⟨hcounted, hfinish⟩ := counted_of_not_skip hskip
      obtain ⟨run, hrun, hrows⟩ := map_eq_ok_iff.mp hitems
      rw [hcounted, List.map_congr_left fun outcome _ => hfinish outcome, List.map_id', hrun, ← hrows]
      exact congrArg Except.ok (Run.rows_skipRows n run)

/-- A page is what is left of the rows of a tree without the leading ones exactly if none of the counted
rows that it leaves out becomes a fault in the projections above. -/
theorem page_eq_dropRows_iff {tree : Operator} (h : Built InMemory tree) (n : Nat) :
    ∃ rows, (tree.collection.items .none).map Run.rows = .ok rows ∧
      ((tree.collection.page n).map Run.rows = .ok (Run.dropRows n rows) ↔
        ∀ row ∈ Run.leading n tree.counted.rows, (tree.finish (.ok row)).isOk = true) := by
  refine ⟨tree.rows, (h.delivers fun _ => InMemory.delivers).items, ?_⟩
  rw [h.rows_page, ← Run.map_dropRows_eq_iff tree.finish_error, ← rows_eq_map_finish tree]
  exact ⟨Except.ok.inj, congrArg Except.ok⟩

/-- The projection of a row without the field and a row with it. -/
def partialProjection : Operator :=
  .projection (.leaf (Stored.ofTuples "leaf" [("x", .boolean)]
    [(.name "a", []), (.name "b", [("x", .bool true)])] []).toCollection) [("x", "x")]

/-- The row without the field is counted and left out where its fault should stay. -/
theorem page_loses_fault :
    (partialProjection.collection.items .none).map Run.rows =
        .ok [.error (.missingField "x"), .ok (.name "b", .object [("x", .bool true)])] ∧
      ¬(partialProjection.collection.page 1).map Run.rows = .ok (Run.dropRows 1
        [.error (.missingField "x"), .ok (.name "b", .object [("x", .bool true)])]) :=
  ⟨rfl, by decide⟩

/-- The condition for the page that loses the fault. -/
theorem page_eq_dropRows_iff_at_partialProjection :
    Built InMemory partialProjection ∧
      ∃ rows, (partialProjection.collection.items .none).map Run.rows = .ok rows ∧
        ((partialProjection.collection.page 1).map Run.rows = .ok (Run.dropRows 1 rows) ↔
          ∀ row ∈ Run.leading 1 partialProjection.counted.rows,
            (partialProjection.finish (.ok row)).isOk = true) := by
  have hproject := project_eq_ok_iff.mpr ⟨rfl, (rfl : partialProjection = partialProjection)⟩
  have hbuilt : Built InMemory partialProjection := .project (.leaf ⟨_, rfl⟩) hproject
  exact ⟨hbuilt, page_eq_dropRows_iff hbuilt 1⟩

end Operator

end TableQuery
