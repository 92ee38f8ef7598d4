import TableQuery.Collection.Provider
import TableQuery.Proofs.Operator.Page

/-!
# Capabilities do not change results

A source of tuples `Offers` rows if it applies the filters that it advertises, the predicate before it
skips, and ignores the others.  Stored collections do, and so does every restriction of such a source to
fewer capabilities (`Offers.restricted`).

Two trees that differ in nothing but what their leaves advertise are `Variant`s.  They are built alike and
have the same rows (`Variant.built`, `Variant.rows_eq`): whether a leaf or a selection above it evaluates
a predicate shows nowhere.  A selection of a source skips rows itself only if the source counts those that
match (`Offers.rows_items_selected`), so its pages do not depend on the source's capabilities either.
-/

namespace TableQuery

namespace Filters

/-- The rows that filters leave.  Rows that the predicate drops are not counted. -/
def apply (filters : Filters) (outcomes : List (Except Fault Row)) : List (Except Fault Row) :=
  Run.dropRows (filters.skip.getD 0)
    (match filters.predicate with
      | .none => outcomes
      | some predicate => outcomes.filterMap predicate.keep)

@[simp] theorem restrictedTo_none (capabilities : List Capability) :
    Filters.none.restrictedTo capabilities = Filters.none := by
  simp [restrictedTo, Filters.none]

theorem restrictedTo_eq_self {filters : Filters} {capabilities : List Capability}
    (hskip : filters.skip ≠ .none → .skip ∈ capabilities)
    (hpredicate : filters.predicate ≠ .none → .predicate ∈ capabilities) :
    filters.restrictedTo capabilities = filters := by
  obtain ⟨skip, predicate⟩ := filters
  cases skip <;> cases predicate <;> simp_all [restrictedTo]

/-- Restricting to fewer capabilities first leaves nothing to restrict. -/
theorem restrictedTo_restrictedTo {fewer capabilities : List Capability}
    (h : fewer ⊆ capabilities) (filters : Filters) :
    (filters.restrictedTo fewer).restrictedTo capabilities = filters.restrictedTo fewer := by
  apply restrictedTo_eq_self
  · intro hskip
    by_contra hnot
    exact hskip (if_neg fun hin => hnot (h hin))
  · intro hpredicate
    by_contra hnot
    exact hpredicate (if_neg fun hin => hnot (h hin))

end Filters

namespace Collection

/-- What a source of tuples offers: its rows, under the filters that it advertises. -/
structure Offers (source : Collection) (rows : List Row) : Prop where
  /-- The rows hold tuples. -/
  tuples : ∀ row ∈ rows, Row.isTuple row = true
  /-- It applies the filters that it advertises and ignores the others. -/
  items : ∀ filters, (source.items filters).map Run.rows =
    .ok ((filters.restrictedTo source.capabilities).apply (rows.map .ok))
  /-- Looked up by value, it delivers the rows that a scan keeps. -/
  onValue : ∀ field value,
    (source.itemsOnValue field value).map Run.rows = .ok ((rows.map .ok).filter (scanKeeps field value))

variable {source : Collection} {rows : List Row}

theorem Offers.stored {stored : Stored} (h : stored.kind.hasTuples = true) :
    stored.toCollection.Offers stored.rows where
  tuples := stored.tuples h
  items := by
    intro filters
    have hall : filters.restrictedTo stored.toCollection.capabilities = filters :=
      Filters.restrictedTo_eq_self (fun _ => .head _) (fun _ => .tail _ (.head _))
    rw [hall]
    exact congrArg Except.ok (stored.rows_items filters)
  onValue := fun field value => congrArg Except.ok (stored.rows_itemsOnValue field value)

/-- A source that advertises less offers the same rows. -/
theorem Offers.restricted (h : source.Offers rows) {fewer : List Capability}
    (hfewer : fewer ⊆ source.capabilities) : (source.restricted fewer).Offers rows where
  tuples := h.tuples
  items := by
    intro filters
    have hitems := h.items (filters.restrictedTo fewer)
    rw [Filters.restrictedTo_restrictedTo hfewer] at hitems
    exact hitems
  onValue := by
    intro field value
    have hitems := h.items (Filters.none.restrictedTo fewer)
    rw [Filters.restrictedTo_none, Filters.restrictedTo_none] at hitems
    obtain ⟨run, hrun, hrows⟩ := map_eq_ok_iff.mp hitems
    simp only [Collection.restricted, scanOnValue, Filters.restrictedTo_none, hrun]
    refine congrArg Except.ok ?_
    rw [Run.rows_scan, hrows]
    exact congrArg _ (Run.dropRows_zero _)

theorem Offers.delivers (h : source.Offers rows) : source.Delivers (rows.map .ok) where
  items := by
    have hitems := h.items .none
    rw [Filters.restrictedTo_none] at hitems
    exact hitems.trans (congrArg Except.ok (Run.dropRows_zero _))
  onValue := h.onValue
  tuples := by
    intro _ row hrow
    obtain ⟨other, hother, heq⟩ := List.mem_map.mp hrow
    cases heq
    exact h.tuples row hother
  matching := by
    intro hpredicate skip predicate hskip
    have hitems := h.items ⟨skip, some predicate⟩
    rw [Filters.restrictedTo_eq_self hskip fun _ => hpredicate] at hitems
    exact hitems

/-- A selection of a source skips rows if it advertises that, and ignores the filter if not. -/
theorem Offers.rows_items_selected (h : source.Offers rows) (predicate : Predicate) (filters : Filters) :
    ((source.selected predicate).items filters).map Run.rows =
      .ok (Run.dropRows ((filters.restrictedTo (source.selected predicate).capabilities).skip.getD 0)
        ((rows.map .ok).filterMap predicate.keep)) := by
  by_cases hpredicate : .predicate ∈ source.capabilities
  · have hpassed : (source.selected predicate).items filters =
        source.items (Filters.restrictedTo ⟨filters.skip, some predicate⟩ source.capabilities) :=
      if_pos (decide_eq_true hpredicate)
    rw [hpassed, h.items, Filters.restrictedTo_restrictedTo (List.Subset.refl _)]
    simp only [Filters.apply, Filters.restrictedTo, Operator.skip_mem_selected, hpredicate, true_and,
      if_true]
  · have hread : (source.selected predicate).items filters =
        (source.items .none).map (Run.filterMap predicate.keep) :=
      if_neg fun htakes => hpredicate (of_decide_eq_true htakes)
    obtain ⟨run, hrun, hrows⟩ := map_eq_ok_iff.mp h.delivers.items
    have hskip : (filters.restrictedTo (source.selected predicate).capabilities).skip = none :=
      if_neg fun hin => hpredicate (Operator.skip_mem_selected.mp hin).1
    rw [hread, hrun, hskip, ← hrows]
    exact congrArg Except.ok ((Run.rows_filterMap _ run).trans (Run.dropRows_zero _).symm)

/-- The pages of a selection of a source leave out leading rows that match, whoever counts them. -/
theorem Offers.rows_page_selected (h : source.Offers rows) (predicate : Predicate) (n : Nat) :
    ((source.selected predicate).page n).map Run.rows =
      .ok (Run.dropRows n ((rows.map .ok).filterMap predicate.keep)) := by
  have hall := h.rows_items_selected predicate .none
  rw [Filters.restrictedTo_none] at hall
  rw [page]
  split
  next hzero =>
    rw [hzero]
    exact hall
  next =>
    split
    next hskip =>
      have hskipping : ((Filters.skipping n).restrictedTo
          (source.selected predicate).capabilities).skip = some n := if_pos hskip
      rw [h.rows_items_selected predicate, hskipping]
      rfl
    next hskip =>
      obtain ⟨run, hrun, hrows⟩ := map_eq_ok_iff.mp hall
      rw [hrun]
      refine congrArg Except.ok ((Run.rows_skipRows n run).trans ?_)
      rw [hrows]
      exact congrArg _ (Run.dropRows_zero _)

end Collection

/-- The sources of tuples. -/
def TupleSource (source : Collection) : Prop := ∃ rows, source.Offers rows

theorem TupleSource.delivers {source : Collection} (h : TupleSource source) :
    source.Delivers source.rows := by
  obtain ⟨rows, hoffers⟩ := h
  exact hoffers.delivers.self

namespace Operator

/-- Two trees that differ in nothing but their leaves, and these in nothing but what they advertise: they
are of the same kind, with the same properties, and offer the same rows. -/
inductive Variant : Operator → Operator → Prop where
  | leaf {source other : Collection} {rows : List Row} : source.Offers rows → other.Offers rows →
      source.kind = other.kind → source.properties = other.properties →
      Variant (.leaf source) (.leaf other)
  | projection {input other : Operator} {pairs : FieldPairs} : Variant input other →
      Variant (.projection input pairs) (.projection other pairs)
  | selection {predicate : Predicate} {input other : Operator} : Variant input other →
      Variant (.selection predicate input) (.selection predicate other)
  | product {left right otherLeft otherRight : Operator} : Variant left otherLeft →
      Variant right otherRight → Variant (.product left right) (.product otherLeft otherRight)
  | fieldJoin {join : JoinType} {left right otherLeft otherRight : Operator}
      {leftField rightField : String} : Variant left otherLeft → Variant right otherRight →
      Variant (.fieldJoin join left leftField right rightField)
        (.fieldJoin join otherLeft leftField otherRight rightField)
  | predicateJoin {left right otherLeft otherRight : Operator} {predicate : Predicate} :
      Variant left otherLeft → Variant right otherRight →
      Variant (.predicateJoin left right predicate) (.predicateJoin otherLeft otherRight predicate)

/-- Variants are of the same kind with the same properties. -/
theorem Variant.schema_eq {tree other : Operator} (h : Variant tree other) :
    tree.collection.kind = other.collection.kind ∧
      tree.collection.properties = other.collection.properties := by
  induction h with
  | leaf _ _ hkind hproperties => exact ⟨hkind, hproperties⟩
  | projection _ ih => exact ⟨ih.1, congrArg (FieldPairs.properties _) ih.2⟩
  | selection _ ih => exact ih
  | product _ _ ihl ihr =>
    simp only [collection, Collection.product, ihl.2, ihr.2, and_self]
  | fieldJoin _ _ ihl ihr =>
    simp only [collection, Collection.joined, ihl.2, ihr.2, and_self]
  | predicateJoin _ _ ihl ihr =>
    simp only [collection, Collection.kind_joinedOn, Collection.properties_joinedOn, ihl.2, ihr.2,
      and_self]

theorem Variant.mergedSchema_eq {left right otherLeft otherRight : Operator}
    (hl : Variant left otherLeft) (hr : Variant right otherRight) :
    mergedSchema left right = mergedSchema otherLeft otherRight := by
  rw [mergedSchema, mergedSchema, hl.schema_eq.2, hr.schema_eq.2]

theorem Variant.rows_eq {tree other : Operator} (h : Variant tree other) : tree.rows = other.rows := by
  induction h with
  | leaf hsource hother _ _ =>
    exact hsource.delivers.rows_eq.trans hother.delivers.rows_eq.symm
  | projection _ ih => rw [rows, rows, ih]
  | selection _ ih => rw [rows, rows, ih]
  | product hl hr ihl ihr => rw [rows, rows, ihl, ihr, hl.mergedSchema_eq hr]
  | fieldJoin hl hr ihl ihr => rw [rows, rows, ihl, ihr, hl.mergedSchema_eq hr]
  | predicateJoin hl hr ihl ihr => rw [rows, rows, ihl, ihr, hl.mergedSchema_eq hr]

/-- Building looks at nothing that variants may differ in. -/
theorem Variant.built {tree other : Operator} (h : Variant tree other)
    (hbuilt : Built TupleSource tree) : Built TupleSource other := by
  induction hbuilt generalizing other with
  | leaf _ =>
    cases h with
    | leaf _ hother _ _ => exact .leaf ⟨_, hother⟩
  | project _ hbuild ih =>
    obtain ⟨hkind, rfl⟩ := project_eq_ok_iff.mp hbuild
    cases h with
    | projection hinput =>
      rw [hinput.schema_eq.1] at hkind
      exact .project (ih hinput) (project_eq_ok_iff.mpr ⟨hkind, rfl⟩)
  | select _ hbuild ih =>
    obtain ⟨hkind, rfl⟩ := select_eq_ok_iff.mp hbuild
    cases h with
    | selection hinput =>
      rw [hinput.schema_eq.1] at hkind
      exact .select (ih hinput) (select_eq_ok_iff.mpr ⟨hkind, rfl⟩)
  | cross _ _ hbuild ihl ihr =>
    obtain ⟨hleft, hright, rfl⟩ := cross_eq_ok_iff.mp hbuild
    cases h with
    | product hl hr =>
      rw [hl.schema_eq.1] at hleft
      rw [hr.schema_eq.1] at hright
      exact .cross (ihl hl) (ihr hr) (cross_eq_ok_iff.mpr ⟨hleft, hright, rfl⟩)
  | joinOnFields _ _ hbuild ihl ihr =>
    obtain ⟨hleft, hright, rfl⟩ := joinOnFields_eq_ok_iff.mp hbuild
    cases h with
    | fieldJoin hl hr =>
      rw [hl.schema_eq.1] at hleft
      rw [hr.schema_eq.1] at hright
      exact .joinOnFields (ihl hl) (ihr hr) (joinOnFields_eq_ok_iff.mpr ⟨hleft, hright, rfl⟩)
  | joinOnPredicate _ _ hbuild ihl ihr =>
    obtain ⟨hinner, hleft, hright, hchosen, rfl⟩ := joinOnPredicate_eq_ok_iff.mp hbuild
    cases h with
    | predicateJoin hl hr =>
      rw [hl.schema_eq.1] at hleft
      rw [hr.schema_eq.1] at hright
      rw [strategy, hl.schema_eq.2, hr.schema_eq.2] at hchosen
      exact .joinOnPredicate (ihl hl) (ihr hr)
        (joinOnPredicate_eq_ok_iff.mpr ⟨hinner, hleft, hright, hchosen, rfl⟩)

/-- What the leaves of a tree advertise does not matter to what it delivers, nor to the pages of a
selection of a leaf, which leave out leading rows and no fault. -/
theorem items_eq_of_variant {tree other : Operator} (hbuilt : Built TupleSource tree)
    (h : Variant tree other) :
    Built TupleSource other ∧
      ∃ rows, (tree.collection.items .none).map Run.rows = .ok rows ∧
        (other.collection.items .none).map Run.rows = .ok rows ∧
        ∀ predicate source, tree = .selection predicate (.leaf source) → ∀ n,
          (tree.collection.page n).map Run.rows = .ok (Run.dropRows n rows) ∧
            (other.collection.page n).map Run.rows = .ok (Run.dropRows n rows) := by
  have hother := h.built hbuilt
  refine ⟨hother, tree.rows, ?_, ?_, ?_⟩
  · exact (hbuilt.delivers fun _ => TupleSource.delivers).items
  · rw [h.rows_eq]
    exact (hother.delivers fun _ => TupleSource.delivers).items
  · rintro predicate source rfl n
    cases h with
    | selection hleaf =>
      cases hleaf with
      | leaf hsource hvariant _ _ =>
        rw [rows, rows, hsource.delivers.rows_eq]
        exact ⟨hsource.rows_page_selected predicate n, hvariant.rows_page_selected predicate n⟩

/-- Two rows that match and between them one without the field. -/
def sparse : Stored :=
  Stored.ofTuples "sparse" [("x", .string)]
    [(.name "a", [("x", .string "1")]), (.name "b", []), (.name "c", [("x", .string "1.0")])] []

/-- A selection over these rows if they advertise the given capabilities. -/
def sparseMatches (capabilities : List Capability) : Operator :=
  .selection ⟨"x", .equal, .constant (.string "1")⟩ (.leaf (sparse.toCollection.restricted capabilities))

/-- A leaf that advertises nothing, and one that evaluates the predicate and skips rows. -/
theorem items_eq_of_variant_of_pushdown :
    Built TupleSource (sparseMatches []) ∧
      Variant (sparseMatches []) (sparseMatches [.skip, .predicate]) ∧
      Built TupleSource (sparseMatches [.skip, .predicate]) ∧
      ∃ rows, ((sparseMatches []).collection.items .none).map Run.rows = .ok rows ∧
        ((sparseMatches [.skip, .predicate]).collection.items .none).map Run.rows = .ok rows ∧
        ∀ n, ((sparseMatches []).collection.page n).map Run.rows = .ok (Run.dropRows n rows) ∧
          ((sparseMatches [.skip, .predicate]).collection.page n).map Run.rows =
            .ok (Run.dropRows n rows) := by
  have hstored : sparse.toCollection.Offers sparse.rows := .stored rfl
  have hnothing := hstored.restricted (List.nil_subset _)
  have hboth : (sparse.toCollection.restricted [.skip, .predicate]).Offers sparse.rows :=
    hstored.restricted (List.Subset.refl _)
  have hvariant : Variant (sparseMatches []) (sparseMatches [.skip, .predicate]) :=
    .selection (.leaf hnothing hboth rfl rfl)
  have hbuilt : Built TupleSource (sparseMatches []) :=
    .select (.leaf ⟨_, hnothing⟩) (select_eq_ok_iff.mpr ⟨rfl, rfl⟩)
  obtain ⟨hother, rows, hrows, hsame, hpages⟩ := items_eq_of_variant hbuilt hvariant
  exact ⟨hbuilt, hvariant, hother, rows, hrows, hsame, hpages _ _ rfl⟩

end Operator

end TableQuery
