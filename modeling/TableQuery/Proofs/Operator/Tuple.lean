import TableQuery.Proofs.Json.Value
import TableQuery.Proofs.Operator.Schema

/-!
# Tuples repeat no name

Tuples are lists of pairs here, and a list of pairs may have a name twice.  Those of a dataset have none, as
its file was read with repeated names settled.  Then no row of a tree has one (`Operator.Built.unrepeated`):
a projection inserts its targets one after the other, a merged schema lists each of its names once,
and the values in a new tuple are those of the old ones, or null.
-/

namespace TableQuery

open Json (Unrepeated)

/-! ## One tuple -/

theorem FieldPairs.unrepeated_projectFrom {pairs : FieldPairs} {tuple out result : Tuple}
    (htuple : Unrepeated (.object tuple)) (hout : Unrepeated (.object out))
    (h : projectFrom tuple pairs out = .ok result) : Unrepeated (.object result) := by
  induction pairs generalizing out with
  | nil =>
    cases h
    exact hout
  | cons pair rest ih =>
    obtain ⟨source, target⟩ := pair
    rw [projectFrom] at h
    split at h
    next value hvalue => exact ih (hout.insert (htuple.of_get? hvalue) target) h
    next => cases h

theorem FieldPairs.unrepeated_project {pairs : FieldPairs} {value result : Json}
    (hvalue : Unrepeated value) (h : pairs.project value = .ok result) : Unrepeated result := by
  obtain ⟨tuple, htuple, h⟩ := bind_eq_ok_iff.mp h
  obtain ⟨out, hout, h⟩ := bind_eq_ok_iff.mp h
  cases h
  rw [Json.tuple?_eq_ok_iff] at htuple
  subst htuple
  exact unrepeated_projectFrom hvalue .noMembers hout

namespace MergedSchema

theorem unrepeated_valueOf {left : Tuple} {right : Option Tuple} (hleft : Unrepeated (.object left))
    (hright : ∀ tuple ∈ right, Unrepeated (.object tuple)) (origin : Origin) :
    Unrepeated (valueOf left right origin) := by
  have hsource : ∀ source tuple, origin.side.of (some left) right = some source →
      Fields.get? source origin.sourceName = some tuple → Unrepeated tuple := by
    intro source tuple hside hfound
    cases horigin : origin.side with
    | left =>
      rw [horigin] at hside
      cases hside
      exact hleft.of_get? hfound
    | right =>
      rw [horigin] at hside
      exact (hright source hside).of_get? hfound
  rw [valueOf_eq]
  cases hfound : (origin.side.of (some left) right).bind (Fields.get? · origin.sourceName) with
  | none => exact .null
  | some value =>
    obtain ⟨source, hside, hvalue⟩ := Option.bind_eq_some_iff.mp hfound
    exact hsource source value hside hvalue

theorem unrepeated_mergeTuples (own other : Properties) {left : Tuple} {right : Option Tuple}
    (hleft : Unrepeated (.object left)) (hright : ∀ tuple ∈ right, Unrepeated (.object tuple)) :
    Unrepeated (.object ((merge own other).mergeTuples left right)) := by
  refine .object ?_ fun member hmember => ?_
  · rw [names_mergeTuples]
    exact nodup_names_properties_merge own other
  · obtain ⟨entry, -, rfl⟩ := List.mem_map.mp hmember
    exact unrepeated_valueOf hleft hright entry.2

end MergedSchema

/-! ## All rows -/

/-- No value among the rows repeats a name. -/
def RowsUnrepeated (outcomes : List (Except Fault Row)) : Prop :=
  ∀ key value, .ok (key, value) ∈ outcomes → Unrepeated value

variable {left right rows : List (Except Fault Row)} {own other : Properties}

theorem RowsUnrepeated.projected (h : RowsUnrepeated rows) (pairs : FieldPairs) :
    RowsUnrepeated (rows.map pairs.projectRow) := by
  intro key value hrow
  obtain ⟨outcome, hmem, hproject⟩ := List.mem_map.mp hrow
  obtain ⟨source, rfl, hvalue⟩ := FieldPairs.projectRow_eq_ok_iff.mp hproject
  exact FieldPairs.unrepeated_project (h key source hmem) hvalue

theorem RowsUnrepeated.selected (h : RowsUnrepeated rows) (predicate : Predicate) :
    RowsUnrepeated (rows.filterMap predicate.keep) := by
  intro key value hrow
  obtain ⟨outcome, hmem, hkeep⟩ := List.mem_filterMap.mp hrow
  obtain ⟨rfl, -⟩ := Predicate.keep_eq_some_ok_iff.mp hkeep
  exact h key value hmem

theorem RowsUnrepeated.product (hl : RowsUnrepeated left) (hr : RowsUnrepeated right) :
    RowsUnrepeated (productRows (.merge own other) left right) := by
  intro key value hrow
  obtain ⟨a, tuple, b, partner, hleft, hright, -, rfl⟩ := mem_productRows_iff.mp hrow
  refine MergedSchema.unrepeated_mergeTuples own other (hl a _ hleft) fun found hfound => ?_
  cases hfound
  exact hr b _ hright

theorem RowsUnrepeated.joined (hl : RowsUnrepeated left) (hr : RowsUnrepeated right) (join : JoinType)
    (leftField rightField : String) :
    RowsUnrepeated (joinRows join (.merge own other) leftField rightField left right) := by
  intro key value hrow
  obtain ⟨a, tuple, hleft, hmatch⟩ := Collection.mem_flatMap_expandTuple.mp hrow
  have htuple := hl a _ hleft
  obtain ⟨-, -, -, rfl⟩ | ⟨-, b, partner, hfound, -, rfl⟩ := mem_matchRows_iff.mp hmatch
  · cases join with
    | diff => exact htuple
    | inner | left => exact MergedSchema.unrepeated_mergeTuples own other htuple fun _ h => nomatch h
  · refine MergedSchema.unrepeated_mergeTuples own other htuple fun found h => ?_
    cases h
    exact hr b _ (List.mem_of_mem_filter hfound)

namespace Operator

/-- If the rows of the leaves repeat no name, those of the tree do not. -/
theorem Built.unrepeated {Leaf : Collection → Prop}
    (leaves : ∀ source, Leaf source → RowsUnrepeated source.rows) {tree : Operator}
    (h : Built Leaf tree) : RowsUnrepeated tree.rows := by
  induction h with
  | leaf hleaf => exact leaves _ hleaf
  | project _ hbuild ih =>
    obtain ⟨_, rfl⟩ := project_eq_ok_iff.mp hbuild
    exact ih.projected _
  | select _ hbuild ih =>
    obtain ⟨_, rfl⟩ := select_eq_ok_iff.mp hbuild
    exact ih.selected _
  | cross _ _ hbuild ihl ihr =>
    obtain ⟨_, _, rfl⟩ := cross_eq_ok_iff.mp hbuild
    exact ihl.product ihr
  | joinOnFields _ _ hbuild ihl ihr =>
    obtain ⟨_, _, rfl⟩ := joinOnFields_eq_ok_iff.mp hbuild
    exact ihl.joined ihr _ _ _
  | joinOnPredicate _ _ hbuild ihl ihr =>
    obtain ⟨_, _, rfl⟩ := of_joinOnPredicate_eq_ok hbuild
    exact (ihl.product ihr).selected _

end Operator

end TableQuery
