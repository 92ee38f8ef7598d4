import TableQuery.Proofs.Operator.Lookup

/-!
# The empty key as the key of a row

A join keys a left row without a match by the pair of its key and the empty key, and a lookup under such a
pair asks for a left row without a match.  A collection may have a row under the empty key itself.  If
this row is the match, iteration delivers the match under the same pair, and the lookup does not find it
(`result_item_joined_of_match`).

These are the only rows that a lookup in a join of stored collections misses (`lookup_finds_row_iff`).  The
empty key on the left does no harm, and a difference delivers no match.
-/

namespace TableQuery

variable {schema : MergedSchema} {left right : Collection} {rightRows : List (Except Fault Row)}

namespace Collection

/-- A left row with a match is not found as one without. -/
theorem result_findUnmatched_of_match {join : JoinType} {rightField : String} {sought : Json}
    {tuple : Tuple} {row : Row} {rest : List (Except Fault Row)} (hr : right.Delivers rightRows)
    (hfound : rightRows.filter (scanKeeps rightField sought) = .ok row :: rest) :
    (findUnmatched join schema right rightField sought tuple).result = .ok none := by
  obtain ⟨found, hvalue, hrows⟩ := map_eq_ok_iff.mp (hr.onValue rightField sought)
  rw [findUnmatched]
  split
  next => rfl
  next =>
    refine Lookup.result_bind_eq_ok_iff.mpr ⟨found, hvalue, ?_⟩
    refine Lookup.result_bind_eq_ok_iff.mpr ⟨some (.ok row), ?_, rfl⟩
    rw [Lookup.result_first, hrows, hfound]
    rfl

/-- Under the pair of its key and the empty key, a left row with a match is not found. -/
theorem result_item_joined_of_match {join : JoinType} {leftField rightField : String} {a : Key}
    {tuple : Tuple} {row : Row} {rest : List (Except Fault Row)} (hr : right.Delivers rightRows)
    (hleft : (left.item a).result = .ok (some (.object tuple)))
    (hfound : rightRows.filter (scanKeeps rightField (tuple.valueOrNull leftField)) =
      .ok row :: rest) :
    ((left.joined join leftField right rightField).item (.pair a .empty)).result = .ok none := by
  refine Lookup.result_bind_eq_ok_iff.mpr ⟨(a, .empty), Key.split_pair a .empty, ?_⟩
  refine Lookup.result_bind_eq_ok_iff.mpr ⟨_, hleft, ?_⟩
  refine Lookup.result_bind_eq_ok_iff.mpr ⟨tuple, rfl, ?_⟩
  rw [if_pos (show Key.empty.isEmpty = true from rfl)]
  exact result_findUnmatched_of_match hr hfound

end Collection

namespace Stored

variable {left right : Stored} {join : JoinType} {leftField rightField : String} {key : Key}
  {value : Json}

/-- Under a key stands the match of a left row with a right row whose own key is empty. -/
def MatchesEmptyKey (left : Stored) (leftField : String) (right : Stored) (rightField : String)
    (key : Key) : Prop :=
  ∃ row ∈ left.rows, ∃ other ∈ right.rows, other.1 = .empty ∧ key = .pair row.1 .empty ∧
    (other.2.fieldOrNull rightField).agrees (row.2.fieldOrNull leftField) = true

/-- The rows of a join of stored collections, one case for each way in which a row comes about. -/
theorem mem_joinRows_outcomes_iff :
    .ok (key, value) ∈ joinRows join schema leftField rightField left.outcomes right.outcomes ↔
      ∃ a, ∃ tuple : Tuple, (a, .object tuple) ∈ left.rows ∧
        ((join ≠ .inner ∧ key = .pair a .empty ∧ value = join.unmatched schema tuple ∧
            right.outcomes.filter (scanKeeps rightField (tuple.valueOrNull leftField)) = []) ∨
          (join ≠ .diff ∧ ∃ b, ∃ other : Tuple, (b, .object other) ∈ right.rows ∧
            (tuple.valueOrNull leftField).agrees (other.valueOrNull rightField) = true ∧
            key = .pair a b ∧ value = .object (schema.mergeTuples tuple (some other)))) := by
  rw [joinRows, Collection.mem_flatMap_expandTuple]
  simp only [mem_matchRows_iff, Collection.mem_filter_scanKeeps, mem_outcomes]
  constructor
  · rintro ⟨a, tuple, hleft, ⟨hjoin, hnil, rfl, rfl⟩ | ⟨hjoin, b, other, ⟨hright, hagrees⟩, rfl, rfl⟩⟩
    · exact ⟨a, tuple, hleft, .inl ⟨hjoin, rfl, rfl, hnil⟩⟩
    · exact ⟨a, tuple, hleft, .inr ⟨hjoin, b, other, hright, hagrees, rfl, rfl⟩⟩
  · rintro ⟨a, tuple, hleft, ⟨hjoin, rfl, rfl, hnil⟩ | ⟨hjoin, b, other, hright, hagrees, rfl, rfl⟩⟩
    · exact ⟨a, tuple, hleft, .inl ⟨hjoin, hnil, rfl, rfl⟩⟩
    · exact ⟨a, tuple, hleft, .inr ⟨hjoin, b, other, ⟨hright, hagrees⟩, rfl, rfl⟩⟩

/-- A row that is found by a scan is the first of those found, or another one is. -/
theorem exists_filter_outcomes_eq_cons {sought : Json} {row : Row} (hmem : row ∈ right.rows)
    (hagrees : (row.2.fieldOrNull rightField).agrees sought = true) :
    ∃ first rest, right.outcomes.filter (scanKeeps rightField sought) = .ok first :: rest := by
  have hfound : .ok row ∈ right.outcomes.filter (scanKeeps rightField sought) :=
    List.mem_filter.mpr ⟨mem_outcomes.mpr hmem, hagrees⟩
  cases hrows : right.outcomes.filter (scanKeeps rightField sought) with
  | nil =>
    rw [hrows] at hfound
    cases hfound
  | cons outcome rest =>
    have hfirst := List.mem_filter.mp (hrows ▸ List.mem_cons_self .. :
      outcome ∈ right.outcomes.filter (scanKeeps rightField sought))
    obtain ⟨first, _, rfl⟩ := List.mem_map.mp hfirst.1
    exact ⟨first, rest, rfl⟩

/-- A left row without a match is not the left row of a match, since no two left rows share a key. -/
theorem not_matchesEmptyKey {a : Key} {tuple : Tuple} (hl : left.HasDistinctKeys)
    (hleft : (a, .object tuple) ∈ left.rows)
    (hnil : right.outcomes.filter (scanKeeps rightField (tuple.valueOrNull leftField)) = []) :
    ¬MatchesEmptyKey left leftField right rightField (.pair a .empty) := by
  rintro ⟨row, hrow, other, hother, _, hkey, hagrees⟩
  obtain rfl : row = (a, .object tuple) :=
    List.inj_on_of_nodup_map hl hrow hleft (Key.pair_injective hkey).1.symm
  obtain ⟨first, rest, hfound⟩ := exists_filter_outcomes_eq_cons hother hagrees
  rw [show Json.fieldOrNull (.object tuple) leftField = tuple.valueOrNull leftField from rfl, hnil]
    at hfound
  cases hfound

/-- What a lookup under the key of a delivered row gives: the row, or nothing if the row is the match of
a left row with the row under the empty key. -/
theorem result_item_joined_of_mem (hl : left.HasDistinctKeys) (hr : right.HasDistinctKeys)
    (hmem : .ok (key, value) ∈ joinRows join (.merge left.properties right.properties) leftField
      rightField left.outcomes right.outcomes) :
    (¬MatchesEmptyKey left leftField right rightField key →
        ((left.toCollection.joined join leftField right.toCollection rightField).item key).result =
          .ok (some value)) ∧
      (MatchesEmptyKey left leftField right rightField key →
        ((left.toCollection.joined join leftField right.toCollection rightField).item key).result =
          .ok none) := by
  have hdelivers := Collection.Delivers.stored right
  obtain ⟨a, tuple, hleft, hcase⟩ := mem_joinRows_outcomes_iff.mp hmem
  have hfind : (left.toCollection.item a).result = .ok (some (.object tuple)) :=
    congrArg Except.ok ((find?_eq_some_iff hl a _).mpr hleft)
  rcases hcase with ⟨hjoin, rfl, rfl, hnil⟩ | ⟨hjoin, b, other, hright, hagrees, rfl, rfl⟩
  · constructor
    · intro _
      exact (Collection.result_item_joined hdelivers).mpr ⟨a, .empty, tuple, Key.split_pair a .empty,
        hfind, .inl ⟨rfl, hjoin, hnil, rfl⟩⟩
    · intro hmatches
      exact absurd hmatches (not_matchesEmptyKey hl hleft hnil)
  · by_cases hb : b = .empty
    · subst hb
      rw [Json.agrees_comm] at hagrees
      constructor
      · intro hnot
        exact absurd ⟨_, hleft, _, hright, rfl, rfl, hagrees⟩ hnot
      · intro _
        obtain ⟨first, rest, hfound⟩ := exists_filter_outcomes_eq_cons hright hagrees
        exact Collection.result_item_joined_of_match hdelivers hfind hfound
    · constructor
      · intro _
        have hother : (right.toCollection.item b).result = .ok (some (.object other)) :=
          congrArg Except.ok ((find?_eq_some_iff hr b _).mpr hright)
        exact (Collection.result_item_joined hdelivers).mpr ⟨a, b, tuple, Key.split_pair a b, hfind,
          .inr ⟨hb, hjoin, other, hother, hagrees, rfl⟩⟩
      · rintro ⟨_, _, _, _, _, hkey, _⟩
        exact absurd (Key.pair_injective hkey).2 hb

/-- Unless the join is a difference, each match with the row under the empty key is delivered. -/
theorem exists_mem_of_matchesEmptyKey (hleftKind : left.kind.hasTuples = true)
    (hrightKind : right.kind.hasTuples = true) (hjoin : join ≠ .diff)
    (h : MatchesEmptyKey left leftField right rightField key) :
    ∃ value, .ok (key, value) ∈ joinRows join schema leftField rightField left.outcomes
      right.outcomes := by
  obtain ⟨⟨a, leftValue⟩, hrow, ⟨b, rightValue⟩, hother, rfl, rfl, hagrees⟩ := h
  obtain ⟨tuple, rfl⟩ := Row.isTuple_iff.mp (left.tuples hleftKind _ hrow)
  obtain ⟨other, rfl⟩ := Row.isTuple_iff.mp (right.tuples hrightKind _ hother)
  rw [Json.agrees_comm] at hagrees
  exact ⟨_, mem_joinRows_outcomes_iff.mpr
    ⟨a, tuple, hrow, .inr ⟨hjoin, .empty, other, hother, hagrees, rfl, rfl⟩⟩⟩

end Stored

namespace Operator

open Stored

/-- In a join of stored collections with distinct keys a lookup finds every row under its key but the
matches with a row under the empty key, for which it finds nothing.  So it finds every row exactly if the
join is a difference or no left row matches a row under the empty key. -/
theorem lookup_finds_row_iff {left right : Stored} (hleftKind : left.kind.hasTuples = true)
    (hrightKind : right.kind.hasTuples = true) (hl : left.HasDistinctKeys)
    (hr : right.HasDistinctKeys) (join : JoinType) (leftField rightField : String) :
    ∃ tree rows,
      joinOnFields join (.leaf left.toCollection) leftField (.leaf right.toCollection) rightField =
        .ok tree ∧
      (tree.collection.items .none).map Run.rows = .ok rows ∧
      (∀ key value, .ok (key, value) ∈ rows →
        (¬MatchesEmptyKey left leftField right rightField key →
          (tree.collection.item key).result = .ok (some value)) ∧
        (MatchesEmptyKey left leftField right rightField key →
          (tree.collection.item key).result = .ok none)) ∧
      ((∀ key value, .ok (key, value) ∈ rows →
          (tree.collection.item key).result = .ok (some value)) ↔
        join = .diff ∨ ∀ key, ¬MatchesEmptyKey left leftField right rightField key) := by
  have hdelivers := (Collection.Delivers.stored left).joined (.stored right) join leftField rightField
  refine ⟨_, _, joinOnFields_eq_ok_iff.mpr ⟨hleftKind, hrightKind, rfl⟩, hdelivers.items,
    fun key value => result_item_joined_of_mem hl hr, ?_, ?_⟩
  · intro hfinds
    by_cases hjoin : join = .diff
    · exact .inl hjoin
    refine .inr fun key hmatches => ?_
    obtain ⟨value, hmem⟩ := exists_mem_of_matchesEmptyKey hleftKind hrightKind hjoin hmatches
    have hnone := (result_item_joined_of_mem hl hr hmem).2 hmatches
    cases (hfinds key value hmem).symm.trans hnone
  · rintro (rfl | hnever) key value hmem
    · obtain ⟨a, tuple, hleft, ⟨_, rfl, _, hnil⟩ | ⟨hdiff, _⟩⟩ := mem_joinRows_outcomes_iff.mp hmem
      · exact (result_item_joined_of_mem hl hr hmem).1 (not_matchesEmptyKey hl hleft hnil)
      · exact absurd rfl hdiff
    · exact (result_item_joined_of_mem hl hr hmem).1 (hnever key)

/-- A row under a name. -/
def oneNamed : Stored :=
  .ofTuples "one" [("f", .integer)] [(.name "x", [("f", .ofUInt64 1)])] []

/-- A row under the empty key. -/
def oneUnnamed : Stored :=
  .ofTuples "other" [("g", .integer)] [(.empty, [("g", .ofUInt64 1)])] []

/-- An inner join delivers the match of the two rows, and a lookup under its key finds nothing. -/
theorem lookup_misses_match_of_empty_key :
    oneNamed.HasDistinctKeys ∧ oneUnnamed.HasDistinctKeys ∧
      ((fieldJoin .inner (.leaf oneNamed.toCollection) "f" (.leaf oneUnnamed.toCollection)
          "g").collection.items .none).map Run.rows =
        .ok [.ok (.pair (.name "x") .empty,
          .object [("f", .ofUInt64 1), ("g", .ofUInt64 1)])] ∧
      ¬((fieldJoin .inner (.leaf oneNamed.toCollection) "f" (.leaf oneUnnamed.toCollection)
          "g").collection.item (.pair (.name "x") .empty)).result =
        .ok (some (.object
          [("f", .ofUInt64 1), ("g", .ofUInt64 1)])) :=
  ⟨by decide, by decide, by decide +kernel, by decide +kernel⟩

/-- A left join of the two rows has a row that a lookup misses. -/
theorem lookup_finds_row_iff_of_left_join :
    oneNamed.kind.hasTuples = true ∧ oneUnnamed.kind.hasTuples = true ∧
      oneNamed.HasDistinctKeys ∧ oneUnnamed.HasDistinctKeys ∧
      MatchesEmptyKey oneNamed "f" oneUnnamed "g" (.pair (.name "x") .empty) ∧
      ∃ tree rows,
        joinOnFields .left (.leaf oneNamed.toCollection) "f" (.leaf oneUnnamed.toCollection) "g" =
          .ok tree ∧
        (tree.collection.items .none).map Run.rows = .ok rows ∧
        ¬∀ key value, .ok (key, value) ∈ rows →
          (tree.collection.item key).result = .ok (some value) := by
  have hl : oneNamed.HasDistinctKeys := by decide
  have hr : oneUnnamed.HasDistinctKeys := by decide
  have hmatches : MatchesEmptyKey oneNamed "f" oneUnnamed "g" (.pair (.name "x") .empty) :=
    ⟨_, List.mem_cons_self .., _, List.mem_cons_self .., rfl, rfl, by decide +kernel⟩
  obtain ⟨tree, rows, hbuild, hitems, _, hiff⟩ := lookup_finds_row_iff rfl rfl hl hr .left "f" "g"
  refine ⟨rfl, rfl, hl, hr, hmatches, tree, rows, hbuild, hitems, fun hfinds => ?_⟩
  rcases hiff.mp hfinds with hdiff | hnever
  · cases hdiff
  · exact hnever _ hmatches

end Operator

end TableQuery
