import TableQuery.Proofs.Key.Pair
import TableQuery.Proofs.Operator.Tree

/-!
# Lookup by key agrees with iteration

`Collection.Answers` says of a collection that a lookup by key finds exactly the rows that it delivers:
every row is found under its key, and what is found under a key is a row, provided that the key is
spelled as pairing spells it wherever the collection splits it.  Stored collections with distinct keys
answer so, and every operator does if its inputs do (`Built.answers`).  For trees this is
`lookup_agrees_with_items`.

Each operator looks a row up in a way of its own, so there are two equivalences for each: when a lookup
finds a value (`result_item_...`), and when a row is among the rows (`mem_...Rows_iff`).  They match
case by case.  A row of a join without a match has the empty key as its second part, so the proof carries
along that no row has the empty key itself.
-/

namespace TableQuery

/-! ## Which rows there are -/

variable {schema : MergedSchema} {key : Key} {value : Json}

theorem mem_map_pairRow_iff {a : Key} {tuple : Tuple} {found : List (Except Fault Row)} :
    .ok (key, value) ∈ found.map (schema.pairRow a tuple) ↔
      ∃ b other, .ok (b, .object other) ∈ found ∧ key = .pair a b ∧
        value = .object (schema.mergeTuples tuple (some other)) := by
  rw [List.mem_map]
  constructor
  · rintro ⟨outcome, hmem, hpair⟩
    obtain ⟨b, other, rfl, hrow⟩ := MergedSchema.pairRow_eq_ok_iff.mp hpair
    cases hrow
    exact ⟨b, other, hmem, rfl, rfl⟩
  · rintro ⟨b, other, hmem, rfl, rfl⟩
    exact ⟨_, hmem, rfl⟩

theorem mem_productRows_iff {left right : List (Except Fault Row)} :
    .ok (key, value) ∈ productRows schema left right ↔
      ∃ a tuple b other, .ok (a, .object tuple) ∈ left ∧ .ok (b, .object other) ∈ right ∧
        key = .pair a b ∧ value = .object (schema.mergeTuples tuple (some other)) := by
  rw [productRows, Collection.mem_flatMap_expandTuple]
  simp only [mem_map_pairRow_iff]
  constructor
  · rintro ⟨a, tuple, hl, b, other, hr, hkey, hvalue⟩
    exact ⟨a, tuple, b, other, hl, hr, hkey, hvalue⟩
  · rintro ⟨a, tuple, b, other, hl, hr, hkey, hvalue⟩
    exact ⟨a, tuple, hl, b, other, hr, hkey, hvalue⟩

theorem mem_matchRows_iff {join : JoinType} {a : Key} {tuple : Tuple}
    {found : List (Except Fault Row)} :
    .ok (key, value) ∈ join.matchRows schema a tuple found ↔
      (join ≠ .inner ∧ found = [] ∧ key = .pair a .empty ∧ value = join.unmatched schema tuple) ∨
        (join ≠ .diff ∧ ∃ b other, .ok (b, .object other) ∈ found ∧ key = .pair a b ∧
          value = .object (schema.mergeTuples tuple (some other))) := by
  match join, found with
  | .inner, found =>
    rw [JoinType.matchRows, mem_map_pairRow_iff]
    simp
  | .left, [] => simp [JoinType.matchRows]
  | .left, outcome :: others =>
    have hpairs : JoinType.left.matchRows schema a tuple (outcome :: others) =
        (outcome :: others).map (schema.pairRow a tuple) := rfl
    rw [hpairs, mem_map_pairRow_iff]
    simp
  | .diff, [] => simp [JoinType.matchRows]
  | .diff, .ok _ :: _ => simp [JoinType.matchRows]
  | .diff, .error _ :: _ => simp [JoinType.matchRows]

/-! ## Which lookups find a value -/

theorem Lookup.result_bind_eq_ok_iff {α β : Type} {first : Lookup α} {next : α → Lookup β} {b : β} :
    (first >>= next).result = .ok b ↔ ∃ a, first.result = .ok a ∧ (next a).result = .ok b := by
  rw [Lookup.result_bind]
  cases first.result <;> simp [Except.bind]

theorem Lookup.result_bind_eq_error_iff {α β : Type} {first : Lookup α} {next : α → Lookup β}
    {fault : Fault} :
    (first >>= next).result = .error fault ↔
      first.result = .error fault ∨ ∃ a, first.result = .ok a ∧ (next a).result = .error fault := by
  rw [Lookup.result_bind]
  cases first.result <;> simp [Except.bind]

namespace Collection

variable {source left right : Collection}

theorem result_item_projected {pairs : FieldPairs} :
    ((source.projected pairs).item key).result = .ok (some value) ↔
      ∃ input, (source.item key).result = .ok (some input) ∧ pairs.project input = .ok value := by
  simp only [Collection.projected, Lookup.result_bind]
  cases (source.item key).result with
  | error fault => simp [Except.bind]
  | ok found =>
    cases found with
    | none => simp [Except.bind]
    | some input =>
      cases hproject : pairs.project input <;> simp [Except.bind, hproject]

theorem result_item_selected {predicate : Predicate} :
    ((source.selected predicate).item key).result = .ok (some value) ↔
      (source.item key).result = .ok (some value) ∧
        value.tuple?.bind predicate.evaluate = .ok true := by
  constructor
  · intro h
    obtain ⟨found, hfound, h⟩ := Lookup.result_bind_eq_ok_iff.mp h
    cases found with
    | none => cases h
    | some input =>
      obtain ⟨keep, hkeep, h⟩ := Lookup.result_bind_eq_ok_iff.mp h
      cases keep with
      | false => cases h
      | true =>
        cases h
        exact ⟨hfound, hkeep⟩
  · rintro ⟨hfound, hkeep⟩
    refine Lookup.result_bind_eq_ok_iff.mpr ⟨some value, hfound, ?_⟩
    exact Lookup.result_bind_eq_ok_iff.mpr ⟨true, hkeep, rfl⟩

theorem result_item_product :
    ((left.product right).item key).result = .ok (some value) ↔
      ∃ a b tuple other, key.split = .ok (a, b) ∧
        (left.item a).result = .ok (some (.object tuple)) ∧
        (right.item b).result = .ok (some (.object other)) ∧
        value = .object ((MergedSchema.merge left.properties right.properties).mergeTuples tuple
          (some other)) := by
  constructor
  · intro h
    obtain ⟨⟨a, b⟩, hsplit, h⟩ := Lookup.result_bind_eq_ok_iff.mp h
    obtain ⟨leftValue, hleft, h⟩ := Lookup.result_bind_eq_ok_iff.mp h
    obtain ⟨rightValue, hright, h⟩ := Lookup.result_bind_eq_ok_iff.mp h
    match leftValue, rightValue, h with
    | none, _, h => cases h
    | some _, none, h => cases h
    | some leftValue, some rightValue, h =>
      obtain ⟨tuple, htuple, h⟩ := Lookup.result_bind_eq_ok_iff.mp h
      obtain ⟨other, hother, h⟩ := Lookup.result_bind_eq_ok_iff.mp h
      rw [Json.tuple?_eq_ok_iff.mp htuple] at hleft
      rw [Json.tuple?_eq_ok_iff.mp hother] at hright
      cases h
      exact ⟨a, b, tuple, other, hsplit, hleft, hright, rfl⟩
  · rintro ⟨a, b, tuple, other, hsplit, hleft, hright, rfl⟩
    refine Lookup.result_bind_eq_ok_iff.mpr ⟨(a, b), hsplit, ?_⟩
    refine Lookup.result_bind_eq_ok_iff.mpr ⟨_, hleft, ?_⟩
    exact Lookup.result_bind_eq_ok_iff.mpr ⟨_, hright, rfl⟩

theorem result_findUnmatched {join : JoinType} {rightField : String} {sought : Json} {tuple : Tuple}
    {rows : List (Except Fault Row)} (hr : right.Delivers rows) :
    (findUnmatched join schema right rightField sought tuple).result = .ok (some value) ↔
      join ≠ .inner ∧ rows.filter (scanKeeps rightField sought) = [] ∧
        value = join.unmatched schema tuple := by
  obtain ⟨found, hfound, hrows⟩ := map_eq_ok_iff.mp (hr.onValue rightField sought)
  rw [findUnmatched, ← hrows]
  split
  next hinner =>
    constructor
    · intro h
      cases h
    · intro h
      exact absurd hinner h.1
  next hinner =>
    constructor
    · intro h
      obtain ⟨run, hrun, h⟩ := Lookup.result_bind_eq_ok_iff.mp h
      cases hfound.symm.trans hrun
      simp only [Lookup.result_bind, Lookup.result_first] at h
      cases hhead : found.rows with
      | nil =>
        rw [hhead] at h
        cases h
        exact ⟨hinner, rfl, rfl⟩
      | cons outcome others =>
        rw [hhead] at h
        cases outcome <;> cases h
    · rintro ⟨_, hnil, rfl⟩
      refine Lookup.result_bind_eq_ok_iff.mpr ⟨found, hfound, ?_⟩
      refine Lookup.result_bind_eq_ok_iff.mpr ⟨none, ?_, rfl⟩
      rw [Lookup.result_first, hnil]
      rfl

theorem result_findMatched {join : JoinType} {rightField : String} {sought : Json} {tuple : Tuple}
    {b : Key} :
    (findMatched join schema right rightField sought tuple b).result = .ok (some value) ↔
      join ≠ .diff ∧ ∃ other : Tuple, (right.item b).result = .ok (some (.object other)) ∧
        sought.agrees (other.valueOrNull rightField) = true ∧
        value = .object (schema.mergeTuples tuple (some other)) := by
  rw [findMatched]
  split
  next hdiff =>
    constructor
    · intro h
      cases h
    · intro h
      exact absurd hdiff h.1
  next hdiff =>
    constructor
    · intro h
      obtain ⟨rightValue, hright, h⟩ := Lookup.result_bind_eq_ok_iff.mp h
      cases rightValue with
      | none => cases h
      | some rightValue =>
        dsimp only at h
        split at h
        next hagrees =>
          obtain ⟨other, hother, h⟩ := Lookup.result_bind_eq_ok_iff.mp h
          rw [Lookup.result_ofExcept, Json.tuple?_eq_ok_iff] at hother
          subst hother
          cases h
          exact ⟨hdiff, other, hright, hagrees, rfl⟩
        next => cases h
    · rintro ⟨_, other, hright, hagrees, rfl⟩
      refine Lookup.result_bind_eq_ok_iff.mpr ⟨_, hright, ?_⟩
      have hfield : (Json.object other).fieldOrNull rightField = other.valueOrNull rightField := rfl
      simp only [hfield, hagrees, if_true]
      rfl

/-- The lookup of a join on fields: under the empty key a left row without a match, under any other key
a left row with a right one that agrees. -/
theorem result_item_joined {join : JoinType} {leftField rightField : String}
    {rows : List (Except Fault Row)} (hr : right.Delivers rows) :
    ((left.joined join leftField right rightField).item key).result = .ok (some value) ↔
      ∃ a b, ∃ tuple : Tuple, key.split = .ok (a, b) ∧
        (left.item a).result = .ok (some (.object tuple)) ∧
        ((b = .empty ∧ join ≠ .inner ∧
            rows.filter (scanKeeps rightField (tuple.valueOrNull leftField)) = [] ∧
            value = join.unmatched (.merge left.properties right.properties) tuple) ∨
          (b ≠ .empty ∧ join ≠ .diff ∧ ∃ other : Tuple,
            (right.item b).result = .ok (some (.object other)) ∧
            (tuple.valueOrNull leftField).agrees (other.valueOrNull rightField) = true ∧
            value = .object ((MergedSchema.merge left.properties right.properties).mergeTuples tuple
              (some other)))) := by
  have hempty : ∀ b : Key, b.isEmpty = true ↔ b = .empty := fun b => beq_iff_eq
  constructor
  · intro h
    obtain ⟨⟨a, b⟩, hsplit, h⟩ := Lookup.result_bind_eq_ok_iff.mp h
    obtain ⟨leftValue, hleft, h⟩ := Lookup.result_bind_eq_ok_iff.mp h
    cases leftValue with
    | none => cases h
    | some leftValue =>
      obtain ⟨tuple, htuple, h⟩ := Lookup.result_bind_eq_ok_iff.mp h
      rw [Json.tuple?_eq_ok_iff.mp htuple] at hleft
      refine ⟨a, b, tuple, hsplit, hleft, ?_⟩
      split at h
      next hb => exact .inl ⟨(hempty b).mp hb, (result_findUnmatched hr).mp h⟩
      next hb => exact .inr ⟨fun e => hb ((hempty b).mpr e), result_findMatched.mp h⟩
  · rintro ⟨a, b, tuple, hsplit, hleft, hcase⟩
    refine Lookup.result_bind_eq_ok_iff.mpr ⟨(a, b), hsplit, ?_⟩
    refine Lookup.result_bind_eq_ok_iff.mpr ⟨_, hleft, ?_⟩
    refine Lookup.result_bind_eq_ok_iff.mpr ⟨tuple, rfl, ?_⟩
    rcases hcase with ⟨hb, hunmatched⟩ | ⟨hb, hmatched⟩
    · rw [if_pos ((hempty b).mpr hb)]
      exact (result_findUnmatched hr).mpr hunmatched
    · rw [if_neg fun e => hb ((hempty b).mp e)]
      exact result_findMatched.mpr hmatched

end Collection

/-! ## Answering lookups -/

/-- A composite key is spelled as pairing spells it, and its parts are spelled in the given ways. -/
def Key.SpelledPair (Left Right : Key → Prop) (key : Key) : Prop :=
  ∀ a b, key.split = .ok (a, b) → .pair a b = key ∧ Left a ∧ Right b

namespace Collection

/-- A lookup by key finds the rows that are delivered and, under keys that are spelled in the given way,
nothing else. -/
structure Answers (source : Collection) (rows : List (Except Fault Row)) (Spelled : Key → Prop) :
    Prop where
  /-- Every row is found under its key. -/
  found : ∀ key value, .ok (key, value) ∈ rows → (source.item key).result = .ok (some value)
  /-- What is found is a row. -/
  only : ∀ key value, Spelled key → (source.item key).result = .ok (some value) →
    .ok (key, value) ∈ rows
  /-- No row has the empty key. -/
  named : ∀ key value, .ok (key, value) ∈ rows → key ≠ .empty

variable {source left right : Collection} {rows leftRows rightRows : List (Except Fault Row)}
variable {Spelled Left Right : Key → Prop}

theorem Answers.stored {stored : Stored} (distinct : stored.HasDistinctKeys)
    (named : ∀ row ∈ stored.rows, row.1 ≠ .empty) :
    stored.toCollection.Answers stored.outcomes fun _ => True where
  found := by
    intro key value hmem
    have hfind := (Stored.find?_eq_some_iff distinct key value).mpr (Stored.mem_outcomes.mp hmem)
    exact congrArg Except.ok hfind
  only := by
    intro key value _ hfound
    exact Stored.mem_outcomes.mpr ((Stored.find?_eq_some_iff distinct key value).mp
      (Except.ok.inj hfound))
  named := fun _ _ hmem => named _ (Stored.mem_outcomes.mp hmem)

theorem Answers.projected (h : source.Answers rows Spelled) (pairs : FieldPairs) :
    (source.projected pairs).Answers (rows.map pairs.projectRow) Spelled where
  found := by
    intro key value hmem
    obtain ⟨outcome, hrow, hproject⟩ := List.mem_map.mp hmem
    obtain ⟨input, rfl, hvalue⟩ := FieldPairs.projectRow_eq_ok_iff.mp hproject
    exact result_item_projected.mpr ⟨input, h.found key input hrow, hvalue⟩
  only := by
    intro key value hspelled hfound
    obtain ⟨input, hinput, hvalue⟩ := result_item_projected.mp hfound
    have hrow := h.only key input hspelled hinput
    exact List.mem_map.mpr ⟨_, hrow, FieldPairs.projectRow_eq_ok_iff.mpr ⟨input, rfl, hvalue⟩⟩
  named := by
    intro key value hmem
    obtain ⟨outcome, hrow, hproject⟩ := List.mem_map.mp hmem
    obtain ⟨input, rfl, _⟩ := FieldPairs.projectRow_eq_ok_iff.mp hproject
    exact h.named key input hrow

theorem Answers.selected (h : source.Answers rows Spelled) (predicate : Predicate) :
    (source.selected predicate).Answers (rows.filterMap predicate.keep) Spelled where
  found := by
    intro key value hmem
    obtain ⟨outcome, hrow, hkeep⟩ := List.mem_filterMap.mp hmem
    obtain ⟨rfl, htrue⟩ := Predicate.keep_eq_some_ok_iff.mp hkeep
    exact result_item_selected.mpr ⟨h.found key value hrow, htrue⟩
  only := by
    intro key value hspelled hfound
    obtain ⟨hinput, htrue⟩ := result_item_selected.mp hfound
    have hrow := h.only key value hspelled hinput
    exact List.mem_filterMap.mpr ⟨_, hrow, Predicate.keep_eq_some_ok_iff.mpr ⟨rfl, htrue⟩⟩
  named := by
    intro key value hmem
    obtain ⟨outcome, hrow, hkeep⟩ := List.mem_filterMap.mp hmem
    obtain ⟨rfl, _⟩ := Predicate.keep_eq_some_ok_iff.mp hkeep
    exact h.named key value hrow

theorem Answers.product (hl : left.Answers leftRows Left) (hr : right.Answers rightRows Right) :
    (left.product right).Answers
      (productRows (.merge left.properties right.properties) leftRows rightRows)
      (Key.SpelledPair Left Right) where
  found := by
    intro key value hmem
    obtain ⟨a, tuple, b, other, hleft, hright, rfl, rfl⟩ := mem_productRows_iff.mp hmem
    exact result_item_product.mpr ⟨a, b, tuple, other, Key.split_pair a b, hl.found a _ hleft,
      hr.found b _ hright, rfl⟩
  only := by
    intro key value hspelled hfound
    obtain ⟨a, b, tuple, other, hsplit, hleft, hright, rfl⟩ := result_item_product.mp hfound
    obtain ⟨rfl, ha, hb⟩ := hspelled a b hsplit
    exact mem_productRows_iff.mpr ⟨a, tuple, b, other, hl.only a _ ha hleft, hr.only b _ hb hright,
      rfl, rfl⟩
  named := by
    intro key value hmem
    obtain ⟨a, _, b, _, _, _, rfl, _⟩ := mem_productRows_iff.mp hmem
    exact Key.pair_ne_empty a b

theorem mem_filter_scanKeeps {field : String} {sought : Json} {b : Key} {other : Tuple} :
    .ok (b, .object other) ∈ rows.filter (scanKeeps field sought) ↔
      .ok (b, .object other) ∈ rows ∧ sought.agrees (other.valueOrNull field) = true := by
  rw [List.mem_filter, Json.agrees_comm]
  rfl

theorem Answers.joined (hl : left.Answers leftRows Left) (hr : right.Answers rightRows Right)
    (hdelivers : right.Delivers rightRows) (join : JoinType) (leftField rightField : String) :
    (left.joined join leftField right rightField).Answers
      (joinRows join (.merge left.properties right.properties) leftField rightField leftRows
        rightRows)
      (Key.SpelledPair Left Right) where
  found := by
    intro key value hmem
    obtain ⟨a, tuple, hleft, hrow⟩ := mem_flatMap_expandTuple.mp hmem
    rw [result_item_joined hdelivers]
    -- the second key is empty for a row without partners, and no partner has the empty key
    rcases mem_matchRows_iff.mp hrow with ⟨hjoin, hnil, rfl, rfl⟩ | ⟨hjoin, b, other, hb, rfl, rfl⟩
    · exact ⟨a, .empty, tuple, Key.split_pair a .empty, hl.found a _ hleft,
        .inl ⟨rfl, hjoin, hnil, rfl⟩⟩
    · obtain ⟨hright, hagrees⟩ := mem_filter_scanKeeps.mp hb
      exact ⟨a, b, tuple, Key.split_pair a b, hl.found a _ hleft,
        .inr ⟨hr.named b _ hright, hjoin, other, hr.found b _ hright, hagrees, rfl⟩⟩
  only := by
    intro key value hspelled hfound
    obtain ⟨a, b, tuple, hsplit, hleft, hcase⟩ := (result_item_joined hdelivers).mp hfound
    obtain ⟨rfl, ha, hb⟩ := hspelled a b hsplit
    refine mem_flatMap_expandTuple.mpr ⟨a, tuple, hl.only a _ ha hleft, mem_matchRows_iff.mpr ?_⟩
    rcases hcase with ⟨rfl, hjoin, hnil, rfl⟩ | ⟨_, hjoin, other, hright, hagrees, rfl⟩
    · exact .inl ⟨hjoin, hnil, rfl, rfl⟩
    · have hmem := mem_filter_scanKeeps.mpr ⟨hr.only b _ hb hright, hagrees⟩
      exact .inr ⟨hjoin, b, other, hmem, rfl, rfl⟩
  named := by
    intro key value hmem
    obtain ⟨a, _, _, hrow⟩ := mem_flatMap_expandTuple.mp hmem
    rcases mem_matchRows_iff.mp hrow with ⟨_, _, rfl, _⟩ | ⟨_, b, _, _, rfl, _⟩
    · exact Key.pair_ne_empty a .empty
    · exact Key.pair_ne_empty a b

theorem Answers.withId (h : source.Answers rows Spelled) (id : String) :
    Answers { source with id } rows Spelled :=
  ⟨h.found, h.only, h.named⟩

theorem Answers.joinedOn (hl : left.Answers leftRows Left) (hr : right.Answers rightRows Right)
    (hdelivers : right.Delivers rightRows) (hkind : right.kind.hasTuples = true)
    (predicate : Predicate) :
    (left.joinedOn right predicate).Answers
      ((productRows (.merge left.properties right.properties) leftRows rightRows).filterMap
        predicate.keep)
      (Key.SpelledPair Left Right) := by
  have hselected := (hl.product hr).selected predicate
  rw [Collection.joinedOn]
  split
  next leftField rightField hchoose =>
    have hequates := JoinStrategy.equates_of_choose hchoose
    rw [productRows_filterMap_keep hequates leftRows (hdelivers.tuples hkind)]
    exact (hl.joined hr hdelivers .inner leftField rightField).withId _
  next => exact hselected.withId _

end Collection

/-! ## Lookups in trees -/

/-- The collections in memory whose keys are distinct and not empty. -/
def WellKeyed (source : Collection) : Prop :=
  ∃ stored : Stored, source = stored.toCollection ∧ stored.HasDistinctKeys ∧
    ∀ row ∈ stored.rows, row.1 ≠ .empty

theorem WellKeyed.inMemory {source : Collection} (h : WellKeyed source) : InMemory source := by
  obtain ⟨stored, hsource, _⟩ := h
  exact ⟨stored, hsource⟩

theorem WellKeyed.answers {source : Collection} (h : WellKeyed source) :
    source.Answers source.rows fun _ => True := by
  obtain ⟨stored, rfl, hdistinct, hnamed⟩ := h
  rw [(Collection.Delivers.stored stored).rows_eq]
  exact .stored hdistinct hnamed

namespace Operator

/-- A key is spelled as pairing spells it at every level at which a tree splits it. -/
def Spelled : Operator → Key → Prop
  | leaf _ => fun _ => True
  | projection input _ => input.Spelled
  | selection _ input => input.Spelled
  | product left right => Key.SpelledPair left.Spelled right.Spelled
  | fieldJoin _ left _ right _ => Key.SpelledPair left.Spelled right.Spelled
  | predicateJoin left right _ => Key.SpelledPair left.Spelled right.Spelled

theorem Built.answers {tree : Operator} (h : Built WellKeyed tree) :
    tree.collection.Answers tree.rows tree.Spelled := by
  -- a lookup in a join asks the right operand for the partners of the left row
  have hdelivers : ∀ {tree : Operator}, Built WellKeyed tree → tree.collection.Delivers tree.rows :=
    fun h => h.delivers fun _ hleaf => hleaf.inMemory.delivers
  induction h with
  | leaf hleaf => exact hleaf.answers
  | project _ hbuild ih =>
    obtain ⟨_, rfl⟩ := project_eq_ok_iff.mp hbuild
    exact ih.projected _
  | select _ hbuild ih =>
    obtain ⟨_, rfl⟩ := select_eq_ok_iff.mp hbuild
    exact ih.selected _
  | cross _ _ hbuild ihl ihr =>
    obtain ⟨_, _, rfl⟩ := cross_eq_ok_iff.mp hbuild
    exact ihl.product ihr
  | joinOnFields _ hr hbuild ihl ihr =>
    obtain ⟨_, _, rfl⟩ := joinOnFields_eq_ok_iff.mp hbuild
    exact ihl.joined ihr (hdelivers hr) _ _ _
  | joinOnPredicate _ hr hbuild ihl ihr =>
    obtain ⟨_, hkind, rfl⟩ := of_joinOnPredicate_eq_ok hbuild
    exact ihl.joinedOn ihr (hdelivers hr) hkind _

/-- A lookup by key finds every row under its key, and under a key that is spelled as pairing spells it
nothing but rows. -/
theorem lookup_agrees_with_items {tree : Operator} (h : Built WellKeyed tree) :
    ∃ rows, (tree.collection.items .none).map Run.rows = .ok rows ∧
      (∀ key value, .ok (key, value) ∈ rows →
        (tree.collection.item key).result = .ok (some value)) ∧
      (∀ key value, tree.Spelled key → (tree.collection.item key).result = .ok (some value) →
        .ok (key, value) ∈ rows) := by
  have hdelivers := h.delivers fun _ hleaf => hleaf.inMemory.delivers
  exact ⟨tree.rows, hdelivers.items, h.answers.found, h.answers.only⟩

/-- A left join whose left keys are a position and the name with the same digits. -/
theorem lookup_agrees_with_items_of_left_join :
    Built WellKeyed (fieldJoin .left amounts "x" labels "y") ∧
      ∃ rows,
        ((fieldJoin .left amounts "x" labels "y").collection.items .none).map Run.rows = .ok rows ∧
        (∀ key value, .ok (key, value) ∈ rows →
          ((fieldJoin .left amounts "x" labels "y").collection.item key).result =
            .ok (some value)) ∧
        (∀ key value, (fieldJoin .left amounts "x" labels "y").Spelled key →
          ((fieldJoin .left amounts "x" labels "y").collection.item key).result =
            .ok (some value) → .ok (key, value) ∈ rows) := by
  have hl : Built WellKeyed amounts := .leaf ⟨_, rfl, by decide, by decide⟩
  have hr : Built WellKeyed labels := .leaf ⟨_, rfl, by decide, by decide⟩
  have hjoin : Built WellKeyed (fieldJoin .left amounts "x" labels "y") :=
    .joinOnFields hl hr (joinOnFields_eq_ok_iff.mpr ⟨rfl, rfl, rfl⟩)
  exact ⟨hjoin, lookup_agrees_with_items hjoin⟩

end Operator

end TableQuery
