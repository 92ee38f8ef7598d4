import Mathlib.Data.List.Nodup
import TableQuery.Collection.Stored
import TableQuery.Proofs.Collection.Skipping
import TableQuery.Proofs.Comparison.Token

/-!
# Reading stored collections

What a stored collection answers, said of its list of rows.  Without filters it delivers all of them,
and with filters those that the filters leave (`Stored.rows_items`).  A lookup by value delivers the
rows that a scan would keep, with an index for the field or without (`Stored.rows_itemsOnValue`).  If
no key occurs twice, a lookup by key finds exactly the rows (`Stored.find?_eq_some_iff`).

Indexing fields one after the other succeeds for a tuple kind and changes nothing but the indexes
(`Stored.exists_indexed`).  So a lookup by value in what comes of it delivers what a scan of the
collection delivers that was there before (`Stored.itemsOnValue_indexed`).
-/

namespace TableQuery

theorem Run.rows_scan (field : String) (value : Json) (run : Run) :
    (run.scan field value).rows = run.rows.filter (scanKeeps field value) := by
  rw [Run.scan, Run.rows_filterMap]
  induction run.rows with
  | nil => rfl
  | cons outcome rest ih =>
    cases h : scanKeeps field value outcome with
    | true => simp [h, ih]
    | false => simp [h, ih]

theorem Row.isTuple_iff {row : Row} : row.isTuple = true ↔ ∃ tuple, row.2 = .object tuple := by
  obtain ⟨key, value⟩ := row
  cases value <;> simp [Row.isTuple, Json.tuple?, Except.isOk, Except.toBool]

/-! ## Indexes -/

namespace Index

/-- The group of a token holds the rows with that token, in order. -/
theorem get?_ofRows (field token : String) (rows : List Row) :
    ((ofRows field rows).get? token).getD [] =
      rows.filter fun row => decide ((row.2.fieldOrNull field).token = token) := by
  induction rows with
  | nil => rfl
  | cons row rest ih =>
    have hcons : ofRows field (row :: rest) = add field row (ofRows field rest) := rfl
    rw [hcons, add, Fields.get?_insert]
    by_cases h : (row.2.fieldOrNull field).token = token
    · rw [if_pos h, Option.getD_some, h, ih, List.filter_cons_of_pos (by simpa using h)]
    · rw [if_neg h, ih, List.filter_cons_of_neg (by simpa using h)]

/-- A scan keeps the rows of the value's group. -/
theorem scanKeeps_ok (field : String) (value : Json) (row : Row) :
    scanKeeps field value (.ok row) = decide ((row.2.fieldOrNull field).token = value.token) := by
  apply Bool.eq_iff_iff.mpr
  rw [scanKeeps, Json.agrees_iff_token_eq, decide_eq_true_eq]

end Index

namespace Stored

/-! ## Iteration -/

/-- The rows that a stored collection delivers without filters. -/
def outcomes (stored : Stored) : List (Except Fault Row) := stored.rows.map .ok

@[simp] theorem rows_read (stored : Stored) : stored.read.rows = stored.outcomes :=
  Run.rows_ofRows _

theorem mem_outcomes {stored : Stored} {row : Row} :
    .ok row ∈ stored.outcomes ↔ row ∈ stored.rows := by
  simp [outcomes]

theorem rows_items (stored : Stored) (filters : Filters) :
    (stored.items filters).rows = Run.dropRows (filters.skip.getD 0)
      (match filters.predicate with
        | none => stored.outcomes
        | some predicate => stored.outcomes.filterMap predicate.keep) := by
  rw [items, Run.rows_skipRows]
  congr 1
  cases filters.predicate with
  | none => exact rows_read stored
  | some predicate =>
    show (stored.read.filterMap predicate.keep).rows = _
    rw [Run.rows_filterMap, rows_read]

/-! ## Lookup -/

/-- An index gives what a scan gives. -/
theorem rows_itemsOnValue (stored : Stored) (field : String) (value : Json) :
    (stored.itemsOnValue field value).rows = stored.outcomes.filter (scanKeeps field value) := by
  rw [itemsOnValue]
  split
  next index h =>
    have hgroup := Index.get?_ofRows field value.token stored.rows
    rw [← stored.current field index h] at hgroup
    rw [Run.rows_ofRows, hgroup, outcomes, List.filter_map]
    congr 1
    apply List.filter_congr
    intro row _
    exact (Index.scanKeeps_ok field value row).symm
  next h => rw [Run.rows_scan, rows_read]

/-- No key occurs twice. -/
def HasDistinctKeys (stored : Stored) : Prop := (stored.rows.map Prod.fst).Nodup

instance (stored : Stored) : Decidable stored.HasDistinctKeys :=
  inferInstanceAs (Decidable (List.Nodup _))

/-- With distinct keys, a lookup finds a value exactly if it stands in the row of the key. -/
theorem find?_eq_some_iff {stored : Stored} (distinct : stored.HasDistinctKeys) (key : Key)
    (value : Json) : stored.find? key = some value ↔ (key, value) ∈ stored.rows := by
  constructor
  · intro h
    obtain ⟨row, hfound, hvalue⟩ := Option.map_eq_some_iff.mp h
    have hkey : row.1 = key := by simpa using List.find?_some hfound
    have hmem := List.mem_of_find?_eq_some hfound
    rw [List.mem_reverse] at hmem
    obtain ⟨k, v⟩ := row
    subst hkey hvalue
    exact hmem
  · intro h
    have hsome : (stored.rows.reverse.find? fun row => row.1 == key).isSome = true := by
      rw [List.find?_isSome]
      exact ⟨(key, value), List.mem_reverse.mpr h, by simp⟩
    obtain ⟨row, hfound⟩ := Option.isSome_iff_exists.mp hsome
    have hkey : row.1 = key := by simpa using List.find?_some hfound
    have hmem : row ∈ stored.rows := List.mem_reverse.mp (List.mem_of_find?_eq_some hfound)
    have hrow : row = (key, value) := List.inj_on_of_nodup_map distinct hmem h hkey
    rw [find?, hfound, hrow]
    rfl

/-- The rows of a tuple kind hold tuples. -/
theorem isTuple_of_mem_outcomes {stored : Stored} (h : stored.kind.hasTuples = true) {row : Row}
    (hmem : .ok row ∈ stored.outcomes) : row.isTuple = true :=
  stored.tuples h row (mem_outcomes.mp hmem)

/-! ## Stored tuples -/

/-- Keyed tuples in memory, indexed by some fields. -/
def ofTuples (id : String) (properties : Properties) (tuples : List (Key × Tuple))
    (indexed : List String) : Stored where
  id := id
  kind := .dictOfTuples
  properties := properties
  rows := tuples.map fun row => (row.1, .object row.2)
  indexes := indexed.map fun field =>
    (field, .ofRows field (tuples.map fun row => (row.1, .object row.2)))
  tuples := by
    intro _ row hrow
    obtain ⟨tuple, _, rfl⟩ := List.mem_map.mp hrow
    rfl
  indexed := fun _ => rfl
  current := by
    intro field index h
    induction indexed with
    | nil => cases h
    | cons first rest ih =>
      rw [List.map_cons, Fields.get?] at h
      split at h
      next heq =>
        cases h
        rw [heq]
      next => exact ih h

/-! ## Indexing fields -/

/-- The collections have the same rows and announce the same, whatever their indexes are. -/
structure DiffersInIndexes (a b : Stored) : Prop where
  id : a.id = b.id
  kind : a.kind = b.kind
  properties : a.properties = b.properties
  rows : a.rows = b.rows

theorem DiffersInIndexes.trans {a b c : Stored} (hab : a.DiffersInIndexes b)
    (hbc : b.DiffersInIndexes c) : a.DiffersInIndexes c :=
  ⟨hab.id.trans hbc.id, hab.kind.trans hbc.kind, hab.properties.trans hbc.properties,
    hab.rows.trans hbc.rows⟩

theorem exists_withIndex {stored : Stored} (hkind : stored.kind.hasTuples = true) (field : String) :
    ∃ indexed, stored.withIndex field = .ok indexed ∧ indexed.DiffersInIndexes stored ∧
      indexed.indexes = stored.indexes.insert field (.ofRows field stored.rows) := by
  rw [withIndex, dif_pos hkind]
  exact ⟨_, rfl, ⟨rfl, rfl, rfl, rfl⟩, rfl⟩

/-- The fields of a tuple kind can be indexed in any order, and again. -/
theorem exists_indexed {stored : Stored} (hkind : stored.kind.hasTuples = true)
    (fields : List String) :
    ∃ indexed, fields.foldlM withIndex stored = .ok indexed ∧ indexed.DiffersInIndexes stored ∧
      ∀ field, indexed.indexes.has field = true ↔
        field ∈ fields ∨ stored.indexes.has field = true := by
  induction fields generalizing stored with
  | nil => exact ⟨stored, rfl, ⟨rfl, rfl, rfl, rfl⟩, by simp⟩
  | cons first rest ih =>
    obtain ⟨next, hnext, hfirst, hindexes⟩ := exists_withIndex hkind first
    obtain ⟨indexed, hindexed, hrest, hhas⟩ := ih (hfirst.kind ▸ hkind)
    refine ⟨indexed, ?_, hrest.trans hfirst, ?_⟩
    · rw [List.foldlM_cons, hnext]
      exact hindexed
    · intro field
      have hinsert : next.indexes.has field = true ↔
          field = first ∨ stored.indexes.has field = true := by
        rw [hindexes, Fields.has, Fields.get?_insert, Fields.has]
        by_cases h : first = field
        · simp [h]
        · simp [h, Ne.symm h]
      rw [hhas, hinsert, List.mem_cons, or_left_comm, or_assoc]

/-- Indexed by any fields, in any order and again, a collection answers a lookup by value with the rows
that a scan of the collection delivers as it was, in the same order. -/
theorem itemsOnValue_indexed {stored : Stored} (hkind : stored.kind.hasTuples = true)
    (fields : List String) :
    ∃ indexed, fields.foldlM withIndex stored = .ok indexed ∧ indexed.DiffersInIndexes stored ∧
      (∀ field, indexed.indexes.has field = true ↔
        field ∈ fields ∨ stored.indexes.has field = true) ∧
      ∀ field value, (indexed.toCollection.itemsOnValue field value).map Run.rows =
        (scanOnValue stored.toCollection.items field value).map Run.rows := by
  obtain ⟨indexed, hindexed, hsame, hhas⟩ := exists_indexed hkind fields
  refine ⟨indexed, hindexed, hsame, hhas, fun field value => congrArg Except.ok ?_⟩
  have hscan : ((stored.items .none).scan field value).rows =
      stored.outcomes.filter (scanKeeps field value) := by
    rw [Run.rows_scan, rows_items]
    exact congrArg _ (Run.dropRows_zero _)
  rw [hscan, rows_itemsOnValue, outcomes, hsame.rows]
  rfl

/-- A key that occurs twice, a number as a text, and a row without the field. -/
def repeated : Stored :=
  ofTuples "repeated" [("pop", .number), ("name", .string)]
    [(.name "a", [("pop", .number (.integer 520 (by decide)))]), (.name "b", [("name", .string "")]),
      (.name "a", [("pop", .string "520.0"), ("name", .string "Lyon")])] []

/-- One field is indexed twice, and the row without it is found under null. -/
theorem itemsOnValue_indexed_of_repeated :
    repeated.kind.hasTuples = true ∧
      ∃ indexed, ["pop", "name", "pop"].foldlM withIndex repeated = .ok indexed ∧
        indexed.indexes.names = ["pop", "name"] ∧
        (indexed.toCollection.itemsOnValue "pop" .null).map Run.rows =
          .ok [.ok (.name "b", .object [("name", .string "")])] ∧
        ∀ field value, (indexed.toCollection.itemsOnValue field value).map Run.rows =
          (scanOnValue repeated.toCollection.items field value).map Run.rows := by
  obtain ⟨indexed, hindexed, _, _, hrows⟩ :=
    itemsOnValue_indexed (show repeated.kind.hasTuples = true from rfl) ["pop", "name", "pop"]
  have hscan : (scanOnValue repeated.toCollection.items "pop" .null).map Run.rows =
      .ok [.ok (.name "b", .object [("name", .string "")])] := by decide +kernel
  refine ⟨rfl, indexed, hindexed, ?_, (hrows "pop" .null).trans hscan, hrows⟩
  cases hindexed
  rfl

end Stored

end TableQuery
