import TableQuery.Proofs.Key.Pair
import TableQuery.Proofs.Operator.Page

/-!
# Keys identify rows

If no leaf of a tree repeats a key, the tree does not either (`Built.nodup_keys`).  Projections and
selections keep the keys of rows.  A product and a join put the key of the left row into every key that
they make, so two left rows never share one (`nodup_keys_flatMap_expandTuple`).  One left row makes the
pairs with its matches or the one pair with the empty key, and never both, so it does no harm if a right
row has the empty key itself (`nodup_keys_matchRows`).

Skipping rows leaves the keys of the others alone: what is delivered then is a suffix of what is
delivered without, faults aside, and at most as many rows shorter as were to be skipped
(`Built.delivered_skipping`).  It can be less, since a projection may turn a row that was counted below
it into a fault.
-/

namespace TableQuery

namespace Run

/-- The keys of the rows that are delivered. -/
def keys (outcomes : List (Except Fault Row)) : List Key := (delivered outcomes).map Prod.fst

variable {outcomes : List (Except Fault Row)}

theorem keys_ok (row : Row) : keys (.ok row :: outcomes) = row.1 :: keys outcomes := rfl

theorem keys_append (others : List (Except Fault Row)) :
    keys (outcomes ++ others) = keys outcomes ++ keys others := by
  simp [keys, delivered]

theorem mem_keys {key : Key} : key ∈ keys outcomes ↔ ∃ value, .ok (key, value) ∈ outcomes := by
  simp [keys, mem_delivered]

theorem keys_sublist {others : List (Except Fault Row)} (h : others.Sublist outcomes) :
    (keys others).Sublist (keys outcomes) :=
  (h.filterMap _).map _

/-- Where faults stay faults, the rows that are delivered come from such rows. -/
theorem delivered_map {f : Except Fault Row → Except Fault Row}
    (hf : ∀ fault, f (.error fault) = .error fault) (outcomes : List (Except Fault Row)) :
    delivered (outcomes.map f) =
      (delivered outcomes).filterMap fun row => (f (.ok row)).toOption := by
  rw [delivered, delivered, List.filterMap_map, List.filterMap_filterMap]
  congr 1
  funext outcome
  cases outcome with
  | ok row => rfl
  | error fault => exact congrArg Except.toOption (hf fault)

/-! ## Distinct keys -/

/-- Rows that are made of rows one by one, with keys made of theirs, are keyed in the same order. -/
theorem keys_filterMap_sublist {f : Except Fault Row → Option (Except Fault Row)} (g : Key → Key)
    (hf : ∀ outcome row, f outcome = some (.ok row) → ∃ input, outcome = .ok input ∧ row.1 = g input.1)
    (outcomes : List (Except Fault Row)) :
    (keys (outcomes.filterMap f)).Sublist ((keys outcomes).map g) := by
  have hcons : ∀ (outcome : Except Fault Row) (rest : List (Except Fault Row)),
      ((keys rest).map g).Sublist ((keys (outcome :: rest)).map g) :=
    fun outcome rest => (keys_sublist (List.sublist_cons_self outcome rest)).map g
  induction outcomes with
  | nil => exact List.Sublist.refl _
  | cons outcome rest ih =>
    cases hmade : f outcome with
    | none =>
      rw [List.filterMap_cons_none hmade]
      exact ih.trans (hcons outcome rest)
    | some made =>
      rw [List.filterMap_cons_some hmade]
      cases made with
      | error fault => exact ih.trans (hcons outcome rest)
      | ok row =>
        obtain ⟨input, rfl, hkey⟩ := hf outcome row hmade
        rw [keys_ok, keys_ok, List.map_cons, hkey]
        exact ih.cons_cons _

/-- If the keys made of distinct keys are distinct, so are those of the rows that are made. -/
theorem nodup_keys_filterMap {f : Except Fault Row → Option (Except Fault Row)} {g : Key → Key}
    (hg : Function.Injective g)
    (hf : ∀ outcome row, f outcome = some (.ok row) → ∃ input, outcome = .ok input ∧ row.1 = g input.1)
    (h : (keys outcomes).Nodup) : (keys (outcomes.filterMap f)).Nodup :=
  (h.map hg).sublist (keys_filterMap_sublist g hf outcomes)

end Run

open Run

variable {schema : MergedSchema} {rows left right found : List (Except Fault Row)}

theorem nodup_keys_projectRow (h : (keys rows).Nodup) (pairs : FieldPairs) :
    (keys (rows.map pairs.projectRow)).Nodup := by
  rw [← List.filterMap_eq_map']
  refine nodup_keys_filterMap Function.injective_id ?_ h
  intro outcome row hrow
  obtain ⟨input, rfl, _⟩ := FieldPairs.projectRow_eq_ok_iff.mp (Option.some.inj hrow)
  exact ⟨_, rfl, rfl⟩

theorem nodup_keys_keep (h : (keys rows).Nodup) (predicate : Predicate) :
    (keys (rows.filterMap predicate.keep)).Nodup := by
  refine nodup_keys_filterMap Function.injective_id ?_ h
  intro outcome row hrow
  obtain ⟨rfl, _⟩ := Predicate.keep_eq_some_ok_iff.mp hrow
  exact ⟨_, rfl, rfl⟩

/-- The pairs of a left row with right rows of distinct keys have distinct keys. -/
theorem nodup_keys_pairRow (h : (keys found).Nodup) (key : Key) (tuple : Tuple) :
    (keys (found.map (schema.pairRow key tuple))).Nodup := by
  have hpair : Function.Injective (Key.pair key) := fun _ _ heq => (Key.pair_injective heq).2
  rw [← List.filterMap_eq_map']
  refine nodup_keys_filterMap hpair ?_ h
  intro outcome row hrow
  obtain ⟨otherKey, other, rfl, rfl⟩ := MergedSchema.pairRow_eq_ok_iff.mp (Option.some.inj hrow)
  exact ⟨_, rfl, rfl⟩

/-- If every left row makes rows with distinct keys that start with its own, and the left keys are
distinct, then so are all keys that are made. -/
theorem nodup_keys_flatMap_expandTuple {f : Key → Tuple → List (Except Fault Row)}
    (hleft : (keys left).Nodup) (hnodup : ∀ key tuple, (keys (f key tuple)).Nodup)
    (hpair : ∀ key tuple made, made ∈ keys (f key tuple) → ∃ other, made = .pair key other) :
    (keys (left.flatMap (expandTuple f))).Nodup := by
  induction left with
  | nil => exact List.nodup_nil
  | cons outcome rest ih =>
    have hrest := ih (hleft.sublist (keys_sublist (List.sublist_cons_self outcome rest)))
    rw [List.flatMap_cons, keys_append]
    cases hkeyed : keyedTuple outcome with
    | error fault =>
      rw [expandTuple, hkeyed]
      exact hrest
    | ok keyed =>
      obtain ⟨key, tuple⟩ := keyed
      have houtcome := keyedTuple_eq_ok_iff.mp hkeyed
      have hfresh : key ∉ keys rest := by
        rw [houtcome, keys_ok] at hleft
        exact (List.nodup_cons.mp hleft).1
      rw [expandTuple, hkeyed]
      refine List.nodup_append.mpr ⟨hnodup key tuple, hrest, ?_⟩
      -- a common key starts with this left key and with that of a later left row
      rintro made hmade _ hother rfl
      obtain ⟨value, hvalue⟩ := mem_keys.mp hother
      obtain ⟨later, laterTuple, hlater, hrow⟩ := Collection.mem_flatMap_expandTuple.mp hvalue
      obtain ⟨b, hb⟩ := hpair key tuple made hmade
      obtain ⟨c, hc⟩ := hpair later laterTuple made (mem_keys.mpr ⟨value, hrow⟩)
      have hsame : key = later := (Key.pair_injective (hb.symm.trans hc)).1
      exact hfresh (mem_keys.mpr ⟨_, hsame ▸ hlater⟩)

theorem exists_pair_of_mem_keys_pairRow {key : Key} {tuple : Tuple} {made : Key}
    (h : made ∈ keys (found.map (schema.pairRow key tuple))) : ∃ other, made = .pair key other := by
  obtain ⟨value, hvalue⟩ := mem_keys.mp h
  obtain ⟨outcome, _, hrow⟩ := List.mem_map.mp hvalue
  obtain ⟨otherKey, other, _, heq⟩ := MergedSchema.pairRow_eq_ok_iff.mp hrow
  cases heq
  exact ⟨otherKey, rfl⟩

theorem nodup_keys_productRows (hleft : (keys left).Nodup) (hright : (keys right).Nodup) :
    (keys (productRows schema left right)).Nodup :=
  nodup_keys_flatMap_expandTuple hleft (fun key tuple => nodup_keys_pairRow hright key tuple)
    fun _ _ _ => exists_pair_of_mem_keys_pairRow

/-- A left row is paired with its matches or with the missing side, and never with both. -/
theorem nodup_keys_matchRows (h : (keys found).Nodup) (join : JoinType) (key : Key) (tuple : Tuple) :
    (keys (join.matchRows schema key tuple found)).Nodup ∧
      ∀ made ∈ keys (join.matchRows schema key tuple found), ∃ other, made = .pair key other := by
  have hpairs : (keys (found.map (schema.pairRow key tuple))).Nodup := nodup_keys_pairRow h key tuple
  have hpaired : ∀ made ∈ keys (found.map (schema.pairRow key tuple)), ∃ other, made = .pair key other :=
    fun _ => exists_pair_of_mem_keys_pairRow
  have halone : (keys [.ok (.pair key .empty, join.unmatched schema tuple)]).Nodup ∧
      ∀ made ∈ keys [.ok (.pair key .empty, join.unmatched schema tuple)], ∃ other,
        made = .pair key other :=
    ⟨List.nodup_singleton _, fun _ hmade => ⟨.empty, List.mem_singleton.mp hmade⟩⟩
  match join, found with
  | .inner, _ => exact ⟨hpairs, hpaired⟩
  | .left, [] => exact halone
  | .left, _ :: _ => exact ⟨hpairs, hpaired⟩
  | .diff, [] => exact halone
  | .diff, .ok _ :: _ => exact ⟨List.nodup_nil, fun _ hmade => nomatch hmade⟩
  | .diff, .error _ :: _ => exact ⟨List.nodup_nil, fun _ hmade => nomatch hmade⟩

theorem nodup_keys_joinRows (hleft : (keys left).Nodup) (hright : (keys right).Nodup) (join : JoinType)
    (leftField rightField : String) :
    (keys (joinRows join schema leftField rightField left right)).Nodup := by
  have hfound : ∀ tuple : Tuple,
      (keys (right.filter (scanKeeps rightField (tuple.valueOrNull leftField)))).Nodup :=
    fun _ => hright.sublist (keys_sublist List.filter_sublist)
  exact nodup_keys_flatMap_expandTuple hleft
    (fun key tuple => (nodup_keys_matchRows (hfound tuple) join key tuple).1)
    fun key tuple => (nodup_keys_matchRows (hfound tuple) join key tuple).2

/-! ## Trees -/

/-- The collections in memory whose keys are distinct. -/
def DistinctlyKeyed (source : Collection) : Prop :=
  ∃ stored : Stored, source = stored.toCollection ∧ stored.HasDistinctKeys

theorem Stored.keys_outcomes (stored : Stored) : keys stored.outcomes = stored.rows.map Prod.fst := by
  rw [keys, delivered, outcomes, List.filterMap_map]
  exact congrArg (List.map Prod.fst) List.filterMap_some

theorem DistinctlyKeyed.nodup_keys {source : Collection} (h : DistinctlyKeyed source) :
    (keys source.rows).Nodup := by
  obtain ⟨stored, rfl, hdistinct⟩ := h
  rw [(Collection.Delivers.stored stored).rows_eq, stored.keys_outcomes]
  exact hdistinct

namespace Operator

theorem Built.nodup_keys {tree : Operator} (h : Built DistinctlyKeyed tree) :
    (keys tree.rows).Nodup := by
  induction h with
  | leaf hleaf => exact hleaf.nodup_keys
  | project _ hbuild ih =>
    obtain ⟨_, rfl⟩ := project_eq_ok_iff.mp hbuild
    exact nodup_keys_projectRow ih _
  | select _ hbuild ih =>
    obtain ⟨_, rfl⟩ := select_eq_ok_iff.mp hbuild
    exact nodup_keys_keep ih _
  | cross _ _ hbuild ihl ihr =>
    obtain ⟨_, _, rfl⟩ := cross_eq_ok_iff.mp hbuild
    exact nodup_keys_productRows ihl ihr
  | joinOnFields _ _ hbuild ihl ihr =>
    obtain ⟨_, _, rfl⟩ := joinOnFields_eq_ok_iff.mp hbuild
    exact nodup_keys_joinRows ihl ihr _ _ _
  | joinOnPredicate _ _ hbuild ihl ihr =>
    obtain ⟨_, _, rfl⟩ := of_joinOnPredicate_eq_ok hbuild
    exact nodup_keys_keep (nodup_keys_productRows ihl ihr) _

/-- A tree that skips rows delivers what it makes of the counted rows from a place on, and leaves out
what it makes of the rows before. -/
theorem Built.delivered_skipping {tree : Operator} (h : Built InMemory tree)
    (hskip : .skip ∈ tree.collection.capabilities) (n : Nat) :
    ∃ left, (tree.collection.items (.skipping n)).map Run.rows = .ok left ∧
      delivered left <:+ delivered tree.rows ∧
      (delivered tree.rows).length ≤ (delivered left).length + n := by
  refine ⟨_, h.skipsCounted hskip n, ?_⟩
  rw [rows_eq_map_finish tree, delivered_map tree.finish_error, delivered_map tree.finish_error,
    delivered_dropRows]
  generalize (fun row => (tree.finish (.ok row)).toOption) = made
  generalize delivered tree.counted.rows = counted
  have hsplit : counted.filterMap made =
      (counted.take n).filterMap made ++ (counted.drop n).filterMap made := by
    rw [← List.filterMap_append, List.take_append_drop]
  have hfront : ((counted.take n).filterMap made).length ≤ n :=
    Nat.le_trans (List.length_filterMap_le ..) (List.length_take_le ..)
  rw [hsplit, List.length_append]
  exact ⟨List.suffix_append .., by omega⟩

/-- The keys of the rows are distinct if those of each leaf are.  Skipping rows leaves a suffix of the
rows, with the keys that they have without, and leaves out no more rows than it is asked to. -/
theorem keys_identify_rows {tree : Operator} (h : Built InMemory tree) :
    ∃ rows, (tree.collection.items .none).map Run.rows = .ok rows ∧
      (Built DistinctlyKeyed tree → (keys rows).Nodup) ∧
      (.skip ∈ tree.collection.capabilities → ∀ n, ∃ left,
        (tree.collection.items (.skipping n)).map Run.rows = .ok left ∧
          delivered left <:+ delivered rows ∧
          (delivered rows).length ≤ (delivered left).length + n) := by
  have hitems := (h.delivers fun _ => InMemory.delivers).items
  exact ⟨tree.rows, hitems, fun hdistinct => hdistinct.nodup_keys, h.delivered_skipping⟩

/-- A match under the empty key, and a row that matches nothing. -/
def unnamed : Operator :=
  .leaf (Stored.ofTuples "unnamed" [("y", .string)]
    [(.empty, [("y", .string "1.0")]), (.name "b", [("y", .string "2")])] ["y"]).toCollection

/-- A left join in which one left row is paired with the row under the empty key and the other with the
missing side. -/
theorem keys_identify_rows_of_empty_key :
    Built InMemory (fieldJoin .left amounts "x" unnamed "y") ∧
      Built DistinctlyKeyed (fieldJoin .left amounts "x" unnamed "y") ∧
      .skip ∈ (fieldJoin .left amounts "x" unnamed "y").collection.capabilities ∧
      ∃ rows,
        ((fieldJoin .left amounts "x" unnamed "y").collection.items .none).map Run.rows = .ok rows ∧
        (keys rows).Nodup ∧
        ∀ n, ∃ left,
          ((fieldJoin .left amounts "x" unnamed "y").collection.items (.skipping n)).map Run.rows =
            .ok left ∧
          delivered left <:+ delivered rows ∧
          (delivered rows).length ≤ (delivered left).length + n := by
  have hbuild : joinOnFields .left amounts "x" unnamed "y" =
      .ok (fieldJoin .left amounts "x" unnamed "y") := joinOnFields_eq_ok_iff.mpr ⟨rfl, rfl, rfl⟩
  have hmemory : Built InMemory (fieldJoin .left amounts "x" unnamed "y") :=
    .joinOnFields (.leaf ⟨_, rfl⟩) (.leaf ⟨_, rfl⟩) hbuild
  have hdistinct : Built DistinctlyKeyed (fieldJoin .left amounts "x" unnamed "y") :=
    .joinOnFields (.leaf ⟨_, rfl, by decide⟩) (.leaf ⟨_, rfl, by decide⟩) hbuild
  have hskip : .skip ∈ (fieldJoin .left amounts "x" unnamed "y").collection.capabilities :=
    List.mem_singleton_self _
  obtain ⟨rows, hitems, hnodup, hsuffix⟩ := keys_identify_rows hmemory
  exact ⟨hmemory, hdistinct, hskip, rows, hitems, hnodup hdistinct, hsuffix hskip⟩

end Operator

end TableQuery
