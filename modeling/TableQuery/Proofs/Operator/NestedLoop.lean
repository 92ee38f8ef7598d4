import TableQuery.Proofs.Operator.Identity

/-!
# A join on fields is a nested loop

`nestedLoop` says what a join means.  Each left row, in order, is paired with the right rows that agree
with it, in theirs.  If there are none, the type of the join says what the left row alone becomes.  The
loop knows of tuples only: no faults, no runs, no index and no first match.

A join of two trees that deliver no fault delivers the rows of the loop, whichever way its right operand
is looked up by value (`fieldJoin_eq_nestedLoop`).  A product delivers the rows of the loop in which every
pair agrees (`productRows_tupleRows`).

For one left row a left join makes what the inner join makes or what the difference makes, and the other
of the two makes nothing.  So the keys of the left join are those of both, each as often.
-/

namespace TableQuery

/-! ## The loop -/

namespace JoinType

/-- What a left row becomes that no right row agrees with. -/
def alone (join : JoinType) (schema : MergedSchema) (row : Key × Tuple) : List Row :=
  match join with
  | inner => []
  | left => [(.pair row.1 .empty, .object (schema.mergeTuples row.2 none))]
  | diff => [(.pair row.1 .empty, .object row.2)]

/-- What a left row becomes with the right rows that agree with it, if there are any. -/
def together (join : JoinType) (schema : MergedSchema) (row : Key × Tuple)
    (found : List (Key × Tuple)) : List Row :=
  match join with
  | inner | left => found.map fun other =>
    (.pair row.1 other.1, .object (schema.mergeTuples row.2 (some other.2)))
  | diff => []

/-- What a left row becomes, given the right rows that agree with it. -/
def loopBody (join : JoinType) (schema : MergedSchema) (row : Key × Tuple) :
    List (Key × Tuple) → List Row
  | [] => join.alone schema row
  | found => join.together schema row found

end JoinType

/-- Whether a right row agrees with a left one on a field of each, null where there is no such field. -/
def agreeOn (leftField rightField : String) (row other : Key × Tuple) : Bool :=
  (other.2.valueOrNull rightField).agrees (row.2.valueOrNull leftField)

/-- The rows of a join of keyed tuples. -/
def nestedLoop (join : JoinType) (schema : MergedSchema) (agree : Key × Tuple → Key × Tuple → Bool)
    (left right : List (Key × Tuple)) : List Row :=
  left.flatMap fun row => join.loopBody schema row (right.filter (agree row))

/-! ## Keyed tuples as rows -/

/-- Keyed tuples as they are delivered. -/
def tupleRows (tuples : List (Key × Tuple)) : List (Except Fault Row) :=
  tuples.map fun row => .ok (row.1, .object row.2)

/-- Rows without a fault that all hold tuples are keyed tuples. -/
theorem exists_eq_tupleRows {outcomes : List (Except Fault Row)}
    (hok : ∀ outcome ∈ outcomes, outcome.isOk = true)
    (htuples : ∀ row, .ok row ∈ outcomes → Row.isTuple row = true) :
    ∃ tuples, outcomes = tupleRows tuples := by
  induction outcomes with
  | nil => exact ⟨[], rfl⟩
  | cons outcome rest ih =>
    obtain ⟨tuples, rfl⟩ := ih (fun other hother => hok other (List.mem_cons_of_mem _ hother))
      fun row hrow => htuples row (List.mem_cons_of_mem _ hrow)
    cases outcome with
    | error fault => cases hok _ (List.mem_cons_self ..)
    | ok row =>
      obtain ⟨tuple, htuple⟩ := Row.isTuple_iff.mp (htuples row (List.mem_cons_self ..))
      obtain ⟨key, value⟩ := row
      subst htuple
      exact ⟨(key, tuple) :: tuples, rfl⟩

/-- A scan of keyed tuples keeps those that agree with the row that looks them up. -/
theorem filter_tupleRows (leftField rightField : String) (row : Key × Tuple)
    (right : List (Key × Tuple)) :
    (tupleRows right).filter (scanKeeps rightField (row.2.valueOrNull leftField)) =
      tupleRows (right.filter (agreeOn leftField rightField row)) := by
  rw [tupleRows, List.filter_map]
  rfl

theorem map_pairRow_tupleRows (schema : MergedSchema) (row : Key × Tuple)
    (found : List (Key × Tuple)) :
    (tupleRows found).map (schema.pairRow row.1 row.2) =
      (JoinType.inner.together schema row found).map .ok := by
  rw [tupleRows, JoinType.together, List.map_map, List.map_map]
  rfl

/-- What a join makes of a left row and the rows that it found is what the loop makes of them. -/
theorem matchRows_tupleRows (join : JoinType) (schema : MergedSchema) (row : Key × Tuple)
    (found : List (Key × Tuple)) :
    join.matchRows schema row.1 row.2 (tupleRows found) = (join.loopBody schema row found).map .ok := by
  match join, found with
  | .inner, [] => rfl
  | .inner, other :: rest => exact map_pairRow_tupleRows schema row (other :: rest)
  | .left, [] => rfl
  | .left, other :: rest => exact map_pairRow_tupleRows schema row (other :: rest)
  | .diff, [] => rfl
  | .diff, other :: rest => rfl

/-- Where no row is a fault, each left row is replaced by itself. -/
theorem flatMap_expandTuple_tupleRows (f : Key → Tuple → List (Except Fault Row))
    (g : Key × Tuple → List Row) (left : List (Key × Tuple))
    (h : ∀ row, f row.1 row.2 = (g row).map .ok) :
    (tupleRows left).flatMap (expandTuple f) = (left.flatMap g).map .ok := by
  rw [tupleRows, List.flatMap_map, List.map_flatMap]
  congr 1
  funext row
  exact h row

theorem joinRows_tupleRows (join : JoinType) (schema : MergedSchema) (leftField rightField : String)
    (left right : List (Key × Tuple)) :
    joinRows join schema leftField rightField (tupleRows left) (tupleRows right) =
      (nestedLoop join schema (agreeOn leftField rightField) left right).map .ok := by
  refine flatMap_expandTuple_tupleRows _ _ left fun row => ?_
  rw [filter_tupleRows]
  exact matchRows_tupleRows join schema row _

/-- A product is the loop in which every pair agrees. -/
theorem productRows_tupleRows (schema : MergedSchema) (left right : List (Key × Tuple)) :
    productRows schema (tupleRows left) (tupleRows right) =
      (nestedLoop .inner schema (fun _ _ => true) left right).map .ok := by
  refine flatMap_expandTuple_tupleRows _ _ left fun row => ?_
  rw [List.filter_true, map_pairRow_tupleRows]
  cases right <;> rfl

/-! ## The keys of the three joins -/

open Run

theorem keys_map_ok (rows : List Row) : keys (rows.map .ok) = rows.map Prod.fst := by
  rw [keys, delivered, List.filterMap_map]
  exact congrArg (List.map Prod.fst) List.filterMap_some

/-- Each key of a left join is that of an inner join or of a difference, as often as in both. -/
theorem keys_nestedLoop_left (schema : MergedSchema) (agree : Key × Tuple → Key × Tuple → Bool)
    (left right : List (Key × Tuple)) :
    ((nestedLoop .left schema agree left right).map Prod.fst).Perm
      ((nestedLoop .inner schema agree left right).map Prod.fst ++
        (nestedLoop .diff schema agree left right).map Prod.fst) := by
  simp only [nestedLoop, List.map_flatMap]
  refine .trans (.of_eq ?_) (List.flatMap_append_perm left _ _).symm
  congr 1
  funext row
  -- one of the two parts is empty, whether something agrees with the row or not
  cases right.filter (agree row) with
  | nil => rfl
  | cons other rest => exact (List.append_nil _).symm

namespace Operator

/-- A tree without faults that holds tuples delivers keyed tuples. -/
theorem Built.exists_tupleRows {tree : Operator} (h : Built InMemory tree)
    (hkind : tree.collection.kind.hasTuples = true)
    (hok : ∀ outcome ∈ tree.collection.rows, outcome.isOk = true) :
    ∃ tuples, tree.rows = tupleRows tuples := by
  have hdelivers := h.delivers fun _ => InMemory.delivers
  rw [hdelivers.rows_eq] at hok
  exact exists_eq_tupleRows hok (hdelivers.tuples hkind)

/-- The join on fields of two trees without faults delivers the rows of the nested loop.  The keys of the
left join are those of the inner join and of the difference together. -/
theorem fieldJoin_eq_nestedLoop {left right : Operator} (hl : Built InMemory left)
    (hr : Built InMemory right) (hleftKind : left.collection.kind.hasTuples = true)
    (hrightKind : right.collection.kind.hasTuples = true)
    (hleft : ∀ outcome ∈ left.collection.rows, outcome.isOk = true)
    (hright : ∀ outcome ∈ right.collection.rows, outcome.isOk = true)
    (leftField rightField : String) :
    ∃ leftTuples rightTuples,
      (left.collection.items .none).map Run.rows = .ok (tupleRows leftTuples) ∧
      (right.collection.items .none).map Run.rows = .ok (tupleRows rightTuples) ∧
      (∀ join, joinOnFields join left leftField right rightField =
          .ok (fieldJoin join left leftField right rightField) ∧
        ((fieldJoin join left leftField right rightField).collection.items .none).map Run.rows =
          .ok ((nestedLoop join (mergedSchema left right) (agreeOn leftField rightField) leftTuples
            rightTuples).map .ok)) ∧
      (keys (fieldJoin .left left leftField right rightField).collection.rows).Perm
        (keys (fieldJoin .inner left leftField right rightField).collection.rows ++
          keys (fieldJoin .diff left leftField right rightField).collection.rows) := by
  obtain ⟨leftTuples, hleftRows⟩ := hl.exists_tupleRows hleftKind hleft
  obtain ⟨rightTuples, hrightRows⟩ := hr.exists_tupleRows hrightKind hright
  have hbuild : ∀ join, joinOnFields join left leftField right rightField =
      .ok (fieldJoin join left leftField right rightField) :=
    fun join => joinOnFields_eq_ok_iff.mpr ⟨hleftKind, hrightKind, rfl⟩
  have hdelivers := fun join => (Built.joinOnFields hl hr (hbuild join)).delivers fun _ => InMemory.delivers
  have hrows : ∀ join, (fieldJoin join left leftField right rightField).rows =
      (nestedLoop join (mergedSchema left right) (agreeOn leftField rightField) leftTuples
        rightTuples).map .ok := by
    intro join
    rw [rows, hleftRows, hrightRows, joinRows_tupleRows]
  refine ⟨leftTuples, rightTuples, ?_, ?_, ?_, ?_⟩
  · rw [← hleftRows]
    exact (hl.delivers fun _ => InMemory.delivers).items
  · rw [← hrightRows]
    exact (hr.delivers fun _ => InMemory.delivers).items
  · intro join
    refine ⟨hbuild join, ?_⟩
    rw [← hrows join]
    exact (hdelivers join).items
  · simp only [(hdelivers _).rows_eq, hrows, keys_map_ok]
    exact keys_nestedLoop_left _ _ leftTuples rightTuples

/-- A left row with a match under the empty key, and one without the field and without a match. -/
theorem fieldJoin_eq_nestedLoop_of_empty_key :
    Built InMemory amounts ∧ Built InMemory unnamed ∧
      amounts.collection.kind.hasTuples = true ∧ unnamed.collection.kind.hasTuples = true ∧
      (∀ outcome ∈ amounts.collection.rows, outcome.isOk = true) ∧
      (∀ outcome ∈ unnamed.collection.rows, outcome.isOk = true) ∧
      ∃ leftTuples rightTuples,
        (amounts.collection.items .none).map Run.rows = .ok (tupleRows leftTuples) ∧
        (unnamed.collection.items .none).map Run.rows = .ok (tupleRows rightTuples) ∧
        (∀ join, joinOnFields join amounts "x" unnamed "y" =
            .ok (fieldJoin join amounts "x" unnamed "y") ∧
          ((fieldJoin join amounts "x" unnamed "y").collection.items .none).map Run.rows =
            .ok ((nestedLoop join (mergedSchema amounts unnamed) (agreeOn "x" "y") leftTuples
              rightTuples).map .ok)) ∧
        (keys (fieldJoin .left amounts "x" unnamed "y").collection.rows).Perm
          (keys (fieldJoin .inner amounts "x" unnamed "y").collection.rows ++
            keys (fieldJoin .diff amounts "x" unnamed "y").collection.rows) := by
  have hl : Built InMemory amounts := .leaf ⟨_, rfl⟩
  have hr : Built InMemory unnamed := .leaf ⟨_, rfl⟩
  have hleft : ∀ outcome ∈ amounts.collection.rows, outcome.isOk = true := by decide
  have hright : ∀ outcome ∈ unnamed.collection.rows, outcome.isOk = true := by decide
  exact ⟨hl, hr, rfl, rfl, hleft, hright,
    fieldJoin_eq_nestedLoop hl hr rfl rfl hleft hright "x" "y"⟩

end Operator

end TableQuery
