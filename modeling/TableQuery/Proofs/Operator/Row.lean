import TableQuery.Operator.Join
import TableQuery.Operator.Projection
import TableQuery.Operator.Selection

/-!
# What operators make of a row

Each operator makes a row of a row by a function that may fail: `keyedTuple`, `pairRow`, `projectRow` and
`keep`.  The equivalences here say from which rows a row can come, so that no other proof has to open
these functions.  A fault stays a fault under each of them.
-/

namespace TableQuery

theorem map_eq_ok_iff {ε α β : Type} {f : α → β} {x : Except ε α} {y : β} :
    x.map f = .ok y ↔ ∃ a, x = .ok a ∧ f a = y := by
  cases x <;> simp [Except.map]

theorem bind_eq_ok_iff {ε α β : Type} {x : Except ε α} {f : α → Except ε β} {y : β} :
    (x >>= f) = .ok y ↔ ∃ a, x = .ok a ∧ f a = .ok y := by
  cases x <;> simp [bind, Except.bind]

theorem map_eq_error_iff {ε α β : Type} {f : α → β} {x : Except ε α} {fault : ε} :
    x.map f = .error fault ↔ x = .error fault := by
  cases x <;> simp [Except.map]

theorem bind_eq_error_iff {ε α β : Type} {x : Except ε α} {f : α → Except ε β} {fault : ε} :
    (x >>= f) = .error fault ↔ x = .error fault ∨ ∃ a, x = .ok a ∧ f a = .error fault := by
  cases x <;> simp [bind, Except.bind]

theorem Json.tuple?_eq_ok_iff {value : Json} {tuple : Tuple} :
    value.tuple? = .ok tuple ↔ value = .object tuple := by
  cases value <;> simp [Json.tuple?]

theorem keyedTuple_ok (key : Key) (value : Json) :
    keyedTuple (.ok (key, value)) = value.tuple?.map fun tuple => (key, tuple) := by
  cases value <;> rfl

theorem keyedTuple_eq_ok_iff {outcome : Except Fault Row} {key : Key} {tuple : Tuple} :
    keyedTuple outcome = .ok (key, tuple) ↔ outcome = .ok (key, .object tuple) := by
  match outcome with
  | .error fault => simp [keyedTuple, bind, Except.bind]
  | .ok (k, value) =>
    rw [keyedTuple_ok, map_eq_ok_iff]
    constructor
    · rintro ⟨other, hother, heq⟩
      cases heq
      rw [Json.tuple?_eq_ok_iff.mp hother]
    · intro heq
      cases heq
      exact ⟨tuple, rfl, rfl⟩

namespace MergedSchema

theorem pairRow_ok (schema : MergedSchema) (key otherKey : Key) (tuple : Tuple) (value : Json) :
    schema.pairRow key tuple (.ok (otherKey, value)) =
      value.tuple?.map fun other =>
        (.pair key otherKey, .object (schema.mergeTuples tuple (some other))) := by
  cases value <;> rfl

theorem pairRow_eq_ok_iff {schema : MergedSchema} {key : Key} {tuple : Tuple}
    {outcome : Except Fault Row} {row : Row} :
    schema.pairRow key tuple outcome = .ok row ↔
      ∃ otherKey other, outcome = .ok (otherKey, .object other) ∧
        row = (.pair key otherKey, .object (schema.mergeTuples tuple (some other))) := by
  match outcome with
  | .error fault => simp [pairRow, bind, Except.bind]
  | .ok (k, value) =>
    rw [pairRow_ok, map_eq_ok_iff]
    constructor
    · rintro ⟨other, hother, rfl⟩
      exact ⟨k, other, by rw [Json.tuple?_eq_ok_iff.mp hother], rfl⟩
    · rintro ⟨otherKey, other, hrow, rfl⟩
      cases hrow
      exact ⟨other, rfl, rfl⟩

end MergedSchema

namespace FieldPairs

theorem project_object (pairs : FieldPairs) (tuple : Tuple) :
    pairs.project (.object tuple) = (projectFrom tuple pairs []).map Json.object := by
  show (projectFrom tuple pairs [] >>= fun out => pure (Json.object out)) = _
  cases projectFrom tuple pairs [] <;> rfl

theorem projectRow_ok (pairs : FieldPairs) (key : Key) (value : Json) :
    pairs.projectRow (.ok (key, value)) = (pairs.project value).map fun out => (key, out) := by
  show (pairs.project value >>= fun out => pure (key, out)) = _
  cases pairs.project value <;> rfl

theorem exists_object_of_project {pairs : FieldPairs} {value result : Json}
    (h : pairs.project value = .ok result) : ∃ out, result = .object out := by
  cases value with
  | object tuple =>
    rw [project_object, map_eq_ok_iff] at h
    obtain ⟨out, _, rfl⟩ := h
    exact ⟨out, rfl⟩
  | _ => cases h

theorem projectRow_eq_ok_iff {pairs : FieldPairs} {outcome : Except Fault Row} {key : Key}
    {result : Json} : pairs.projectRow outcome = .ok (key, result) ↔
      ∃ value, outcome = .ok (key, value) ∧ pairs.project value = .ok result := by
  match outcome with
  | .error fault => simp [projectRow, bind, Except.bind]
  | .ok (k, value) =>
    rw [projectRow_ok, map_eq_ok_iff]
    constructor
    · rintro ⟨out, hout, heq⟩
      cases heq
      exact ⟨value, rfl, hout⟩
    · rintro ⟨other, heq, hout⟩
      cases heq
      exact ⟨result, hout, rfl⟩

end FieldPairs

/-- A tuple is kept or dropped as the predicate holds on it or not. -/
theorem Predicate.keep_object {predicate : Predicate} {key : Key} {tuple : Tuple} {holds : Bool}
    (h : predicate.evaluate tuple = .ok holds) :
    predicate.keep (.ok (key, .object tuple)) =
      if holds then some (.ok (key, .object tuple)) else none := by
  have hbind : (Json.object tuple).tuple?.bind predicate.evaluate = .ok holds := h
  rw [keep, hbind]
  cases holds <;> rfl

/-- A row that a selection keeps is one of its input on which the predicate holds. -/
theorem Predicate.keep_eq_some_ok_iff {predicate : Predicate} {outcome : Except Fault Row}
    {row : Row} : predicate.keep outcome = some (.ok row) ↔
      outcome = .ok row ∧ row.2.tuple?.bind predicate.evaluate = .ok true := by
  cases outcome with
  | error fault => simp [keep]
  | ok other =>
    rw [keep]
    constructor
    · intro h
      split at h
      · next htrue =>
        cases h
        exact ⟨rfl, htrue⟩
      · cases h
      · cases h
    · rintro ⟨heq, htrue⟩
      cases heq
      rw [htrue]

end TableQuery
