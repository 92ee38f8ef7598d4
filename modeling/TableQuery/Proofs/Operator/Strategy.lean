import TableQuery.Operator.Basic
import TableQuery.Proofs.Operator.Delivery
import TableQuery.Proofs.Schema.Merge

/-!
# A join on fields is a selection of a product

If the strategy of a predicate is a join on fields, the inner join on these fields has the rows that
the predicate keeps of the product (`productRows_filterMap_keep`): the same rows and faults, in the same
order.

Row by row, the predicate reads two fields of the merged tuple.  Each has one origin, so the values are
those of the left tuple and of the right one, null where the tuple lacks the field
(`evaluate_mergeTuples`).  These are the values that the join compares, only that it may compare them
the other way round.
-/

namespace TableQuery

namespace JoinStrategy

/-- What a strategy on fields says of the predicate: it equates two fields of the merged schema, one
from each operand. -/
structure Equates (schema : MergedSchema) (predicate : Predicate) (leftField rightField : String) :
    Prop where
  /-- The comparison is an equation. -/
  equal : predicate.comparator = .equal
  /-- The fields come from the two operands, in either order. -/
  origins : ∃ name first second, predicate.operand = .field name ∧
    schema.get? predicate.field = some first ∧ schema.get? name = some second ∧
      ((first.side = .left ∧ second.side = .right ∧ first.sourceName = leftField ∧
          second.sourceName = rightField) ∨
        (first.side = .right ∧ second.side = .left ∧ second.sourceName = leftField ∧
          first.sourceName = rightField))

theorem originOf_eq_ok_iff {schema : MergedSchema} {name : String} {origin : Origin} :
    originOf schema name = .ok origin ↔ schema.get? name = some origin := by
  rw [originOf]
  cases schema.get? name <;> simp

theorem ofOrigins_eq_onFields {first second : Origin} {leftField rightField : String}
    (h : ofOrigins first second = .onFields leftField rightField) :
    (first.side = .left ∧ second.side = .right ∧ first.sourceName = leftField ∧
        second.sourceName = rightField) ∨
      (first.side = .right ∧ second.side = .left ∧ second.sourceName = leftField ∧
        first.sourceName = rightField) := by
  rw [ofOrigins] at h
  split at h
  · next hfirst hsecond =>
    cases h
    exact .inl ⟨hfirst, hsecond, rfl, rfl⟩
  · next hfirst hsecond =>
    cases h
    exact .inr ⟨hfirst, hsecond, rfl, rfl⟩
  · cases h

theorem equates_of_choose {schema : MergedSchema} {predicate : Predicate}
    {leftField rightField : String}
    (h : choose schema predicate = .ok (.onFields leftField rightField)) :
    Equates schema predicate leftField rightField := by
  rw [choose] at h
  split at h
  next hequal =>
    cases hfirst : originOf schema predicate.field with
    | error fault =>
      rw [hfirst] at h
      cases h
    | ok first =>
      rw [hfirst] at h
      cases hoperand : predicate.operand with
      | constant value =>
        rw [hoperand] at h
        cases h
      | field name =>
        rw [hoperand] at h
        cases hsecond : originOf schema name with
        | error fault =>
          simp only [hsecond] at h
          cases h
        | ok second =>
          simp only [hsecond] at h
          have horigins : ofOrigins first second = .onFields leftField rightField := Except.ok.inj h
          exact ⟨hequal, name, first, second, hoperand, originOf_eq_ok_iff.mp hfirst,
            originOf_eq_ok_iff.mp hsecond, ofOrigins_eq_onFields horigins⟩
  next => cases h

end JoinStrategy

variable {schema : MergedSchema} {predicate : Predicate} {leftField rightField : String}

theorem MergedSchema.valueOf_left {origin : Origin} (h : origin.side = .left) (left : Tuple)
    (right : Option Tuple) : valueOf left right origin = left.valueOrNull origin.sourceName := by
  rw [valueOf, h]
  rfl

theorem MergedSchema.valueOf_right {origin : Origin} (h : origin.side = .right) (left right : Tuple) :
    valueOf left (some right) origin = right.valueOrNull origin.sourceName := by
  rw [valueOf, h]
  rfl

theorem evaluate_of_get? {tuple : Tuple} {name : String} {a b : Json}
    (hequal : predicate.comparator = .equal) (hoperand : predicate.operand = .field name)
    (ha : tuple.get? predicate.field = some a) (hb : tuple.get? name = some b) :
    predicate.evaluate tuple = .ok (a.agrees b) := by
  simp only [Predicate.evaluate, Predicate.valueOf, hoperand, ha, hb, hequal]
  rfl

/-- On a merged tuple the predicate compares the values of the two fields. -/
theorem evaluate_mergeTuples (h : JoinStrategy.Equates schema predicate leftField rightField)
    (left right : Tuple) :
    predicate.evaluate (schema.mergeTuples left (some right)) =
      .ok ((right.valueOrNull rightField).agrees (left.valueOrNull leftField)) := by
  obtain ⟨hequal, name, first, second, hoperand, hfirst, hsecond, horigins⟩ := h
  rw [evaluate_of_get? hequal hoperand (MergedSchema.get?_mergeTuples hfirst left (some right))
    (MergedSchema.get?_mergeTuples hsecond left (some right))]
  rcases horigins with ⟨hl, hr, rfl, rfl⟩ | ⟨hr, hl, rfl, rfl⟩
  · rw [MergedSchema.valueOf_left hl, MergedSchema.valueOf_right hr, Json.agrees_comm]
  · rw [MergedSchema.valueOf_left hl, MergedSchema.valueOf_right hr]

/-- The predicate keeps a pair exactly if the join finds its right row. -/
theorem keep_pairRow (h : JoinStrategy.Equates schema predicate leftField rightField) (key : Key)
    (tuple : Tuple) {outcome : Except Fault Row}
    (htuple : ∀ row, outcome = .ok row → Row.isTuple row = true) :
    predicate.keep (schema.pairRow key tuple outcome) =
      if scanKeeps rightField (tuple.valueOrNull leftField) outcome then
        some (schema.pairRow key tuple outcome)
      else none := by
  match outcome, htuple with
  | .error fault, _ => rfl
  | .ok (otherKey, .object other), _ =>
    have hevaluate := evaluate_mergeTuples h tuple other
    have hscan : scanKeeps rightField (tuple.valueOrNull leftField) (.ok (otherKey, .object other)) =
        (Tuple.valueOrNull other rightField).agrees (tuple.valueOrNull leftField) := rfl
    have hpair : schema.pairRow key tuple (.ok (otherKey, .object other)) =
        .ok (.pair key otherKey, .object (schema.mergeTuples tuple (some other))) := rfl
    rw [hpair, Predicate.keep_object hevaluate, hscan]
  | .ok (otherKey, .null), htuple => cases htuple _ rfl
  | .ok (otherKey, .bool _), htuple => cases htuple _ rfl
  | .ok (otherKey, .number _), htuple => cases htuple _ rfl
  | .ok (otherKey, .string _), htuple => cases htuple _ rfl
  | .ok (otherKey, .array _), htuple => cases htuple _ rfl

theorem map_pairRow_filterMap_keep (h : JoinStrategy.Equates schema predicate leftField rightField)
    (key : Key) (tuple : Tuple) {right : List (Except Fault Row)}
    (htuples : ∀ row, .ok row ∈ right → Row.isTuple row = true) :
    (right.map (schema.pairRow key tuple)).filterMap predicate.keep =
      (right.filter (scanKeeps rightField (tuple.valueOrNull leftField))).map
        (schema.pairRow key tuple) := by
  induction right with
  | nil => rfl
  | cons outcome rest ih =>
    have hrest := ih fun row hrow => htuples row (List.mem_cons_of_mem _ hrow)
    have hkeep := keep_pairRow h key tuple
      fun row heq => htuples row (heq ▸ List.mem_cons_self .. : .ok row ∈ outcome :: rest)
    rw [List.map_cons, List.filterMap_cons, List.filter_cons, hkeep, hrest]
    cases scanKeeps rightField (tuple.valueOrNull leftField) outcome <;> rfl

/-- An inner join on fields has the rows that the predicate keeps of the product. -/
theorem productRows_filterMap_keep (h : JoinStrategy.Equates schema predicate leftField rightField)
    (left : List (Except Fault Row)) {right : List (Except Fault Row)}
    (htuples : ∀ row, .ok row ∈ right → Row.isTuple row = true) :
    (productRows schema left right).filterMap predicate.keep =
      joinRows .inner schema leftField rightField left right := by
  rw [productRows, joinRows, List.filterMap_flatMap]
  congr 1
  funext outcome
  rw [expandTuple, expandTuple]
  cases keyedTuple outcome with
  | error fault => rfl
  | ok keyed => exact map_pairRow_filterMap_keep h keyed.1 keyed.2 htuples

end TableQuery
