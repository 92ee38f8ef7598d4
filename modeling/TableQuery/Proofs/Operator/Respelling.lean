import TableQuery.Operator.Basic
import TableQuery.Proofs.Collection.Stored
import TableQuery.Proofs.Key.Pair

/-!
# Lookups under other spellings

The rows of products and joins are keyed by pairs, and projections and selections keep the keys of their
input (`Operator.pairsKeys`).  Iteration delivers a row under the one text that pairing makes.  A lookup
splits the text that it is given and looks at nothing but the two parts, so it finds the row under every
text that writes the same pair (`Operator.item_of_split`).
-/

namespace TableQuery

namespace Collection

variable {left right : Collection} {key a b : Key}

theorem item_product_of_split (h : key.split = .ok (a, b)) :
    (left.product right).item key = (left.product right).item (.pair a b) := by
  simp only [product, h, Key.split_pair]

theorem item_joined_of_split {join : JoinType} {leftField rightField : String}
    (h : key.split = .ok (a, b)) :
    (left.joined join leftField right rightField).item key =
      (left.joined join leftField right rightField).item (.pair a b) := by
  simp only [joined, h, Key.split_pair]

theorem item_selected_congr {source : Collection} {predicate : Predicate} {other : Key}
    (h : source.item key = source.item other) :
    (source.selected predicate).item key = (source.selected predicate).item other := by
  simp only [selected, h]

theorem item_projected_congr {source : Collection} {pairs : FieldPairs} {other : Key}
    (h : source.item key = source.item other) :
    (source.projected pairs).item key = (source.projected pairs).item other := by
  simp only [projected, h]

theorem item_joinedOn_of_split {predicate : Predicate} (h : key.split = .ok (a, b)) :
    (left.joinedOn right predicate).item key = (left.joinedOn right predicate).item (.pair a b) := by
  unfold joinedOn
  dsimp only
  split
  next => exact item_joined_of_split h
  next => exact item_selected_congr (item_product_of_split h)

end Collection

namespace Operator

/-- The rows of a tree are keyed by pairs. -/
def pairsKeys : Operator → Prop
  | leaf _ => False
  | projection input _ => input.pairsKeys
  | selection _ input => input.pairsKeys
  | product .. | fieldJoin .. | predicateJoin .. => True

/-- A lookup depends on the two parts of its key alone. -/
theorem item_of_split {tree : Operator} (htree : tree.pairsKeys) {key a b : Key}
    (h : key.split = .ok (a, b)) : tree.collection.item key = tree.collection.item (.pair a b) := by
  induction tree with
  | leaf source => exact htree.elim
  | projection input pairs ih => exact Collection.item_projected_congr (ih htree)
  | selection predicate input ih => exact Collection.item_selected_congr (ih htree)
  | product left right => exact Collection.item_product_of_split h
  | fieldJoin join left leftField right rightField => exact Collection.item_joined_of_split h
  | predicateJoin left right predicate => exact Collection.item_joinedOn_of_split h

/-- A key splits exactly if it is a name that writes a pair, and then into the two keys that are written;
otherwise it is reported as malformed.  So splitting gives back only keys that pair to the given one exactly
if the text of the key writes a pair in no other way than pairing does.  Products and joins find under a key
that splits what they find under the pair itself. -/
theorem split_as_written (key : Key) :
    (∀ left right, key.split = .ok (left, right) ↔
      ∃ text, key = .name text ∧ Key.WritesPair text.toList left right) ∧
    ((∀ left right, key.split ≠ .ok (left, right)) → key.split = .error (.malformedKey key)) ∧
    ((∀ left right, key.split = .ok (left, right) → .pair left right = key) ↔
      ∀ text left right, key = .name text → Key.WritesPair text.toList left right →
        text.toList = (Json.array [left.toJson, right.toJson]).toChars) ∧
    (∀ tree : Operator, tree.pairsKeys → ∀ left right, key.split = .ok (left, right) →
      tree.collection.item key = tree.collection.item (.pair left right)) := by
  refine ⟨fun _ _ => Key.split_eq_ok_iff, ?_, ?_, fun tree htree _ _ => item_of_split htree⟩
  · intro hnone
    rcases key.split_eq_ok_or_error with ⟨left, right, hsplit⟩ | hfault
    · exact absurd hsplit (hnone left right)
    · exact hfault
  · constructor
    · rintro hpairs text left right rfl hwrites
      exact Key.pair_eq_name_iff.mp (hpairs left right (Key.split_eq_ok_iff.mpr ⟨text, rfl, hwrites⟩))
    · intro hcompact left right hsplit
      obtain ⟨text, rfl, hwrites⟩ := Key.split_eq_ok_iff.mp hsplit
      exact Key.pair_eq_name_iff.mpr (hcompact text left right rfl hwrites)

/-- One row with no fields, under a name. -/
def oneUnder (name : String) : Stored := .ofTuples name [] [(.name name, [])] []

/-- A text with a space in it is the pair of two keys, and a product finds its row under that text too. -/
theorem split_accepts_white_space :
    (Key.name "[\"a\", \"b\"]").split = .ok (.name "a", .name "b") ∧
      Key.pair (.name "a") (.name "b") ≠ .name "[\"a\", \"b\"]" ∧
      ((product (.leaf (oneUnder "a").toCollection)
          (.leaf (oneUnder "b").toCollection)).collection.items .none).map Run.rows =
        .ok [.ok (.pair (.name "a") (.name "b"), .object [])] ∧
      ((product (.leaf (oneUnder "a").toCollection)
          (.leaf (oneUnder "b").toCollection)).collection.item (.name "[\"a\", \"b\"]")).result =
        .ok (some (.object [])) :=
  ⟨by decide +kernel, by decide +kernel, by decide +kernel, by decide +kernel⟩

end Operator

end TableQuery
