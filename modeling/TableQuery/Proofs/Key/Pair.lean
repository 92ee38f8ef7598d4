import TableQuery.Proofs.Key.Spelling

/-!
# Composite keys come apart again

Splitting undoes pairing for all keys (`Key.split_pair`), composite ones and odd names included: the text
of a pair is one of those that write it (`Key.writesPair_pair`).  So a pair determines its parts
(`Key.pair_injective`), and no pair is the empty key (`Key.pair_ne_empty`).
-/

namespace TableQuery.Key

open Json

/-- What is printed for a key writes it. -/
theorem writes_toChars (key : Key) : Writes key.toJson.toChars key := by
  cases key with
  | index position =>
    have hpos : ¬((position.toNat : Int) < 0) := by omega
    rw [toJson, ofUInt64, Json.toChars, Number.toChars, Decimal.intChars, if_neg hpos, Int.natAbs_natCast]
    exact .index position
  | name text => exact .name (Literal.spells_encode text.toList)

/-- The text of a pair writes it, without white space. -/
theorem writesPair_pair (left right : Key) :
    WritesPair (Json.array [left.toJson, right.toJson]).toChars left right := by
  have hitem : ∀ key : Key, WritesItem key.toJson.toChars key := by
    intro key
    have hwrites := WritesItem.mk .nil (writes_toChars key) .nil
    rwa [List.append_nil, List.nil_append] at hwrites
  have htext : (Json.array [left.toJson, right.toJson]).toChars =
      '[' :: (left.toJson.toChars ++ ',' :: (right.toJson.toChars ++ [']'])) := by
    simp [Json.toChars, itemsChars]
  rw [htext]
  exact .mk .nil (hitem left) (hitem right) .nil

theorem pair_eq_name_iff {left right : Key} {text : String} :
    pair left right = .name text ↔
      text.toList = (Json.array [left.toJson, right.toJson]).toChars := by
  rw [pair, toText, name.injEq]
  constructor
  · rintro rfl
    exact String.toList_ofList
  · intro h
    rw [← h, String.ofList_toList]

/-- Splitting undoes pairing. -/
theorem split_pair (left right : Key) : (pair left right).split = .ok (left, right) := by
  refine split_eq_ok_iff.mpr ⟨_, rfl, ?_⟩
  rw [pair_eq_name_iff.mp rfl]
  exact writesPair_pair left right

/-- A pair determines its parts. -/
theorem pair_injective {a b c d : Key} (h : pair a b = pair c d) : a = c ∧ b = d := by
  have hsplit := split_pair a b
  rw [h, split_pair] at hsplit
  cases hsplit
  exact ⟨rfl, rfl⟩

theorem split_empty : ∃ fault, empty.split = .error fault := ⟨_, rfl⟩

theorem pair_ne_empty (left right : Key) : pair left right ≠ empty := by
  intro h
  obtain ⟨fault, hfault⟩ := split_empty
  have hsplit := split_pair left right
  rw [h, hfault] at hsplit
  cases hsplit

/-- Splitting undoes pairing, so a pair determines its parts, whatever they are; no pair is the empty
key. -/
theorem pairs_decode_uniquely (left right : Key) :
    (pair left right).split = .ok (left, right) ∧
      (∀ a b, pair a b = pair left right ↔ a = left ∧ b = right) ∧ pair left right ≠ empty := by
  refine ⟨split_pair left right, fun a b => ⟨pair_injective, ?_⟩, pair_ne_empty left right⟩
  rintro ⟨rfl, rfl⟩
  rfl

end TableQuery.Key
