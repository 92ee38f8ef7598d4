import TableQuery.Key.Pair
import TableQuery.Proofs.Json.Reader

/-!
# The texts that split

Pairing writes one text for two keys, and splitting reads the text as JSON.  JSON has more than one way to
write a name, and it allows white space around the pair and around each of its parts.  `WritesPair` lists
these ways.  A position is always written in its digits.

Splitting accepts the texts that write a pair and no others (`Key.split_eq_ok_iff`), and a key that does
not split is reported as malformed (`Key.split_eq_ok_or_error`).
-/

namespace TableQuery

namespace Key

open Json

/-! ## Ways to write a pair -/

/-- What follows a part of a pair. -/
def IsDelimiter (c : Char) : Prop := c = ',' ∨ c = ']'

/-- The ways to write a key in JSON. -/
inductive Writes : List Char → Key → Prop where
  | index (position : UInt64) : Writes (Decimal.digitsOf position.toNat) (.index position)
  | name {written : List Char} {text : String} :
      Literal.Spells written text.toList → Writes ('"' :: (written ++ ['"'])) (.name text)

/-- The ways to write a part of a pair. -/
inductive WritesItem : List Char → Key → Prop where
  | mk {before written after : List Char} {key : Key} :
      IsGap before → Writes written key → IsGap after →
      WritesItem (before ++ (written ++ after)) key

/-- The ways to write a pair. -/
inductive WritesPair : List Char → Key → Key → Prop where
  | mk {before first second after : List Char} {left right : Key} :
      IsGap before → WritesItem first left → WritesItem second right → IsGap after →
      WritesPair (before ++ '[' :: (first ++ ',' :: (second ++ ']' :: after))) left right

/-! ## Reading what is written -/

/-- Neither white space nor a delimiter extends a number. -/
theorem endsNumber_of_isDelimiter {gap : List Char} {c : Char} (hgap : IsGap gap)
    (hc : IsDelimiter c) (rest : List Char) : Number.EndsNumber (gap ++ c :: rest) := by
  intro d hd
  cases gap with
  | nil =>
    cases hd
    rcases hc with rfl | rfl <;> decide
  | cons space gap =>
    cases hd
    have hspace := hgap d (List.mem_cons_self ..)
    simp only [isSpace, Bool.or_eq_true, beq_iff_eq] at hspace
    rcases hspace with ((rfl | rfl) | rfl) | rfl <;> decide

/-- A written key is read up to what does not extend a number. -/
theorem readValue_writes {written rest : List Char} {key : Key} (h : Writes written key)
    (hrest : Number.EndsNumber rest) (fuel depth : Nat) :
    readValue (fuel + 1) depth (written ++ rest) = some (key.toJson, rest) := by
  cases h with
  | index position =>
    have hlt := position.toNat_lt
    have hrange : -0x8000000000000000 ≤ (position.toNat : Int) ∧
        (position.toNat : Int) < 0x10000000000000000 := by omega
    have hread := Number.read_intChars hrange hrest
    rw [Decimal.intChars_natCast] at hread
    obtain ⟨d, ds, hds⟩ := List.exists_cons_of_ne_nil (Decimal.digitsOf_ne_nil position.toNat)
    have hdigit : d.isDigit = true :=
      Decimal.isDigit_of_mem_digitsOf (n := position.toNat) (hds ▸ List.mem_cons_self ..)
    rw [hds] at hread ⊢
    rw [List.cons_append] at hread ⊢
    rw [readValue_number (.inl hdigit), hread]
    rfl
  | @name written text hspells =>
    have hread : Literal.decode (written ++ '"' :: rest) = some (text.toList, rest) :=
      Literal.decode_eq_some_iff.mpr ⟨written, hspells, rfl⟩
    rw [List.cons_append, List.append_assoc, readValue, skipSpace_of_not_isSpace rfl]
    simp only [List.singleton_append, hread, Option.map_some, String.ofList_toList]
    rfl

theorem readValue_writesItem {item : List Char} {key : Key} (h : WritesItem item key) {c : Char}
    (hc : IsDelimiter c) (rest : List Char) (fuel depth : Nat) :
    ∃ after, readValue (fuel + 1) depth (item ++ c :: rest) = some (key.toJson, after) ∧
      skipSpace after = c :: rest := by
  cases h with
  | @mk before written after _ hbefore hkey hafter =>
    refine ⟨after ++ c :: rest, ?_, ?_⟩
    · rw [← readValue_skipSpace, List.append_assoc, skipSpace_append hbefore, readValue_skipSpace,
        List.append_assoc]
      exact readValue_writes hkey (endsNumber_of_isDelimiter hafter hc rest) fuel depth
    · rw [skipSpace_append hafter]
      rcases hc with rfl | rfl
      · exact skipSpace_of_not_isSpace rfl rest
      · exact skipSpace_of_not_isSpace rfl rest

theorem readItems_writesItem {first second : List Char} {left right : Key}
    (hleft : WritesItem first left) (hright : WritesItem second right) (rest : List Char)
    (fuel depth : Nat) :
    readItems (fuel + 3) depth (first ++ ',' :: (second ++ ']' :: rest)) =
      some ([left.toJson, right.toJson], rest) := by
  obtain ⟨_, hfirst, hcomma⟩ :=
    readValue_writesItem hleft (.inl rfl) (second ++ ']' :: rest) (fuel + 1) depth
  obtain ⟨_, hsecond, hbracket⟩ := readValue_writesItem hright (.inr rfl) rest fuel depth
  rw [readItems, hfirst]
  simp only [hcomma]
  rw [readItems, hsecond]
  simp only [hbracket]
  rfl

theorem readValue_writesPair {text : List Char} {left right : Key} (h : WritesPair text left right)
    (fuel depth : Nat) :
    ∃ after, IsGap after ∧ readValue (fuel + 4) (depth + 1) text =
      some (.array [left.toJson, right.toJson], after) := by
  cases h with
  | @mk before first second after _ _ hbefore hleft hright hafter =>
    refine ⟨after, hafter, ?_⟩
    rw [← readValue_skipSpace, skipSpace_append hbefore, readValue_skipSpace]
    exact readValue_open (readItems_writesItem hleft hright after fuel depth)

theorem settled_toJson (key : Key) : key.toJson.settled = key.toJson := by
  cases key <;> rfl

theorem parse?_writesPair {text : List Char} {left right : Key} (h : WritesPair text left right) :
    parse? text = some (.array [left.toJson, right.toJson]) := by
  have hfuel : ∃ fuel, 2 * text.length + 1 = fuel + 4 := by
    refine ⟨2 * text.length - 3, ?_⟩
    cases h
    simp only [List.length_append, List.length_cons]
    omega
  obtain ⟨fuel, hfuel⟩ := hfuel
  obtain ⟨after, hafter, hread⟩ := readValue_writesPair h fuel 126
  rw [parse?, parseRaw?, hfuel, show maxDepth = 126 + 1 from rfl, hread]
  simp [isGap_iff.mp hafter, settled, settledItems, settled_toJson]

/-! ## What is read was written -/

/-- What can have been read from a text that does not start with white space.  Of objects, `null`, `true`
and `false` only the value is kept: none of them is a key. -/
inductive ReadFrom (fuel : Nat) : List Char → Json → List Char → Prop where
  | string {inner text rest : List Char} : Literal.decode inner = some (text, rest) →
      ReadFrom fuel ('"' :: inner) (.string (String.ofList text)) rest
  | number {cs rest : List Char} {n : Number} : Number.read cs = some (n, rest) →
      ReadFrom fuel cs (.number n) rest
  | items {depth : Nat} {inner rest : List Char} {items : List Json} :
      readItems fuel depth (skipSpace inner) = some (items, rest) →
      ReadFrom fuel ('[' :: inner) (.array items) rest
  | noItems {cs rest : List Char} : ReadFrom fuel cs (.array []) rest
  | object {cs rest : List Char} {members : List (String × Json)} :
      ReadFrom fuel cs (.object members) rest
  | null {cs rest : List Char} : ReadFrom fuel cs .null rest
  | bool {cs rest : List Char} {value : Bool} : ReadFrom fuel cs (.bool value) rest

theorem readFrom_of_readValue {fuel depth : Nat} {cs rest : List Char} {value : Json}
    (h : readValue (fuel + 1) depth cs = some (value, rest)) :
    ReadFrom fuel (skipSpace cs) value rest := by
  rw [readValue] at h
  split at h
  next => cases h
  next inner hskip =>
    obtain ⟨⟨text, after⟩, hdecode, heq⟩ := Option.map_eq_some_iff.mp h
    cases heq
    exact hskip ▸ .string hdecode
  next inner hskip =>
    split at h
    next => cases h
    split at h
    next =>
      cases h
      exact .noItems
    next =>
      obtain ⟨⟨items, after⟩, hitems, heq⟩ := Option.map_eq_some_iff.mp h
      cases heq
      exact hskip ▸ .items hitems
  next =>
    split at h
    next => cases h
    split at h
    next =>
      cases h
      exact .object
    next =>
      obtain ⟨_, _, heq⟩ := Option.map_eq_some_iff.mp h
      cases heq
      exact .object
  next =>
    obtain ⟨_, _, heq⟩ := Option.map_eq_some_iff.mp h
    cases heq
    exact .null
  next =>
    obtain ⟨_, _, heq⟩ := Option.map_eq_some_iff.mp h
    cases heq
    exact .bool
  next =>
    obtain ⟨_, _, heq⟩ := Option.map_eq_some_iff.mp h
    cases heq
    exact .bool
  next =>
    obtain ⟨⟨n, after⟩, hread, heq⟩ := Option.map_eq_some_iff.mp h
    cases heq
    exact .number hread

theorem ofJson?_of_settled {value : Json} {key : Key} (h : ofJson? value.settled = some key) :
    ofJson? value = some key := by
  cases value with
  | array items => cases h
  | object members => cases h
  | _ => exact h

/-- A value that is a key was written as one. -/
theorem exists_writes_of_readFrom {fuel : Nat} {cs rest : List Char} {value : Json} {key : Key}
    (h : ReadFrom fuel cs value rest) (hkey : ofJson? value = some key) :
    ∃ written, Writes written key ∧ cs = written ++ rest := by
  cases h with
  | @string inner text _ hdecode =>
    cases hkey
    obtain ⟨written, hspells, rfl⟩ := Literal.exists_spells_of_decode hdecode
    refine ⟨'"' :: (written ++ ['"']), .name ?_, by simp⟩
    rwa [String.toList_ofList]
  | @number _ _ n hread =>
    cases n with
    | double value => cases hkey
    | integer value inRange =>
      rw [ofJson?] at hkey
      split at hkey
      next hnonneg =>
        cases hkey
        obtain ⟨position, rfl⟩ := Int.eq_ofNat_of_zero_le hnonneg
        have hposition : (UInt64.ofNat position).toNat = position :=
          UInt64.toNat_ofNat_of_lt' (by simp only [UInt64.size]; omega)
        refine ⟨_, .index _, ?_⟩
        rw [Int.toNat_natCast, hposition]
        exact Number.eq_digitsOf_of_read hread
      next => cases hkey
  | items | noItems | object | null | bool => cases hkey

/-- An item that is a key was written as one, between white space. -/
theorem exists_writesItem_of_readValue {fuel depth : Nat} {cs after rest : List Char} {value : Json}
    {key : Key} {c : Char} (h : readValue fuel depth cs = some (value, after))
    (hkey : ofJson? value = some key) (hafter : skipSpace after = c :: rest) :
    ∃ item, WritesItem item key ∧ cs = item ++ c :: rest := by
  cases fuel with
  | zero =>
    rw [readValue] at h
    cases h
  | succ fuel =>
    obtain ⟨before, hbefore, hcs⟩ := exists_gap cs
    obtain ⟨written, hwrites, hskip⟩ := exists_writes_of_readFrom (readFrom_of_readValue h) hkey
    obtain ⟨gap, hgap, hrest⟩ := exists_gap after
    refine ⟨before ++ (written ++ gap), .mk hbefore hwrites hgap, ?_⟩
    rw [hcs, hskip, hrest, hafter, List.append_assoc, List.append_assoc]

/-- The first item that is read, and what follows it. -/
theorem of_readItems {fuel depth : Nat} {cs rest : List Char} {items : List Json}
    (h : readItems fuel depth cs = some (items, rest)) :
    ∃ fuel item others after, items = item :: others ∧
      readValue fuel depth cs = some (item, after) ∧
      ((skipSpace after = ']' :: rest ∧ others = []) ∨
        ∃ more, skipSpace after = ',' :: more ∧ readItems fuel depth more = some (others, rest)) := by
  cases fuel with
  | zero =>
    rw [readItems] at h
    cases h
  | succ fuel =>
    rw [readItems] at h
    split at h
    next => cases h
    next item after hread =>
      split at h
      next hclose =>
        cases h
        exact ⟨fuel, item, [], after, rfl, hread, .inl ⟨hclose, rfl⟩⟩
      next more hcomma =>
        obtain ⟨⟨others, _⟩, hitems, heq⟩ := Option.map_eq_some_iff.mp h
        cases heq
        exact ⟨fuel, item, others, after, rfl, hread, .inr ⟨more, hcomma, hitems⟩⟩
      next => cases h

theorem exists_writesItem_of_readItems {fuel depth : Nat} {cs rest : List Char} {first second : Json}
    {left right : Key} (h : readItems fuel depth cs = some ([first, second], rest))
    (hleft : ofJson? first = some left) (hright : ofJson? second = some right) :
    ∃ item other, WritesItem item left ∧ WritesItem other right ∧
      cs = item ++ ',' :: (other ++ ']' :: rest) := by
  obtain ⟨_, _, _, _, heq, hfirst, ⟨_, hnil⟩ | ⟨_, hcomma, hmore⟩⟩ := of_readItems h
  · subst hnil
    cases heq
  cases heq
  obtain ⟨_, _, _, _, heq, hsecond, ⟨hclose, _⟩ | ⟨_, _, hrest⟩⟩ := of_readItems hmore
  · cases heq
    obtain ⟨item, hitem, rfl⟩ := exists_writesItem_of_readValue hfirst hleft hcomma
    obtain ⟨other, hother, rfl⟩ := exists_writesItem_of_readValue hsecond hright hclose
    exact ⟨item, other, hitem, hother, rfl⟩
  · cases heq
    obtain ⟨_, _, _, _, hne, _⟩ := of_readItems hrest
    cases hne

theorem exists_readItems_of_readFrom {fuel : Nat} {cs rest : List Char} {first second : Json}
    (h : ReadFrom fuel cs (.array [first, second]) rest) :
    ∃ depth inner, cs = '[' :: inner ∧
      readItems fuel depth (skipSpace inner) = some ([first, second], rest) := by
  cases h with
  | items hitems => exact ⟨_, _, rfl, hitems⟩

theorem WritesItem.gap_append {gap item : List Char} {key : Key} (h : WritesItem item key)
    (hgap : IsGap gap) : WritesItem (gap ++ item) key := by
  cases h with
  | mk hbefore hwrites hafter =>
    rw [← List.append_assoc]
    exact .mk (hgap.append hbefore) hwrites hafter

theorem writesPair_of_parseRaw? {depth : Nat} {text : List Char} {first second : Json}
    {left right : Key} (h : parseRaw? depth text = some (.array [first, second]))
    (hleft : ofJson? first = some left) (hright : ofJson? second = some right) :
    WritesPair text left right := by
  rw [parseRaw?] at h
  split at h
  next value after hread =>
    split at h
    next hafter =>
      cases h
      obtain ⟨_, inner, hopen, hitems⟩ := exists_readItems_of_readFrom (readFrom_of_readValue hread)
      obtain ⟨item, other, hitem, hother, hinner⟩ :=
        exists_writesItem_of_readItems hitems hleft hright
      obtain ⟨before, hbefore, htext⟩ := exists_gap text
      obtain ⟨gap, hgap, hskip⟩ := exists_gap inner
      rw [htext, hopen, hskip, hinner, ← List.append_assoc]
      exact .mk hbefore (hitem.gap_append hgap) hother (isGap_iff.mpr (List.isEmpty_iff.mp hafter))
    next => cases h
  next => cases h

theorem settled_eq_array {value first second : Json} (h : value.settled = .array [first, second]) :
    ∃ a b, value = .array [a, b] ∧ a.settled = first ∧ b.settled = second := by
  cases value with
  | array items =>
    match items with
    | [a, b] =>
      cases h
      exact ⟨a, b, rfl, rfl, rfl⟩
    | [] | [_] | _ :: _ :: _ :: _ => cases h
  | _ => cases h

/-! ## Splitting -/

theorem splitText?_eq_some_iff {text : List Char} {left right : Key} :
    splitText? text = some (left, right) ↔ WritesPair text left right := by
  constructor
  · intro h
    unfold splitText? at h
    split at h
    next first second hparse =>
      split at h
      next hleft hright =>
        cases h
        obtain ⟨raw, hraw, hsettled⟩ := Option.map_eq_some_iff.mp hparse
        obtain ⟨a, b, rfl, rfl, rfl⟩ := settled_eq_array hsettled
        exact writesPair_of_parseRaw? hraw (ofJson?_of_settled hleft) (ofJson?_of_settled hright)
      next => cases h
    next => cases h
  · intro h
    rw [splitText?, parse?_writesPair h]
    simp only [ofJson?_toJson]

/-- Exactly the names that write a pair split, into the two keys that they write. -/
theorem split_eq_ok_iff {key left right : Key} :
    key.split = .ok (left, right) ↔ ∃ text, key = .name text ∧ WritesPair text.toList left right := by
  cases key with
  | index position =>
    constructor
    · intro h
      cases h
    · rintro ⟨_, hname, _⟩
      cases hname
  | name text =>
    constructor
    · intro h
      rw [split] at h
      split at h
      next hsplit =>
        cases h
        exact ⟨text, rfl, splitText?_eq_some_iff.mp hsplit⟩
      next => cases h
    · rintro ⟨_, hname, hwrites⟩
      cases hname
      rw [split, splitText?_eq_some_iff.mpr hwrites]

example : (name "[ 1,\"\\u0061\" ]").split = .ok (index 1, name "a") := by decide +kernel

/-- A key that does not split is reported as malformed. -/
theorem split_eq_ok_or_error (key : Key) :
    (∃ left right, key.split = .ok (left, right)) ∨ key.split = .error (.malformedKey key) := by
  cases key with
  | index position => exact .inr rfl
  | name text =>
    rw [split]
    cases splitText? text.toList with
    | none => exact .inr rfl
    | some keys => exact .inl ⟨keys.1, keys.2, rfl⟩

end Key

end TableQuery
