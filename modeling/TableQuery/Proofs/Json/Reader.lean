import Mathlib.Data.List.TakeWhile
import TableQuery.Proofs.Decimal.Character
import TableQuery.Proofs.Json.Literal
import TableQuery.Proofs.Json.Number
import TableQuery.Proofs.Json.Value

/-!
# Reading values back

A value is read back from its compact text by every reader that allows for its nesting
(`Json.parseRaw?_toChars`).  Nothing has to follow the text, but something may that does not extend a number
at its end: `Json.ReadsBack` says so of one value, and it holds of an array or an object if it holds of the
values inside.

The reader spends fuel on each value and on each item or member.  A text of twice the fuel is never read
to its end without enough of it, since there is at least one character to each step.

A compact text has no control characters such as line feeds (`Json.not_isControl_of_mem_toChars`), since
literals escape them.
-/

namespace TableQuery

namespace Json

/-! ## White space -/

/-- Nothing but white space. -/
def IsGap (gap : List Char) : Prop := ∀ c ∈ gap, isSpace c = true

theorem IsGap.nil : IsGap [] := fun _ hc => nomatch hc

theorem IsGap.append {gap more : List Char} (h : IsGap gap) (hmore : IsGap more) :
    IsGap (gap ++ more) :=
  fun c hc => (List.mem_append.mp hc).elim (h c) (hmore c)

theorem skipSpace_of_not_isSpace {c : Char} (h : isSpace c = false) (cs : List Char) :
    skipSpace (c :: cs) = c :: cs := by
  simp [skipSpace, h]

theorem skipSpace_append {gap : List Char} (h : IsGap gap) (cs : List Char) :
    skipSpace (gap ++ cs) = skipSpace cs :=
  List.dropWhile_append_of_pos h

theorem exists_gap (cs : List Char) : ∃ gap, IsGap gap ∧ cs = gap ++ skipSpace cs :=
  ⟨cs.takeWhile isSpace, fun c hc => List.all_eq_true.mp List.all_takeWhile c hc,
    List.takeWhile_append_dropWhile.symm⟩

theorem isGap_iff {cs : List Char} : IsGap cs ↔ skipSpace cs = [] := by
  rw [skipSpace, List.dropWhile_eq_nil_iff]
  rfl

theorem not_isSpace_of_isDigit {c : Char} (h : c.isDigit = true) : isSpace c = false := by
  rw [isSpace]
  simp only [Bool.or_eq_false_iff, beq_eq_false_iff_ne]
  refine ⟨⟨⟨?_, ?_⟩, ?_⟩, ?_⟩ <;>
  · intro e
    subst e
    cases h

theorem skipSpace_skipSpace (cs : List Char) : skipSpace (skipSpace cs) = skipSpace cs := by
  obtain ⟨gap, hgap, hcs⟩ := exists_gap cs
  rw [← skipSpace_append hgap, ← hcs]

/-- Reading a value starts with skipping white space. -/
theorem readValue_skipSpace (fuel depth : Nat) (cs : List Char) :
    readValue fuel depth (skipSpace cs) = readValue fuel depth cs := by
  cases fuel with
  | zero => rw [readValue, readValue]
  | succ fuel => rw [readValue, readValue, skipSpace_skipSpace]

theorem readItems_skipSpace (fuel depth : Nat) (cs : List Char) :
    readItems fuel depth (skipSpace cs) = readItems fuel depth cs := by
  cases fuel with
  | zero => rw [readItems, readItems]
  | succ fuel => rw [readItems, readItems, readValue_skipSpace]

/-! ## What a text starts with -/

/-- A text that starts with a digit or a sign is read as a number. -/
theorem readValue_number {c : Char} (h : c.isDigit = true ∨ c = '-') (fuel depth : Nat)
    (cs : List Char) :
    readValue (fuel + 1) depth (c :: cs) =
      (Number.read (c :: cs)).map fun (n, rest) => (.number n, rest) := by
  have hne : ∀ d, d.isDigit = false → d ≠ '-' → c ≠ d := by
    rintro d hd hminus rfl
    obtain hdigit | heq := h
    · cases hd.symm.trans hdigit
    · exact hminus heq
  have hspace : isSpace c = false := by
    obtain hdigit | rfl := h
    · exact not_isSpace_of_isDigit hdigit
    · rfl
  rw [readValue, skipSpace_of_not_isSpace hspace]
  simp [hne '"' rfl, hne '[' rfl, hne '\x7b' rfl, hne 'n' rfl, hne 't' rfl, hne 'f' rfl]

/-- No item starts with the closing bracket. -/
theorem readItems_close (fuel depth : Nat) (rest : List Char) :
    readItems fuel depth (']' :: rest) = none := by
  match fuel with
  | 0 => rw [readItems]
  | 1 => rw [readItems, readValue]
  | fuel + 2 =>
    rw [readItems, readValue, skipSpace_of_not_isSpace rfl]
    rfl

theorem readValue_open {fuel depth : Nat} {cs rest : List Char} {items : List Json}
    (h : readItems fuel depth cs = some (items, rest)) :
    readValue (fuel + 1) (depth + 1) ('[' :: cs) = some (.array items, rest) := by
  rw [← readItems_skipSpace] at h
  rw [readValue, skipSpace_of_not_isSpace rfl]
  simp only
  split
  next hclose =>
    rw [hclose, readItems_close] at h
    cases h
  next =>
    rw [h]
    rfl

/-- No member starts with the closing brace. -/
theorem readMembers_close (fuel depth : Nat) (rest : List Char) :
    readMembers fuel depth ('\x7d' :: rest) = none := by
  cases fuel with
  | zero => rw [readMembers]
  | succ fuel =>
    rw [readMembers, skipSpace_of_not_isSpace rfl]
    rfl

theorem readMembers_skipSpace (fuel depth : Nat) (cs : List Char) :
    readMembers fuel depth (skipSpace cs) = readMembers fuel depth cs := by
  cases fuel with
  | zero => rw [readMembers, readMembers]
  | succ fuel => rw [readMembers, readMembers, skipSpace_skipSpace]

theorem readValue_openObject {fuel depth : Nat} {cs rest : List Char} {members : List (String × Json)}
    (h : readMembers fuel depth cs = some (members, rest)) :
    readValue (fuel + 1) (depth + 1) ('\x7b' :: cs) = some (.object members, rest) := by
  rw [← readMembers_skipSpace] at h
  rw [readValue, skipSpace_of_not_isSpace rfl]
  simp only
  split
  next hclose =>
    rw [hclose, readMembers_close] at h
    cases h
  next =>
    rw [h]
    rfl

/-! ## Reading back -/

/-- A value is read back from its text, whatever follows that does not extend a number. -/
def ReadsBack (value : Json) : Prop :=
  ∀ fuel depth rest, 2 * value.toChars.length ≤ fuel → value.nesting ≤ depth →
    Number.EndsNumber rest → readValue fuel depth (value.toChars ++ rest) = some (value, rest)

theorem endsNumber_cons {c : Char} (h : c.isDigit = false ∧ c ≠ '.' ∧ c ≠ 'e' ∧ c ≠ 'E')
    (rest : List Char) : Number.EndsNumber (c :: rest) := by
  intro d hd
  cases hd
  exact h

theorem length_toChars_pos (value : Json) : 0 < value.toChars.length := by
  cases value with
  | number n =>
    obtain ⟨c, cs, hcons, -⟩ := Number.exists_cons_toChars n
    rw [toChars, hcons]
    exact Nat.succ_pos _
  | bool value => cases value <;> exact Nat.succ_pos _
  | null | string | array | object => exact Nat.succ_pos _

/-- There is fuel for one step at least. -/
theorem exists_fuel {value : Json} {fuel : Nat} (h : 2 * value.toChars.length ≤ fuel) :
    ∃ less, fuel = less + 1 := by
  have hpos := value.length_toChars_pos
  exact Nat.exists_eq_add_one_of_ne_zero (by omega)

theorem readsBack_null : ReadsBack .null := by
  intro fuel depth rest hfuel _ _
  obtain ⟨fuel, rfl⟩ := exists_fuel hfuel
  rfl

theorem readsBack_bool (value : Bool) : ReadsBack (.bool value) := by
  intro fuel depth rest hfuel _ _
  obtain ⟨fuel, rfl⟩ := exists_fuel hfuel
  cases value <;> rfl

theorem readsBack_number (n : Number) : ReadsBack (.number n) := by
  intro fuel depth rest hfuel _ hrest
  obtain ⟨fuel, rfl⟩ := exists_fuel hfuel
  have hread := n.read_toChars hrest
  obtain ⟨c, cs, hcons, hc⟩ := n.exists_cons_toChars
  rw [hcons, List.cons_append] at hread
  rw [toChars, hcons, List.cons_append, readValue_number hc, hread]
  rfl

theorem readsBack_string (text : String) : ReadsBack (.string text) := by
  intro fuel depth rest hfuel _ _
  obtain ⟨fuel, rfl⟩ := exists_fuel hfuel
  have hread := Literal.decode_encode text.toList rest
  rw [toChars, Literal.quoted, List.cons_append, List.append_assoc, List.singleton_append, readValue,
    skipSpace_of_not_isSpace rfl]
  simp only [hread, Option.map_some, String.ofList_toList]

/-! ### Arrays -/

theorem itemsChars_cons {rest : List Json} (hne : rest ≠ []) (value : Json) :
    itemsChars (value :: rest) = value.toChars ++ ',' :: itemsChars rest := by
  cases rest with
  | nil => exact absurd rfl hne
  | cons other rest => simp [itemsChars]

/-- One item or more are read back up to the closing bracket. -/
theorem readItems_itemsChars {items : List Json} (hne : items ≠ [])
    (hitems : ∀ item ∈ items, ReadsBack item) {fuel depth : Nat}
    (hfuel : 2 * (itemsChars items).length < fuel) (hdepth : itemsNesting items ≤ depth)
    (rest : List Char) :
    readItems fuel depth (itemsChars items ++ ']' :: rest) = some (items, rest) := by
  induction items generalizing fuel with
  | nil => exact absurd rfl hne
  | cons value others ih =>
    obtain ⟨hvalue, hothers⟩ := List.forall_mem_cons.mp hitems
    obtain ⟨hvalueDepth, hothersDepth⟩ := Nat.max_le.mp hdepth
    obtain ⟨fuel, rfl⟩ := Nat.exists_eq_add_one_of_ne_zero (by omega : fuel ≠ 0)
    by_cases hlast : others = []
    · subst hlast
      rw [itemsChars] at hfuel ⊢
      rw [readItems, hvalue fuel depth _ (by omega) hvalueDepth (endsNumber_cons (by decide) rest)]
      rfl
    · rw [itemsChars_cons hlast, List.length_append, List.length_cons] at hfuel
      rw [itemsChars_cons hlast, List.append_assoc, List.cons_append, readItems,
        hvalue fuel depth _ (by omega) hvalueDepth (endsNumber_cons (by decide) _)]
      simp only [skipSpace_of_not_isSpace (rfl : isSpace ',' = false)]
      rw [ih hlast hothers (by omega) hothersDepth]
      rfl

theorem readsBack_array {items : List Json} (hitems : ∀ item ∈ items, ReadsBack item) :
    ReadsBack (.array items) := by
  intro fuel depth rest hfuel hdepth _
  obtain ⟨fuel, rfl⟩ := exists_fuel hfuel
  obtain ⟨depth, rfl⟩ := Nat.exists_eq_add_one_of_ne_zero (by
    rw [nesting] at hdepth
    omega : depth ≠ 0)
  by_cases hne : items = []
  · subst hne
    rfl
  · rw [toChars, List.length_cons, List.length_append, List.length_singleton] at hfuel
    rw [toChars, List.cons_append, List.append_assoc, List.singleton_append]
    exact readValue_open
      (readItems_itemsChars hne hitems (by omega) (Nat.le_of_succ_le_succ hdepth) rest)

/-! ### Objects -/

/-- The text of a member. -/
def memberChars (member : String × Json) : List Char :=
  Literal.quoted member.1.toList ++ ':' :: member.2.toChars

theorem membersChars_single (member : String × Json) : membersChars [member] = memberChars member := rfl

theorem membersChars_cons {rest : List (String × Json)} (hne : rest ≠ []) (member : String × Json) :
    membersChars (member :: rest) = memberChars member ++ ',' :: membersChars rest := by
  cases rest with
  | nil => exact absurd rfl hne
  | cons other rest => simp [membersChars, memberChars]

/-- A member is read with what follows it, which is the closing brace or a comma and other members. -/
theorem readMembers_memberChars {member : String × Json} {others : List (String × Json)}
    (hvalue : ReadsBack member.2) {fuel depth : Nat} (hfuel : 2 * (memberChars member).length ≤ fuel)
    (hdepth : member.2.nesting ≤ depth) {next rest : List Char}
    (hnext : next = '\x7d' :: rest ∧ others = [] ∨
      ∃ more, next = ',' :: more ∧ readMembers fuel depth more = some (others, rest)) :
    readMembers (fuel + 1) depth (memberChars member ++ next) = some (member :: others, rest) := by
  obtain ⟨name, value⟩ := member
  have hname := Literal.decode_encode name.toList (':' :: (value.toChars ++ next))
  have hshort : 2 * value.toChars.length ≤ fuel := by
    rw [memberChars, List.length_append, List.length_cons] at hfuel
    dsimp only at hfuel
    omega
  have htext : memberChars (name, value) ++ next =
      '"' :: (Literal.encode name.toList ++ '"' :: ':' :: (value.toChars ++ next)) := by
    simp [memberChars, Literal.quoted]
  rw [htext, readMembers]
  obtain ⟨rfl, rfl⟩ | ⟨more, rfl, hmore⟩ := hnext
  · have hread := hvalue fuel depth ('\x7d' :: rest) hshort hdepth (endsNumber_cons (by decide) rest)
    simp only [skipSpace_of_not_isSpace (rfl : isSpace '"' = false), hname,
      skipSpace_of_not_isSpace (rfl : isSpace ':' = false), hread,
      skipSpace_of_not_isSpace (rfl : isSpace '\x7d' = false), String.ofList_toList]
  · have hread := hvalue fuel depth (',' :: more) hshort hdepth (endsNumber_cons (by decide) more)
    simp only [skipSpace_of_not_isSpace (rfl : isSpace '"' = false), hname,
      skipSpace_of_not_isSpace (rfl : isSpace ':' = false), hread,
      skipSpace_of_not_isSpace (rfl : isSpace ',' = false), hmore, Option.map_some,
      String.ofList_toList]

/-- One member or more are read back up to the closing brace. -/
theorem readMembers_membersChars {members : List (String × Json)} (hne : members ≠ [])
    (hmembers : ∀ member ∈ members, ReadsBack member.2) {fuel depth : Nat}
    (hfuel : 2 * (membersChars members).length < fuel) (hdepth : membersNesting members ≤ depth)
    (rest : List Char) :
    readMembers fuel depth (membersChars members ++ '\x7d' :: rest) = some (members, rest) := by
  induction members generalizing fuel with
  | nil => exact absurd rfl hne
  | cons member others ih =>
    obtain ⟨hvalue, hothers⟩ := List.forall_mem_cons.mp hmembers
    obtain ⟨hvalueDepth, hothersDepth⟩ := Nat.max_le.mp hdepth
    obtain ⟨fuel, rfl⟩ := Nat.exists_eq_add_one_of_ne_zero (by omega : fuel ≠ 0)
    by_cases hlast : others = []
    · subst hlast
      rw [membersChars_single] at hfuel ⊢
      exact readMembers_memberChars hvalue (by omega) hvalueDepth (.inl ⟨rfl, rfl⟩)
    · rw [membersChars_cons hlast, List.length_append, List.length_cons] at hfuel
      rw [membersChars_cons hlast, List.append_assoc, List.cons_append]
      have hmore := ih hlast hothers (by omega : _ < fuel) hothersDepth
      exact readMembers_memberChars hvalue (by omega) hvalueDepth (.inr ⟨_, rfl, hmore⟩)

theorem readsBack_object {members : List (String × Json)}
    (hmembers : ∀ member ∈ members, ReadsBack member.2) : ReadsBack (.object members) := by
  intro fuel depth rest hfuel hdepth _
  obtain ⟨fuel, rfl⟩ := exists_fuel hfuel
  obtain ⟨depth, rfl⟩ := Nat.exists_eq_add_one_of_ne_zero (by
    rw [nesting] at hdepth
    omega : depth ≠ 0)
  by_cases hne : members = []
  · subst hne
    rfl
  · rw [toChars, List.length_cons, List.length_append, List.length_singleton] at hfuel
    rw [toChars, List.cons_append, List.append_assoc, List.singleton_append]
    exact readValue_openObject
      (readMembers_membersChars hne hmembers (by omega) (Nat.le_of_succ_le_succ hdepth) rest)

/-! ### Values -/

theorem readsBack (value : Json) : ReadsBack value := by
  induction value using Json.induction with
  | null => exact readsBack_null
  | bool value => exact readsBack_bool value
  | number n => exact readsBack_number n
  | string text => exact readsBack_string text
  | array items ih => exact readsBack_array ih
  | object members ih => exact readsBack_object ih

/-- A value is read back from its text by a reader that allows for its nesting. -/
theorem parseRaw?_toChars {value : Json} {depth : Nat} (h : value.nesting ≤ depth) :
    parseRaw? depth value.toChars = some value := by
  have hread := value.readsBack (2 * value.toChars.length + 1) depth [] (by omega) h
    (by simp [Number.EndsNumber])
  rw [List.append_nil] at hread
  rw [parseRaw?, hread]
  rfl

/-! ## Control characters -/

/-- The characters below U+0020, the line feed among them. -/
def IsControl (c : Char) : Prop := c.toNat < 0x20

instance (c : Char) : Decidable (IsControl c) := Nat.decLt c.toNat 0x20

/-- A text without control characters, if the characters are looked at one by one. -/
theorem not_isControl_of_all {text : List Char} {c : Char}
    (htext : text.all (fun c => !decide (IsControl c)) = true) (h : c ∈ text) : ¬IsControl c := by
  have hc := List.all_eq_true.mp htext c h
  rwa [Bool.not_eq_true', decide_eq_false_iff_not] at hc

theorem not_isControl_of_isPlain {c : Char} (h : Decimal.IsPlain c) : ¬IsControl c := by
  obtain hdigit | hmark := h
  · have hle := (Decimal.toNat_of_isDigit hdigit).1
    rw [IsControl]
    omega
  · exact not_isControl_of_all (by decide) hmark

theorem not_isControl_of_mem_encodeChar {c d : Char} (h : d ∈ Literal.encodeChar c) : ¬IsControl d := by
  by_cases hcontrol : IsControl c
  · have hescaped : ∀ n < 0x20,
        (Literal.encodeChar (Char.ofNat n)).all (fun d => !decide (IsControl d)) = true := by decide
    rw [← Char.ofNat_toNat c] at h
    exact not_isControl_of_all (hescaped c.toNat hcontrol) h
  · -- of these characters only the quote and the backslash are escaped
    have hother : ¬c.toNat = 8 ∧ ¬c.toNat = 9 ∧ ¬c.toNat = 10 ∧ ¬c.toNat = 12 ∧ ¬c.toNat = 13 ∧
        ¬c.toNat < 0x20 := by
      rw [IsControl] at hcontrol
      omega
    have hchars : Literal.encodeChar c =
        if c = '"' then ['\\', '"'] else if c = '\\' then ['\\', '\\'] else [c] := by
      simp only [Literal.encodeChar, hother, if_false]
    rw [hchars] at h
    revert hcontrol
    split at h
    · exact fun _ => not_isControl_of_all (by decide) h
    split at h
    · exact fun _ => not_isControl_of_all (by decide) h
    · rw [List.mem_singleton.mp h]
      exact id

theorem not_isControl_of_mem_quoted {text : List Char} {c : Char} (h : c ∈ Literal.quoted text) :
    ¬IsControl c := by
  obtain rfl | h := List.mem_cons.mp h
  · decide
  obtain h | h := List.mem_append.mp h
  · obtain ⟨inner, -, hinner⟩ := List.mem_flatMap.mp h
    exact not_isControl_of_mem_encodeChar hinner
  · cases List.mem_singleton.mp h
    decide

theorem not_isControl_of_mem_number {n : Number} {c : Char} (h : c ∈ n.toChars) : ¬IsControl c := by
  cases n with
  | integer value inRange => exact not_isControl_of_isPlain (Decimal.plain_intChars value c h)
  | double d => exact not_isControl_of_isPlain (Double.plain_toChars (.inr rfl) d c h)

theorem not_isControl_of_mem_itemsChars {items : List Json} {c : Char}
    (hitems : ∀ item ∈ items, ∀ c ∈ item.toChars, ¬IsControl c) (h : c ∈ itemsChars items) :
    ¬IsControl c := by
  induction items with
  | nil => cases h
  | cons item others ih =>
    obtain ⟨hitem, hothers⟩ := List.forall_mem_cons.mp hitems
    by_cases hlast : others = []
    · subst hlast
      exact hitem c h
    · rw [itemsChars_cons hlast] at h
      obtain h | h := List.mem_append.mp h
      · exact hitem c h
      obtain rfl | h := List.mem_cons.mp h
      · decide
      · exact ih hothers h

theorem not_isControl_of_mem_memberChars {member : String × Json} {c : Char}
    (hvalue : ∀ c ∈ member.2.toChars, ¬IsControl c) (h : c ∈ memberChars member) : ¬IsControl c := by
  obtain h | h := List.mem_append.mp h
  · exact not_isControl_of_mem_quoted h
  obtain rfl | h := List.mem_cons.mp h
  · decide
  · exact hvalue c h

theorem not_isControl_of_mem_membersChars {members : List (String × Json)} {c : Char}
    (hmembers : ∀ member ∈ members, ∀ c ∈ member.2.toChars, ¬IsControl c)
    (h : c ∈ membersChars members) : ¬IsControl c := by
  induction members with
  | nil => cases h
  | cons member others ih =>
    obtain ⟨hmember, hothers⟩ := List.forall_mem_cons.mp hmembers
    by_cases hlast : others = []
    · subst hlast
      exact not_isControl_of_mem_memberChars hmember h
    · rw [membersChars_cons hlast] at h
      obtain h | h := List.mem_append.mp h
      · exact not_isControl_of_mem_memberChars hmember h
      obtain rfl | h := List.mem_cons.mp h
      · decide
      · exact ih hothers h

/-- A compact text has no control characters. -/
theorem not_isControl_of_mem_toChars (value : Json) : ∀ c ∈ value.toChars, ¬IsControl c := by
  have hframed : ∀ {first last : Char} {inner : List Char}, ¬IsControl first → ¬IsControl last →
      (∀ c ∈ inner, ¬IsControl c) → ∀ c ∈ first :: (inner ++ [last]), ¬IsControl c := by
    intro first last inner hfirst hlast hinner
    exact List.forall_mem_cons.mpr ⟨hfirst, List.forall_mem_append.mpr ⟨hinner, by simpa using hlast⟩⟩
  induction value using Json.induction with
  | null => exact fun c => not_isControl_of_all (by decide)
  | bool value => cases value <;> exact fun c => not_isControl_of_all (by decide)
  | number n => exact fun c => not_isControl_of_mem_number
  | string text => exact fun c => not_isControl_of_mem_quoted
  | array items ih => exact hframed (by decide) (by decide) fun c => not_isControl_of_mem_itemsChars ih
  | object members ih =>
    exact hframed (by decide) (by decide) fun c => not_isControl_of_mem_membersChars ih

end Json

end TableQuery
