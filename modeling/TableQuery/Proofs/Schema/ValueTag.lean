import TableQuery.Proofs.Json.Value
import TableQuery.Proofs.Schema.TypeTag

/-!
# Tags of values

The tag of a value carries texts of the value: the names of an object and the type of a geometry.  They
stand in the text of the tag as they are, and a reader takes the commas, the colons, the parentheses and
the white space in them for its own.  `Describable` are the values whose texts do no harm, and their
tags are the ones that are read back (`ofText_text_ofValue_iff`).

The harm is done anywhere in a value, save behind the first item of an array, which its tag does not tell.
-/

namespace TableQuery.TypeTag

open Text (trim)

variable {item : TypeTag} {fields : List (String × TypeTag)}

/-! ## Which tags are legible -/

theorem legible_array_iff : Legible (array item) ↔ Legible item := by
  refine ⟨fun h => ?_, .array⟩
  cases h with
  | plain hplain => cases hplain
  | array hitem => exact hitem

theorem legible_geoJson_iff {geometry : String} :
    Legible (geoJson geometry) ↔ trim geometry.toList = geometry.toList := by
  refine ⟨fun h => ?_, .geoJson⟩
  cases h with
  | plain hplain => cases hplain
  | geoJson htrim => exact htrim

theorem fieldChars_ne_nil (field : String × TypeTag) : fieldChars field ≠ [] := by
  simp [fieldChars]

/-- Fields can be written and read if commas keep them apart, for a field is never blank. -/
theorem isList_fieldChars_iff (hnames : ∀ field ∈ fields, IsFieldName field.1) :
    IsList (fields.map fieldChars) ↔ (fields ≠ [] → Separated (fields.map fieldChars)) := by
  constructor
  · intro h hne
    exact h.separated (mt List.map_eq_nil_iff.mp hne)
  · intro h
    constructor
    · intro piece hpiece
      obtain ⟨field, hfield, rfl⟩ := List.mem_map.mp hpiece
      exact trim_fieldChars (hnames field hfield)
    · exact fun hne => h (mt List.map_eq_nil_iff.mpr hne)
    · intro hblank
      obtain ⟨field, -, hfield⟩ := List.mem_map.mp (hblank ▸ List.mem_singleton_self [])
      exact fieldChars_ne_nil field hfield

theorem legible_object_iff :
    Legible (object fields) ↔ (∀ field ∈ fields, IsFieldName field.1) ∧
      (∀ field ∈ fields, Legible field.2) ∧ (fields ≠ [] → Separated (fields.map fieldChars)) := by
  constructor
  · intro h
    cases h with
    | plain hplain => cases hplain
    | object hnames htags hlist => exact ⟨hnames, htags, (isList_fieldChars_iff hnames).mp hlist⟩
  · rintro ⟨hnames, htags, hseparated⟩
    exact .object hnames htags ((isList_fieldChars_iff hnames).mpr hseparated)

/-! ## Which values have such a tag -/

/-- A member as the text of a tag has it. -/
def memberChars (member : String × Json) : List Char := fieldChars (member.1, ofValue member.2)

/-- The values whose texts do no harm in a tag. -/
inductive Describable : Json → Prop where
  /-- The tag of a scalar is a word. -/
  | scalar {value : Json} : (ofValue value).isPlain = true → Describable value
  | noItems : Describable (.array [])
  /-- Only the first item of an array is told. -/
  | items {first : Json} (rest : List Json) : Describable first → Describable (.array (first :: rest))
  | geometry {members : List (String × Json)} {geometry : String} :
      geometry? members = some geometry → trim geometry.toList = geometry.toList →
      Describable (.object members)
  | members {members : List (String × Json)} : geometry? members = none →
      (∀ member ∈ members, IsFieldName member.1) → (∀ member ∈ members, Describable member.2) →
      (members ≠ [] → Separated (members.map memberChars)) → Describable (.object members)

variable {first : Json} {rest : List Json} {members : List (String × Json)}

theorem describable_array_iff : Describable (.array (first :: rest)) ↔ Describable first := by
  refine ⟨fun h => ?_, .items rest⟩
  cases h with
  | scalar hplain => cases hplain
  | items rest hfirst => exact hfirst

theorem describable_geometry_iff {geometry : String} (h : geometry? members = some geometry) :
    Describable (.object members) ↔ trim geometry.toList = geometry.toList := by
  refine ⟨fun hvalue => ?_, .geometry h⟩
  cases hvalue with
  | scalar hplain =>
    rw [ofValue, h] at hplain
    cases hplain
  | geometry hother htrim =>
    cases h.symm.trans hother
    exact htrim
  | members hother => cases h.symm.trans hother

theorem describable_members_iff (h : geometry? members = none) :
    Describable (.object members) ↔ (∀ member ∈ members, IsFieldName member.1) ∧
      (∀ member ∈ members, Describable member.2) ∧
      (members ≠ [] → Separated (members.map memberChars)) := by
  constructor
  · intro hvalue
    cases hvalue with
    | scalar hplain =>
      rw [ofValue, h] at hplain
      cases hplain
    | geometry hother => cases h.symm.trans hother
    | members _ hnames hvalues hseparated => exact ⟨hnames, hvalues, hseparated⟩
  · rintro ⟨hnames, hvalues, hseparated⟩
    exact .members h hnames hvalues hseparated

theorem ofMembers_eq_map (members : List (String × Json)) :
    ofMembers members = members.map fun member => (member.1, ofValue member.2) := by
  induction members with
  | nil => rfl
  | cons member rest ih => rw [ofMembers, ih, List.map_cons]

theorem legible_ofValue_object_iff (hplain : geometry? members = none) :
    Legible (ofValue (.object members)) ↔ (∀ member ∈ members, IsFieldName member.1) ∧
      (∀ member ∈ members, Legible (ofValue member.2)) ∧
      (members ≠ [] → Separated (members.map memberChars)) := by
  have htag : ofValue (.object members) =
      object (members.map fun member => (member.1, ofValue member.2)) := by
    rw [ofValue, hplain, ofMembers_eq_map]
  rw [htag, legible_object_iff, List.forall_mem_map, List.forall_mem_map, List.map_map]
  simp only [ne_eq, List.map_eq_nil_iff]
  rfl

/-- The values without harmful texts are those with a legible tag. -/
theorem legible_ofValue_iff (value : Json) : Legible (ofValue value) ↔ Describable value := by
  induction value using Json.induction with
  | null => exact iff_of_true (.plain rfl) (.scalar rfl)
  | bool => exact iff_of_true (.plain rfl) (.scalar rfl)
  | number n => cases n <;> exact iff_of_true (.plain rfl) (.scalar rfl)
  | string => exact iff_of_true (.plain rfl) (.scalar rfl)
  | array items ih =>
    cases items with
    | nil => exact iff_of_true (.array (.plain rfl)) .noItems
    | cons first rest =>
      rw [ofValue, ofFirst, legible_array_iff, describable_array_iff]
      exact ih first (List.mem_cons_self ..)
  | object members ih =>
    cases hgeometry : geometry? members with
    | some geometry =>
      rw [ofValue, hgeometry, legible_geoJson_iff, describable_geometry_iff hgeometry]
    | none =>
      rw [legible_ofValue_object_iff hgeometry, describable_members_iff hgeometry]
      simp only [forall₂_congr ih]

/-! ## Reading back -/

/-- The tag of a value is read back from its text exactly if no text in the value does harm. -/
theorem ofText_text_ofValue_iff (value : Json) :
    ofText (ofValue value).text = .ok (ofValue value) ↔ Describable value :=
  ofText_text_iff.trans (legible_ofValue_iff value)

/-- A colon in a name is taken for the end of the name. -/
theorem tag_lost_of_colon :
    (ofValue (.object [("a:b", .bool true)])).text = "object(a:b:boolean)" ∧
      ofText "object(a:b:boolean)" = .error (.invalidTypeTag "b:boolean") ∧
      ofText (ofValue (.object [("a:b", .bool true)])).text ≠
        .ok (ofValue (.object [("a:b", .bool true)])) := by
  have htext : (ofValue (.object [("a:b", .bool true)])).text = "object(a:b:boolean)" := rfl
  have hread : ofText "object(a:b:boolean)" = .error (.invalidTypeTag "b:boolean") := rfl
  refine ⟨htext, hread, ?_⟩
  rw [htext, hread]
  exact fun h => nomatch h

/-- Parentheses that are closed do no harm in a name, nor does one in the last name that is not, nor
anything behind the first item. -/
example : ofText (ofValue (.array [.object [("a(,)", .null), ("b(", .null)], .object [(":", .null)]])).text =
    .ok (array (object [("a(,)", unknown), ("b(", unknown)])) := by rfl

end TableQuery.TypeTag
