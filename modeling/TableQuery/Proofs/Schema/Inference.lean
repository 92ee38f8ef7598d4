import Mathlib.Data.List.Induction
import TableQuery.Proofs.Fields
import TableQuery.Schema.TypeTag

/-!
# What is inferred from tuples

Inferring goes through the tuples field by field.  The properties have the field names of the tuples, each
once and where it first occurs, and the values of a name decide its tag: the first of them that is not
null (`infer_decides`).

A name that has only had nulls is marked by the unknown tag.  The mark cannot be mistaken, since no value
but null has this tag (`TypeTag.isUnknown_ofValue`).  So one field changes the tag of its own name at
most, and only if nothing has decided it (`get?_learn`).
-/

namespace TableQuery

namespace TypeTag

/-- No value but null has the unknown tag, however empty it is. -/
theorem isUnknown_ofValue {value : Json} : (ofValue value).isUnknown = true ↔ value = .null := by
  cases value with
  | null => simp [ofValue, isUnknown]
  | bool | string | array => simp [ofValue, isUnknown]
  | number n => cases n <;> simp [ofValue, isUnknown]
  | object members =>
    rw [ofValue]
    split <;> simp [isUnknown]

/-- The tag that values decide: that of the first one that is not null. -/
def ofValues (values : List Json) : TypeTag :=
  ((values.find? fun value => decide (value ≠ .null)).map ofValue).getD unknown

/-- One value more decides the tag if those before it do not. -/
theorem ofValues_concat (values : List Json) (value : Json) :
    ofValues (values ++ [value]) =
      if (ofValues values).isUnknown then ofValue value else ofValues values := by
  rw [ofValues, ofValues, List.find?_append]
  cases hfirst : values.find? fun value => decide (value ≠ .null) with
  | none =>
    by_cases hnull : value = .null
    · simp [hnull, isUnknown, ofValue]
    · simp [hnull, isUnknown]
  | some first =>
    have hne : first ≠ .null := by simpa using List.find?_some hfirst
    have hknown : (ofValue first).isUnknown = false :=
      Bool.eq_false_iff.mpr (mt isUnknown_ofValue.mp hne)
    simp [hknown]

/-- Values that decide a tag are not overruled by later ones. -/
theorem ofValues_append {values : List Json} (h : ofValues values ≠ unknown) (later : List Json) :
    ofValues (values ++ later) = ofValues values := by
  rw [ofValues] at h ⊢
  rw [ofValues, List.find?_append]
  cases hfirst : values.find? fun value => decide (value ≠ .null) with
  | none =>
    rw [hfirst] at h
    exact absurd rfl h
  | some first => rfl

end TypeTag

namespace Properties

open TypeTag (ofValue ofValues unknown)

/-- The values of a name among fields, in their order. -/
def valuesOf (fields : List (String × Json)) (name : String) : List Json :=
  (fields.filter fun field => field.1 == name).map Prod.snd

theorem valuesOf_append (fields more : List (String × Json)) (name : String) :
    valuesOf (fields ++ more) name = valuesOf fields name ++ valuesOf more name := by
  simp [valuesOf]

theorem valuesOf_ne_nil_iff {fields : List (String × Json)} {name : String} :
    valuesOf fields name ≠ [] ↔ name ∈ fields.map Prod.fst := by
  simp [valuesOf, List.filter_eq_nil_iff]

/-- Tuples are gone through field by field. -/
theorem infer_eq_foldl (tuples : List Tuple) : infer tuples = tuples.flatten.foldl learn [] :=
  List.foldl_flatten.symm

/-! ## One field more -/

theorem names_learn (properties : Properties) (field : String × Json) :
    (properties.learn field).names =
      if field.1 ∈ properties.names then properties.names else properties.names ++ [field.1] := by
  rw [learn]
  split
  next tag hfound =>
    have hmem : field.1 ∈ properties.names :=
      List.mem_map_of_mem (Fields.mem_of_get?_eq_some hfound)
    rw [if_pos hmem]
    split
    · rw [Fields.names_insert, if_pos hmem]
    · rfl
  next => exact Fields.names_insert ..

/-- A field decides the tag of its name if nothing has decided it, and changes no other tag. -/
theorem get?_learn (properties : Properties) (field : String × Json) (name : String) :
    (properties.learn field).get? name =
      if field.1 = name then
        some (if ((properties.get? name).getD unknown).isUnknown then ofValue field.2
          else (properties.get? name).getD unknown)
      else properties.get? name := by
  by_cases hname : field.1 = name
  · subst hname
    rw [learn, if_pos rfl]
    cases hfound : properties.get? field.1 with
    | none => exact Fields.get?_insert_self ..
    | some tag =>
      by_cases hunknown : tag.isUnknown = true
      · simp [hunknown]
      · simp [hunknown, hfound]
  · rw [if_neg hname, learn]
    split
    · split
      · rw [Fields.get?_insert, if_neg hname]
      · rfl
    · rw [Fields.get?_insert, if_neg hname]

/-! ## All fields -/

/-- What is learned from fields lists their names where they first occur. -/
theorem names_foldl_learn (fields : List (String × Json)) :
    (fields.foldl learn []).names = (fields.map Prod.fst).eraseDups := by
  induction fields using List.reverseRecOn with
  | nil => rfl
  | append_singleton fields field ih =>
    rw [List.foldl_append, List.foldl_cons, List.foldl_nil, names_learn, ih, List.map_append,
      List.eraseDups_append]
    by_cases hmem : field.1 ∈ fields.map Prod.fst
    · rw [if_pos (List.mem_eraseDups.mpr hmem)]
      simp [List.removeAll, hmem]
    · rw [if_neg (mt List.mem_eraseDups.mp hmem)]
      simp [List.removeAll, hmem, List.eraseDups_cons]

theorem nodup_names_foldl_learn (fields : List (String × Json)) :
    (fields.foldl learn []).names.Nodup := by
  induction fields using List.reverseRecOn with
  | nil => exact List.nodup_nil
  | append_singleton fields field ih =>
    rw [List.foldl_append, List.foldl_cons, List.foldl_nil, names_learn]
    split
    · exact ih
    · next hmem => exact List.nodup_append.mpr ⟨ih, by simp, by grind⟩

/-- What is learned from fields has the tag that the values of a name decide. -/
theorem get?_foldl_learn (fields : List (String × Json)) (name : String) :
    (fields.foldl learn []).get? name =
      if valuesOf fields name = [] then none else some (ofValues (valuesOf fields name)) := by
  induction fields using List.reverseRecOn with
  | nil => rfl
  | append_singleton fields field ih =>
    have hknown : ((fields.foldl learn []).get? name).getD unknown =
        ofValues (valuesOf fields name) := by
      rw [ih]
      split
      · next hnone =>
        rw [hnone]
        rfl
      · rfl
    rw [List.foldl_append, List.foldl_cons, List.foldl_nil, get?_learn, hknown, valuesOf_append]
    by_cases hname : field.1 = name
    · have hvalues : valuesOf [field] name = [field.2] := by simp [valuesOf, hname]
      rw [if_pos hname, hvalues, TypeTag.ofValues_concat]
      simp
    · have hvalues : valuesOf [field] name = [] := by simp [valuesOf, hname]
      rw [if_neg hname, hvalues, List.append_nil, ih]

/-! ## Inference -/

/-- The inferred properties have the field names of the tuples, each once and in the order of their first
occurrence.  A name is tagged by its first value that is not null and is unknown if it has none, and a
tag that is decided stays when more tuples follow. -/
theorem infer_decides (tuples : List Tuple) :
    (infer tuples).names = (tuples.flatten.map Prod.fst).eraseDups ∧
      (infer tuples).names.Nodup ∧
      (∀ name ∈ (infer tuples).names,
        (infer tuples).get? name = some (ofValues (valuesOf tuples.flatten name))) ∧
      ∀ later name tag, (infer tuples).get? name = some tag → tag ≠ unknown →
        (infer (tuples ++ later)).get? name = some tag := by
  have hget : ∀ tuples name, (infer tuples).get? name =
      if valuesOf tuples.flatten name = [] then none
      else some (ofValues (valuesOf tuples.flatten name)) := by
    intro tuples name
    rw [infer_eq_foldl]
    exact get?_foldl_learn tuples.flatten name
  have hnames : (infer tuples).names = (tuples.flatten.map Prod.fst).eraseDups := by
    rw [infer_eq_foldl]
    exact names_foldl_learn tuples.flatten
  refine ⟨hnames, ?_, ?_, ?_⟩
  · rw [infer_eq_foldl]
    exact nodup_names_foldl_learn tuples.flatten
  · intro name hname
    rw [hnames, List.mem_eraseDups] at hname
    rw [hget, if_neg (valuesOf_ne_nil_iff.mpr hname)]
  · intro later name tag htag hknown
    rw [hget] at htag
    split at htag
    next => cases htag
    next hsome =>
      cases htag
      rw [hget, List.flatten_append, valuesOf_append, TypeTag.ofValues_append hknown,
        if_neg fun hnil => hsome (List.append_eq_nil_iff.mp hnil).1]

/-- A null first, a name that is never decided, and a later value of another type. -/
theorem infer_decides_of_null_first :
    (infer [[("a", .null), ("b", .null)], [("c", .bool true), ("a", .array [])]]).get? "a" =
        some (.array unknown) ∧
      .array unknown ≠ unknown ∧
      (infer ([[("a", .null), ("b", .null)], [("c", .bool true), ("a", .array [])]] ++
        [[("a", .string "x")]])).get? "a" = some (.array unknown) := by
  obtain ⟨-, -, -, hlater⟩ :=
    infer_decides [[("a", .null), ("b", .null)], [("c", .bool true), ("a", .array [])]]
  have hdecided : (infer [[("a", .null), ("b", .null)], [("c", .bool true), ("a", .array [])]]).get?
      "a" = some (.array unknown) := rfl
  have hknown : TypeTag.array unknown ≠ unknown := fun h => nomatch h
  exact ⟨hdecided, hknown, hlater [[("a", .string "x")]] "a" _ hdecided hknown⟩

end Properties

end TableQuery
