import TableQuery.Json.Basic
import TableQuery.Proofs.Fields

/-!
# Values as trees

A value is a tree of arrays and objects, and what holds of a value if it holds of the items and the members
in it holds of every value (`Json.induction`).

`Json.nesting` is how deep arrays and objects stand in one another.  `Json.Unrepeated` says that no object in
a value has two members of one name.  Settling a value makes it so (`Json.unrepeated_settled`) and
leaves a value alone that is so already (`Json.Unrepeated.settled_eq`).
-/

namespace TableQuery.Json

/-- Induction over the values inside of a value. -/
@[elab_as_elim]
theorem induction {motive : Json → Prop} (null : motive .null) (bool : ∀ value, motive (.bool value))
    (number : ∀ value, motive (.number value)) (string : ∀ text, motive (.string text))
    (array : ∀ items, (∀ item ∈ items, motive item) → motive (.array items))
    (object : ∀ members, (∀ member ∈ members, motive member.2) → motive (.object members))
    (value : Json) : motive value :=
  @Json.rec motive (fun items => ∀ item ∈ items, motive item)
    (fun members => ∀ member ∈ members, motive member.2) (fun member => motive member.2)
    null bool number string array object (fun _ h => nomatch h)
    (fun _ _ hfirst hrest => List.forall_mem_cons.mpr ⟨hfirst, hrest⟩) (fun _ h => nomatch h)
    (fun _ _ hfirst hrest => List.forall_mem_cons.mpr ⟨hfirst, hrest⟩) (fun _ _ hvalue => hvalue) value

/-! ## Nesting -/

mutual

/-- How deep arrays and objects stand in one another. -/
def nesting : Json → Nat
  | .array items => itemsNesting items + 1
  | .object members => membersNesting members + 1
  | _ => 0

/-- The deepest nesting of some values. -/
def itemsNesting : List Json → Nat
  | [] => 0
  | value :: rest => max value.nesting (itemsNesting rest)

/-- The deepest nesting of the values of some members. -/
def membersNesting : List (String × Json) → Nat
  | [] => 0
  | (_, value) :: rest => max value.nesting (membersNesting rest)

end

/-! ## Repeated names -/

/-- No object in the value repeats a name. -/
inductive Unrepeated : Json → Prop where
  | null : Unrepeated .null
  | bool (value : Bool) : Unrepeated (.bool value)
  | number (value : Number) : Unrepeated (.number value)
  | string (text : String) : Unrepeated (.string text)
  | array {items : List Json} : (∀ item ∈ items, Unrepeated item) → Unrepeated (.array items)
  | object {members : List (String × Json)} : (Fields.names members).Nodup →
      (∀ member ∈ members, Unrepeated member.2) → Unrepeated (.object members)

namespace Unrepeated

variable {members : Tuple} {value : Json}

theorem noMembers : Unrepeated (.object []) := .object List.nodup_nil fun _ h => nomatch h

theorem nodup_names (h : Unrepeated (.object members)) : (Fields.names members).Nodup := by
  cases h with
  | object hnames _ => exact hnames

theorem of_mem (h : Unrepeated (.object members)) {member : String × Json} (hmember : member ∈ members) :
    Unrepeated member.2 := by
  cases h with
  | object _ hvalues => exact hvalues member hmember

theorem of_get? (h : Unrepeated (.object members)) {name : String}
    (hvalue : Fields.get? members name = some value) : Unrepeated value :=
  h.of_mem (Fields.mem_of_get?_eq_some hvalue)

theorem insert (h : Unrepeated (.object members)) (hvalue : Unrepeated value) (name : String) :
    Unrepeated (.object (Fields.insert members name value)) := by
  refine .object (Fields.nodup_names_insert h.nodup_names name value) fun member hmember => ?_
  obtain rfl | hold := Fields.eq_or_mem_of_mem_insert hmember
  · exact hvalue
  · exact h.of_mem hold

end Unrepeated

theorem settledItems_eq_map (items : List Json) : settledItems items = items.map settled := by
  induction items with
  | nil => rfl
  | cons value rest ih => rw [settledItems, ih, List.map_cons]

theorem settledMembers_eq_map (members : List (String × Json)) :
    settledMembers members = members.map fun member => (member.1, member.2.settled) := by
  induction members with
  | nil => rfl
  | cons member rest ih => rw [settledMembers, ih, List.map_cons]

/-- A value that repeats no name is settled. -/
theorem Unrepeated.settled_eq {value : Json} (h : value.Unrepeated) : value.settled = value := by
  induction h with
  | null | bool | number | string => rfl
  | @array items _ ih =>
    have hitems : items.map settled = items := (List.map_congr_left ih).trans (List.map_id' _)
    rw [settled, settledItems_eq_map, hitems]
  | @object members hnames _ ih =>
    have hmembers : members.map (fun member => (member.1, member.2.settled)) = members := by
      refine (List.map_congr_left fun member hmember => ?_).trans (List.map_id' _)
      rw [ih member hmember]
    rw [settled, settledMembers_eq_map, hmembers, Fields.ofPairs_eq_self hnames]

/-- A value that has been settled repeats no name. -/
theorem unrepeated_settled (value : Json) : value.settled.Unrepeated := by
  induction value using Json.induction with
  | null => exact .null
  | bool value => exact .bool value
  | number value => exact .number value
  | string text => exact .string text
  | array items ih =>
    rw [settled, settledItems_eq_map]
    refine .array fun item hitem => ?_
    obtain ⟨inner, hinner, rfl⟩ := List.mem_map.mp hitem
    exact ih inner hinner
  | object members ih =>
    rw [settled, settledMembers_eq_map]
    refine .object (Fields.nodup_names_ofPairs _) fun member hmember => ?_
    obtain ⟨inner, hinner, rfl⟩ := List.mem_map.mp (Fields.mem_of_mem_ofPairs hmember)
    exact ih inner hinner

theorem settled_eq_self_iff {value : Json} : value.settled = value ↔ value.Unrepeated :=
  ⟨fun h => h ▸ value.unrepeated_settled, Unrepeated.settled_eq⟩

instance (value : Json) : Decidable value.Unrepeated := decidable_of_iff _ settled_eq_self_iff

end TableQuery.Json
