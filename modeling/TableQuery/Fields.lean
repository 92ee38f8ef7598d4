/-!
# Named values in order

`Fields` are names with a value each, in the order in which the names first came.  Rows, property
maps, merged schemas, the sections of a dataset and the buckets of an index are all fields.  Giving
a name a new value keeps the name's place, so a repeated name stands where it first stood and has
the value given last.

The main statements: what `get?` finds after `insert`, and that `insert` adds a name only at the end
and only if it is new.
-/

namespace TableQuery

/-- Names with values, in the order of their first insertion. -/
abbrev Fields (α : Type) := List (String × α)

namespace Fields

variable {α : Type}

/-- The value of a name. -/
def get? : Fields α → String → Option α
  | [], _ => none
  | (name, value) :: rest, key => if name = key then some value else get? rest key

/-- Whether a name occurs. -/
def has (fields : Fields α) (key : String) : Bool := (fields.get? key).isSome

/-- The names in order. -/
def names (fields : Fields α) : List String := fields.map Prod.fst

/-- Gives a name a value, in its place if it occurs and at the end if not. -/
def insert : Fields α → String → α → Fields α
  | [], key, value => [(key, value)]
  | (name, old) :: rest, key, value =>
    if name = key then (name, value) :: rest else (name, old) :: insert rest key value

/-- The fields that a list of pairs makes, inserted one after the other. -/
def ofPairs (pairs : List (String × α)) : Fields α :=
  pairs.foldl (fun fields pair => fields.insert pair.1 pair.2) []

/-! ## Lookup after insertion -/

@[simp] theorem get?_nil (key : String) : get? ([] : Fields α) key = none := rfl

theorem get?_insert (fields : Fields α) (key other : String) (value : α) :
    (fields.insert key value).get? other = if key = other then some value else fields.get? other := by
  induction fields with
  | nil => simp [insert, get?]
  | cons pair rest ih =>
    obtain ⟨name, old⟩ := pair
    by_cases h : name = key
    · subst h
      by_cases h' : name = other <;> simp [insert, get?, h']
    · by_cases h' : name = other
      · subst h'
        simp [insert, get?, h, Ne.symm h]
      · simp [insert, get?, h, h', ih]

@[simp] theorem get?_insert_self (fields : Fields α) (key : String) (value : α) :
    (fields.insert key value).get? key = some value := by
  simp [get?_insert]

/-! ## The names after insertion -/

theorem has_iff_mem_names (fields : Fields α) (key : String) :
    fields.has key = true ↔ key ∈ fields.names := by
  induction fields with
  | nil => simp [has, names]
  | cons pair rest ih =>
    obtain ⟨name, value⟩ := pair
    by_cases h : name = key
    · simp [has, get?, names, h]
    · have : key ≠ name := fun e => h e.symm
      simpa [has, get?, names, h, this] using ih

theorem names_insert (fields : Fields α) (key : String) (value : α) :
    (fields.insert key value).names =
      if key ∈ fields.names then fields.names else fields.names ++ [key] := by
  induction fields with
  | nil => simp [insert, names]
  | cons pair rest ih =>
    obtain ⟨name, old⟩ := pair
    by_cases h : name = key
    · simp [insert, names, h]
    · have h' : key ≠ name := fun e => h e.symm
      have ih' : List.map Prod.fst (insert rest key value) =
          if key ∈ List.map Prod.fst rest then List.map Prod.fst rest
          else List.map Prod.fst rest ++ [key] := ih
      by_cases m : key ∈ List.map Prod.fst rest
      · simp [insert, names, h, h', ih', m]
      · simp [insert, names, h, h', ih', m]

/-- Inserting into distinct names keeps them distinct. -/
theorem nodup_names_insert {fields : Fields α} (distinct : fields.names.Nodup) (key : String)
    (value : α) : (fields.insert key value).names.Nodup := by
  rw [names_insert]
  split
  · exact distinct
  · next h => exact List.nodup_append.2 ⟨distinct, by simp, by grind⟩

end Fields

end TableQuery
