import TableQuery.Fields

/-!
# Fields made from pairs

What a list of pairs becomes when its pairs are inserted one after the other.  If the names are
distinct, the fields are the list itself (`Fields.ofPairs_eq_self`).  If not, some pair takes the place
of an earlier one and the fields are fewer than the pairs (`Fields.length_ofPairs_eq_iff`).
-/

namespace TableQuery.Fields

variable {α β : Type}

theorem get?_map (f : α → β) (fields : Fields α) (key : String) :
    get? (List.map (fun pair => (pair.1, f pair.2)) fields) key = (fields.get? key).map f := by
  induction fields with
  | nil => rfl
  | cons pair rest ih =>
    obtain ⟨name, value⟩ := pair
    by_cases h : name = key
    · simp [get?, h]
    · simpa [get?, h] using ih

theorem mem_of_get?_eq_some {fields : Fields α} {key : String} {value : α}
    (h : fields.get? key = some value) : (key, value) ∈ fields := by
  induction fields with
  | nil => cases h
  | cons pair rest ih =>
    obtain ⟨name, first⟩ := pair
    rw [get?] at h
    split at h
    · next hname =>
      cases h
      exact hname ▸ List.mem_cons_self ..
    · exact List.mem_cons_of_mem _ (ih h)

/-- Among distinct names every pair is found. -/
theorem get?_eq_some_iff {fields : Fields α} (distinct : fields.names.Nodup) {key : String}
    {value : α} : fields.get? key = some value ↔ (key, value) ∈ fields := by
  constructor
  · exact mem_of_get?_eq_some
  · intro h
    induction fields with
    | nil => cases h
    | cons pair rest ih =>
      obtain ⟨name, first⟩ := pair
      have hdistinct : name ∉ names rest ∧ (names rest).Nodup := List.nodup_cons.mp distinct
      rcases List.mem_cons.mp h with heq | hmem
      · cases heq
        simp [get?]
      · have hkey : key ∈ names rest := List.mem_map_of_mem hmem
        have hne : name ≠ key := fun e => hdistinct.1 (e ▸ hkey)
        rw [get?, if_neg hne]
        exact ih hdistinct.2 hmem

/-! ## Inserting pairs one after the other -/

/-- Inserts pairs one after the other. -/
def insertAll (fields : Fields α) (pairs : List (String × α)) : Fields α :=
  pairs.foldl (fun fields pair => fields.insert pair.1 pair.2) fields

theorem ofPairs_eq_insertAll (pairs : List (String × α)) : ofPairs pairs = insertAll [] pairs := rfl

theorem insert_of_not_mem {fields : Fields α} {key : String} (h : key ∉ fields.names) (value : α) :
    fields.insert key value = fields ++ [(key, value)] := by
  induction fields with
  | nil => rfl
  | cons pair rest ih =>
    obtain ⟨name, first⟩ := pair
    have hne : name ≠ key ∧ key ∉ names rest := by
      simpa [names, eq_comm] using h
    rw [insert, if_neg hne.1, ih hne.2]
    rfl

theorem length_insert_of_mem {fields : Fields α} {key : String} (h : key ∈ fields.names) (value : α) :
    (fields.insert key value).length = fields.length := by
  have hnames := names_insert fields key value
  rw [if_pos h] at hnames
  simpa [names] using congrArg List.length hnames

theorem length_insertAll_le (fields : Fields α) (pairs : List (String × α)) :
    (fields.insertAll pairs).length ≤ fields.length + pairs.length := by
  induction pairs generalizing fields with
  | nil => exact Nat.le_refl _
  | cons pair rest ih =>
    have hrest := ih (fields.insert pair.1 pair.2)
    have hlength : (fields.insert pair.1 pair.2).length ≤ fields.length + 1 := by
      by_cases h : pair.1 ∈ fields.names
      · rw [length_insert_of_mem h]
        omega
      · rw [insert_of_not_mem h]
        simp
    rw [List.length_cons]
    exact Nat.le_trans hrest (by omega)

theorem insertAll_of_fresh {fields : Fields α} {pairs : List (String × α)}
    (distinct : (pairs.map Prod.fst).Nodup) (fresh : ∀ key ∈ pairs.map Prod.fst, key ∉ fields.names) :
    fields.insertAll pairs = fields ++ pairs := by
  induction pairs generalizing fields with
  | nil => exact (List.append_nil _).symm
  | cons pair rest ih =>
    obtain ⟨key, value⟩ := pair
    have hdistinct : key ∉ rest.map Prod.fst ∧ (rest.map Prod.fst).Nodup :=
      List.nodup_cons.mp distinct
    have hinsert := insert_of_not_mem (fresh key (List.mem_cons_self ..)) value
    have hfresh : ∀ other ∈ rest.map Prod.fst, other ∉ (fields.insert key value).names := by
      intro other hother hmem
      have hcases : other ∈ fields.names ∨ other = key := by
        simpa [hinsert, names] using hmem
      rcases hcases with hold | hnew
      · exact fresh other (List.mem_cons_of_mem _ hother) hold
      · exact hdistinct.1 (hnew ▸ hother)
    show (fields.insert key value).insertAll rest = fields ++ (key, value) :: rest
    rw [ih hdistinct.2 hfresh, hinsert, List.append_assoc]
    rfl

/-- Every pair adds a name exactly if the names are new and distinct. -/
theorem length_insertAll_eq_iff (fields : Fields α) (pairs : List (String × α)) :
    (fields.insertAll pairs).length = fields.length + pairs.length ↔
      (pairs.map Prod.fst).Nodup ∧ ∀ key ∈ pairs.map Prod.fst, key ∉ fields.names := by
  constructor
  · intro h
    induction pairs generalizing fields with
    | nil => exact ⟨List.nodup_nil, fun _ hkey => nomatch hkey⟩
    | cons pair rest ih =>
      obtain ⟨key, value⟩ := pair
      have hle := length_insertAll_le (fields.insert key value) rest
      have hlength : ((fields.insert key value).insertAll rest).length =
          fields.length + (rest.length + 1) := h
      by_cases hkey : key ∈ fields.names
      · rw [length_insert_of_mem hkey] at hle
        omega
      · have hinsert := insert_of_not_mem hkey value
        have hcount : (fields.insert key value).length = fields.length + 1 := by
          rw [hinsert]
          simp
        obtain ⟨hdistinct, hfresh⟩ := ih (fields.insert key value) (by omega)
        have hnew : key ∈ (fields.insert key value).names := by
          rw [hinsert]
          simp [names]
        refine ⟨List.nodup_cons.mpr ⟨fun hmem => hfresh key hmem hnew, hdistinct⟩, ?_⟩
        intro other hother hold
        rcases List.mem_cons.mp hother with rfl | hrest
        · exact hkey hold
        · refine hfresh other hrest ?_
          rw [hinsert]
          have hmem : other ∈ List.map Prod.fst fields := hold
          simp [names, hmem]
  · rintro ⟨distinct, fresh⟩
    rw [insertAll_of_fresh distinct fresh, List.length_append]

theorem length_ofPairs_eq_iff (pairs : List (String × α)) :
    (ofPairs pairs).length = pairs.length ↔ (pairs.map Prod.fst).Nodup := by
  have h := length_insertAll_eq_iff [] pairs
  rw [List.length_nil, Nat.zero_add] at h
  rw [ofPairs_eq_insertAll, h]
  simp [names]

theorem length_ofPairs_le (pairs : List (String × α)) : (ofPairs pairs).length ≤ pairs.length := by
  have h := length_insertAll_le [] pairs
  rwa [List.length_nil, Nat.zero_add] at h

theorem nodup_names_insertAll {fields : Fields α} (distinct : fields.names.Nodup)
    (pairs : List (String × α)) : (fields.insertAll pairs).names.Nodup := by
  induction pairs generalizing fields with
  | nil => exact distinct
  | cons pair rest ih => exact ih (nodup_names_insert distinct pair.1 pair.2)

theorem nodup_names_ofPairs (pairs : List (String × α)) : (ofPairs pairs).names.Nodup := by
  have hnil : (names ([] : Fields α)).Nodup := List.nodup_nil
  exact nodup_names_insertAll hnil pairs

theorem eq_or_mem_of_mem_insert {fields : Fields α} {key : String} {value : α} {pair : String × α}
    (h : pair ∈ fields.insert key value) : pair = (key, value) ∨ pair ∈ fields := by
  induction fields with
  | nil => exact .inl (List.mem_singleton.mp h)
  | cons first rest ih =>
    obtain ⟨name, old⟩ := first
    rw [insert] at h
    split at h
    next hname =>
      subst hname
      exact (List.mem_cons.mp h).imp id (List.mem_cons_of_mem _)
    next =>
      rcases List.mem_cons.mp h with rfl | h
      · exact .inr (List.mem_cons_self ..)
      · exact (ih h).imp id (List.mem_cons_of_mem _)

theorem mem_or_mem_of_mem_insertAll {fields : Fields α} {pairs : List (String × α)}
    {pair : String × α} (h : pair ∈ fields.insertAll pairs) : pair ∈ fields ∨ pair ∈ pairs := by
  induction pairs generalizing fields with
  | nil => exact .inl h
  | cons first rest ih =>
    have hinserted : pair ∈ fields.insert first.1 first.2 ∨ pair ∈ rest := ih h
    rcases hinserted with h | h
    · rcases eq_or_mem_of_mem_insert h with rfl | h
      · exact .inr (List.mem_cons_self ..)
      · exact .inl h
    · exact .inr (List.mem_cons_of_mem _ h)

theorem mem_of_mem_ofPairs {pairs : List (String × α)} {pair : String × α} (h : pair ∈ ofPairs pairs) :
    pair ∈ pairs :=
  (mem_or_mem_of_mem_insertAll h).resolve_left List.not_mem_nil

/-- The names after insertions depend on the names alone. -/
theorem names_insertAll_congr {fields : Fields α} {others : Fields β} {pairs : List (String × α)}
    {otherPairs : List (String × β)} (hnames : fields.names = others.names)
    (hkeys : pairs.map Prod.fst = otherPairs.map Prod.fst) :
    (fields.insertAll pairs).names = (others.insertAll otherPairs).names := by
  induction pairs generalizing fields others otherPairs with
  | nil =>
    rw [List.map_eq_nil_iff.mp hkeys.symm]
    exact hnames
  | cons pair rest ih =>
    obtain ⟨other, otherRest, rfl, hother, hrest⟩ := List.map_eq_cons_iff.mp hkeys.symm
    show ((fields.insert pair.1 pair.2).insertAll rest).names =
      ((others.insert other.1 other.2).insertAll otherRest).names
    refine ih ?_ hrest.symm
    rw [names_insert, names_insert, hother, hnames]

theorem ofPairs_eq_self {pairs : List (String × α)} (distinct : (pairs.map Prod.fst).Nodup) :
    ofPairs pairs = pairs :=
  insertAll_of_fresh distinct fun _ _ h => nomatch h

end TableQuery.Fields
