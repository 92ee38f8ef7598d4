import Mathlib.Data.List.Nodup
import Mathlib.Data.List.Perm.Subperm
import TableQuery.Proofs.Fields
import TableQuery.Schema.Merge

/-!
# What a merged schema keeps

Merging inserts the properties of both operands under their output names (`merge_eq_ofPairs`).  It
keeps all of them exactly if no two output names coincide, and that is so exactly if every prefixed
form of a name that both operands declare is declared by both operands or by neither
(`nodup_outputNames_iff`).

If no output names coincide, every property has one output name and every declared value of a pair of
tuples is in the merged tuple.  If some do, a property is lost.
-/

namespace TableQuery

/-- The component of a pair that belongs to a side. -/
def Side.of {α : Type} : Side → α → α → α
  | left, a, _ => a
  | right, _, b => b

/-- The name that a side gives to a field that both sides have. -/
def Side.prefixed (side : Side) (name : String) : String := side.tag ++ "_" ++ name

namespace Side

theorem toList_prefixed (side : Side) (name : String) :
    (side.prefixed name).toList = side.tag.toList ++ '_' :: name.toList := by
  simp [prefixed]

theorem prefixed_injective {side : Side} {a b : String} (h : side.prefixed a = side.prefixed b) :
    a = b := by
  have hchars := congrArg String.toList h
  rw [toList_prefixed, toList_prefixed] at hchars
  exact String.toList_inj.mp (List.cons.inj (List.append_cancel_left hchars)).2

theorem prefixed_ne (side : Side) (name : String) : side.prefixed name ≠ name := by
  intro h
  have hlength := congrArg (fun s => s.toList.length) h
  simp only [toList_prefixed, List.length_append, List.length_cons] at hlength
  omega

theorem prefixed_left_ne_right (a b : String) : left.prefixed a ≠ right.prefixed b := by
  intro h
  have hchars := congrArg String.toList h
  rw [toList_prefixed, toList_prefixed] at hchars
  have htags : '1' = '2' := (List.cons.inj (List.cons.inj hchars).2).1
  exact absurd htags (by decide)

end Side

namespace MergedSchema

/-! ## Output names -/

theorem outputName_of_has {other : Properties} {name : String} (h : other.has name = true)
    (side : Side) : outputName side other name = side.prefixed name := if_pos h

theorem outputName_of_not_has {other : Properties} {name : String} (h : ¬other.has name = true)
    (side : Side) : outputName side other name = name := if_neg h

/-- The properties of one operand with their output names and origins. -/
def sideEntries (side : Side) (own other : Properties) : List (String × Origin) :=
  own.map fun pair => (outputName side other pair.1, ⟨pair.2, pair.1, side⟩)

/-- The properties of both operands with their output names and origins. -/
def entries (left right : Properties) : List (String × Origin) :=
  sideEntries .left left right ++ sideEntries .right right left

/-- Merging inserts the entries one after the other. -/
theorem merge_eq_ofPairs (left right : Properties) :
    merge left right = Fields.ofPairs (entries left right) := by
  simp [merge, addSide, entries, sideEntries, Fields.ofPairs, List.foldl_append, List.foldl_map]

theorem length_entries (left right : Properties) :
    (entries left right).length = left.length + right.length := by
  simp [entries, sideEntries]

theorem outputNames_eq (left right : Properties) :
    (entries left right).map Prod.fst =
      left.names.map (outputName .left right) ++ right.names.map (outputName .right left) := by
  simp [entries, sideEntries, Fields.names, Function.comp_def]

/-! ## When output names coincide -/

/-- The prefixed forms of a name that both operands declare are declared by both or by neither. -/
def PrefixesAgree (left right : Properties) : Prop :=
  ∀ name, left.has name = true → right.has name = true → ∀ side : Side,
    left.has (side.prefixed name) = right.has (side.prefixed name)

/-- Names of one operand get one output name exactly if a prefixed name meets one that the operand
declares alone. -/
theorem nodup_map_outputName_iff (side : Side) {own other : Properties} (distinct : own.names.Nodup) :
    (own.names.map (outputName side other)).Nodup ↔
      ∀ name, own.has name = true → other.has name = true →
        own.has (side.prefixed name) = true → other.has (side.prefixed name) = true := by
  rw [List.nodup_map_iff_inj_on distinct]
  constructor
  · intro hinj name hown hother hprefixed
    by_cases h : other.has (side.prefixed name) = true
    · exact h
    · have hsame := hinj name ((Fields.has_iff_mem_names _ _).mp hown) (side.prefixed name)
        ((Fields.has_iff_mem_names _ _).mp hprefixed)
        ((outputName_of_has hother side).trans (outputName_of_not_has h side).symm)
      exact absurd hsame.symm (side.prefixed_ne name)
  · intro hshared a ha b hb hsame
    rw [← Fields.has_iff_mem_names] at ha hb
    by_cases hao : other.has a = true
    · by_cases hbo : other.has b = true
      · rw [outputName_of_has hao, outputName_of_has hbo] at hsame
        exact Side.prefixed_injective hsame
      · rw [outputName_of_has hao, outputName_of_not_has hbo] at hsame
        exact absurd (hsame ▸ hshared a ha hao (hsame ▸ hb)) hbo
    · by_cases hbo : other.has b = true
      · rw [outputName_of_not_has hao, outputName_of_has hbo] at hsame
        exact absurd (hsame ▸ hshared b hb hbo (hsame ▸ ha)) hao
      · rw [outputName_of_not_has hao, outputName_of_not_has hbo] at hsame
        exact hsame

/-- Names of different operands get different output names exactly if no prefixed name meets one that
the other operand declares alone. -/
theorem disjoint_outputNames_iff (left right : Properties) :
    (∀ a ∈ left.names.map (outputName .left right), ∀ b ∈ right.names.map (outputName .right left),
        a ≠ b) ↔
      ∀ name, left.has name = true → right.has name = true →
        (right.has (Side.left.prefixed name) = true → left.has (Side.left.prefixed name) = true) ∧
        (left.has (Side.right.prefixed name) = true → right.has (Side.right.prefixed name) = true) := by
  simp only [List.forall_mem_map, ← Fields.has_iff_mem_names]
  constructor
  · intro hdisjoint name hleft hright
    constructor
    · intro hprefixed
      by_cases h : left.has (Side.left.prefixed name) = true
      · exact h
      · exact absurd ((outputName_of_has hright .left).trans (outputName_of_not_has h .right).symm)
          (hdisjoint name hleft _ hprefixed)
    · intro hprefixed
      by_cases h : right.has (Side.right.prefixed name) = true
      · exact h
      · exact absurd ((outputName_of_not_has h .left).trans (outputName_of_has hleft .right).symm)
          (hdisjoint _ hprefixed name hright)
  · intro hshared a ha b hb hsame
    by_cases hao : right.has a = true
    · by_cases hbo : left.has b = true
      · rw [outputName_of_has hao, outputName_of_has hbo] at hsame
        exact Side.prefixed_left_ne_right a b hsame
      · rw [outputName_of_has hao, outputName_of_not_has hbo] at hsame
        exact hbo (hsame ▸ (hshared a ha hao).1 (hsame ▸ hb))
    · by_cases hbo : left.has b = true
      · rw [outputName_of_not_has hao, outputName_of_has hbo] at hsame
        exact hao (hsame ▸ (hshared b hbo hb).2 (hsame ▸ ha))
      · rw [outputName_of_not_has hao, outputName_of_not_has hbo] at hsame
        exact hao (hsame ▸ hb)

/-- Output names are distinct exactly if prefixed names are shared. -/
theorem nodup_outputNames_iff {left right : Properties} (hl : left.names.Nodup)
    (hr : right.names.Nodup) :
    ((entries left right).map Prod.fst).Nodup ↔ PrefixesAgree left right := by
  rw [outputNames_eq, List.nodup_append, nodup_map_outputName_iff .left hl,
    nodup_map_outputName_iff .right hr, disjoint_outputNames_iff]
  constructor
  · rintro ⟨hleft, hright, hboth⟩ name hl hr side
    apply Bool.eq_iff_iff.mpr
    cases side with
    | left => exact ⟨hleft name hl hr, (hboth name hl hr).1⟩
    | right => exact ⟨(hboth name hl hr).2, hright name hr hl⟩
  · intro hagree
    refine ⟨fun name hl hr h => ?_, fun name hr hl h => ?_, fun name hl hr => ⟨fun h => ?_, fun h => ?_⟩⟩
    · exact (hagree name hl hr .left) ▸ h
    · exact (hagree name hl hr .right) ▸ h
    · exact (hagree name hl hr .left) ▸ h
    · exact (hagree name hl hr .right) ▸ h

/-! ## What is kept -/

/-- A property of an operand is the origin of an output name. -/
def ComesFrom (schema : MergedSchema) (output : String) (side : Side) (name : String) : Prop :=
  ∃ tag, schema.get? output = some ⟨tag, name, side⟩

/-- The side and the name of each origin. -/
def sources (schema : List (String × Origin)) : List (Side × String) :=
  schema.map fun entry => (entry.2.side, entry.2.sourceName)

theorem sources_entries (left right : Properties) :
    sources (entries left right) =
      left.names.map (Prod.mk Side.left) ++ right.names.map (Prod.mk Side.right) := by
  simp [sources, entries, sideEntries, Fields.names, Function.comp_def]

theorem mem_sources_entries {left right : Properties} {side : Side} {name : String} :
    (side, name) ∈ sources (entries left right) ↔ (side.of left right).has name = true := by
  rw [sources_entries, Fields.has_iff_mem_names]
  cases side <;> simp [Side.of]

theorem nodup_sources_entries {left right : Properties} (hl : left.names.Nodup)
    (hr : right.names.Nodup) : (sources (entries left right)).Nodup := by
  rw [sources_entries, List.nodup_append]
  refine ⟨hl.map fun _ _ h => (Prod.mk.inj h).2, hr.map fun _ _ h => (Prod.mk.inj h).2, ?_⟩
  intro a ha b hb hsame
  obtain ⟨_, _, rfl⟩ := List.mem_map.mp ha
  obtain ⟨_, _, rfl⟩ := List.mem_map.mp hb
  cases hsame

theorem get?_mergeTuples {schema : MergedSchema} {name : String} {origin : Origin}
    (h : schema.get? name = some origin) (left : Tuple) (right : Option Tuple) :
    (schema.mergeTuples left right).get? name = some (valueOf left right origin) := by
  have hmap := Fields.get?_map (valueOf left right) schema name
  rw [h] at hmap
  exact hmap

/-- The tuple that a value comes from, if there is one. -/
theorem valueOf_eq (left : Tuple) (right : Option Tuple) (origin : Origin) :
    valueOf left right origin =
      ((origin.side.of (some left) right).bind (Fields.get? · origin.sourceName)).getD .null := by
  rw [valueOf]
  cases origin.side <;> rfl

/-- Every property of an operand is the origin of some output name. -/
def KeepsSources (left right : Properties) : Prop :=
  ∀ side name, (side.of left right).has name = true →
    ∃ output, ComesFrom (merge left right) output side name

/-- Every property of an operand is the origin of exactly one output name. -/
def KeepsSourcesOnce (left right : Properties) : Prop :=
  ∀ side name, (side.of left right).has name = true →
    ∃! output, ComesFrom (merge left right) output side name

/-- Every value that a tuple has under a declared property is in the merged tuple. -/
def KeepsValues (left right : Properties) : Prop :=
  ∀ (l : Tuple) (r : Option Tuple) (side : Side) (source : Tuple) (name : String) (value : Json),
    side.of (some l) r = some source → (side.of left right).has name = true →
      source.get? name = some value → value ∈ ((merge left right).mergeTuples l r).map Prod.snd

/-- If no property is lost, there are as many output names as properties. -/
theorem length_merge_of_keepsSources {left right : Properties} (hl : left.names.Nodup)
    (hr : right.names.Nodup) (h : KeepsSources left right) :
    (merge left right).length = left.length + right.length := by
  have hsubset : sources (entries left right) ⊆ sources (merge left right) := by
    rintro ⟨side, name⟩ hmem
    obtain ⟨output, tag, houtput⟩ := h side name (mem_sources_entries.mp hmem)
    exact List.mem_map.mpr ⟨_, Fields.mem_of_get?_eq_some houtput, rfl⟩
  -- the origins are distinct, so that each of them needs an output name of its own
  have hge := (List.subperm_of_subset (nodup_sources_entries hl hr) hsubset).length_le
  have hle := Fields.length_ofPairs_le (entries left right)
  rw [← merge_eq_ofPairs, length_entries] at hle
  simp only [sources, List.length_map, length_entries] at hge
  omega

theorem eq_of_valueOf_single {side : Side} {name : String} {origin : Origin}
    (h : valueOf (side.of [(name, .bool true)] []) (some (side.of [] [(name, .bool true)])) origin =
      .bool true) : origin.side = side ∧ origin.sourceName = name := by
  obtain ⟨tag, source, other⟩ := origin
  have hname : ((Fields.get? [(name, Json.bool true)] source).getD .null) = .bool true →
      source = name := by
    intro hget
    by_cases hsame : name = source
    · exact hsame.symm
    · simp [Fields.get?, hsame] at hget
  rw [valueOf_eq] at h
  cases side with
  | left =>
    cases other with
    | left => exact ⟨rfl, hname h⟩
    | right => cases h
  | right =>
    cases other with
    | left => cases h
    | right => exact ⟨rfl, hname h⟩

theorem keepsSources_of_keepsValues {left right : Properties} (h : KeepsValues left right) :
    KeepsSources left right := by
  intro side name hname
  -- a tuple with a value under this name alone, while the other tuple is empty
  have hvalue := h (side.of [(name, .bool true)] []) (some (side.of [] [(name, .bool true)])) side
    [(name, .bool true)] name (.bool true) (by cases side <;> rfl) hname (by simp [Fields.get?])
  obtain ⟨entry, hentry, hsnd⟩ := List.mem_map.mp hvalue
  obtain ⟨⟨output, origin⟩, horigin, rfl⟩ := List.mem_map.mp hentry
  obtain ⟨hside, hsource⟩ := eq_of_valueOf_single hsnd
  obtain ⟨tag, source, other⟩ := origin
  subst hside hsource
  have hdistinct : (merge left right).names.Nodup := by
    rw [merge_eq_ofPairs]
    exact Fields.nodup_names_ofPairs _
  exact ⟨output, tag, (Fields.get?_eq_some_iff hdistinct).mpr horigin⟩

/-- With distinct output names the merged schema is the list of all properties. -/
theorem merge_eq_entries {left right : Properties} (h : ((entries left right).map Prod.fst).Nodup) :
    merge left right = entries left right := by
  rw [merge_eq_ofPairs, Fields.ofPairs_eq_self h]

theorem exists_mem_entries {left right : Properties} {side : Side} {name : String}
    (h : (side.of left right).has name = true) :
    ∃ output tag, (output, Origin.mk tag name side) ∈ entries left right := by
  obtain ⟨⟨output, tag, source, side'⟩, hmem, hsource⟩ :=
    List.mem_map.mp (mem_sources_entries.mpr h)
  cases hsource
  exact ⟨output, tag, hmem⟩

theorem keepsSourcesOnce_of_nodup {left right : Properties} (hl : left.names.Nodup)
    (hr : right.names.Nodup) (h : ((entries left right).map Prod.fst).Nodup) :
    KeepsSourcesOnce left right := by
  intro side name hname
  obtain ⟨output, tag, hmem⟩ := exists_mem_entries hname
  refine ⟨output, ⟨tag, ?_⟩, ?_⟩
  · rw [merge_eq_entries h]
    exact (Fields.get?_eq_some_iff h).mpr hmem
  · rintro other ⟨otherTag, hother⟩
    rw [merge_eq_entries h, Fields.get?_eq_some_iff h] at hother
    have hsame := List.inj_on_of_nodup_map (nodup_sources_entries hl hr) hother hmem rfl
    exact (Prod.mk.inj hsame).1

theorem keepsValues_of_nodup {left right : Properties}
    (h : ((entries left right).map Prod.fst).Nodup) : KeepsValues left right := by
  intro l r side source name value hsource hname hvalue
  obtain ⟨output, tag, hmem⟩ := exists_mem_entries hname
  have hget : (merge left right).get? output = some ⟨tag, name, side⟩ := by
    rw [merge_eq_entries h]
    exact (Fields.get?_eq_some_iff h).mpr hmem
  have hmerged := get?_mergeTuples hget l r
  have hsome : valueOf l r ⟨tag, name, side⟩ = value := by
    rw [valueOf_eq, hsource, Option.bind_some, hvalue, Option.getD_some]
  rw [hsome] at hmerged
  exact List.mem_map.mpr ⟨_, Fields.mem_of_get?_eq_some hmerged, rfl⟩

/-- Merging keeps every property, and with it every declared value of a pair of tuples, exactly if the
prefixed forms of a name that both operands declare are declared by both or by neither. -/
theorem merge_keeps_iff_prefixesAgree {left right : Properties} (hl : left.names.Nodup)
    (hr : right.names.Nodup) :
    ((merge left right).length = left.length + right.length ↔ PrefixesAgree left right) ∧
      (KeepsSourcesOnce left right ↔ PrefixesAgree left right) ∧
      (KeepsValues left right ↔ PrefixesAgree left right) := by
  have hlength : (merge left right).length = left.length + right.length ↔
      PrefixesAgree left right := by
    rw [merge_eq_ofPairs, ← length_entries, Fields.length_ofPairs_eq_iff]
    exact nodup_outputNames_iff hl hr
  have hkept : KeepsSources left right → PrefixesAgree left right :=
    fun h => hlength.mp (length_merge_of_keepsSources hl hr h)
  refine ⟨hlength, ⟨?_, ?_⟩, ⟨?_, ?_⟩⟩
  · intro h
    exact hkept fun side name hname => (h side name hname).exists
  · intro h
    exact keepsSourcesOnce_of_nodup hl hr ((nodup_outputNames_iff hl hr).mpr h)
  · intro h
    exact hkept (keepsSources_of_keepsValues h)
  · intro h
    exact keepsValues_of_nodup ((nodup_outputNames_iff hl hr).mpr h)

/-- Three properties, two of which meet at one output name. -/
theorem merge_loses_shared_name :
    ¬(merge [("x", .string), ("s1_x", .string)] [("x", .string)]).length =
      [("x", TypeTag.string), ("s1_x", TypeTag.string)].length + [("x", TypeTag.string)].length := by
  decide

/-- If the left operand declares `s1_x` beside a shared name `x`, values of `x` are lost. -/
theorem merge_loses_values_of_shared_name :
    (Fields.names [("x", TypeTag.string), ("s1_x", TypeTag.string)]).Nodup ∧
      (Fields.names [("x", TypeTag.string)]).Nodup ∧
      ¬KeepsValues [("x", .string), ("s1_x", .string)] [("x", .string)] := by
  have hl : (Fields.names [("x", TypeTag.string), ("s1_x", TypeTag.string)]).Nodup := by decide
  have hr : (Fields.names [("x", TypeTag.string)]).Nodup := by decide
  refine ⟨hl, hr, fun h => ?_⟩
  have hagree := (merge_keeps_iff_prefixesAgree hl hr).2.2.mp h
  exact absurd (hagree "x" (by decide) (by decide) .left) (by decide)

end MergedSchema

end TableQuery
