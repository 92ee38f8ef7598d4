import TableQuery.Proofs.Operator.Row
import TableQuery.Proofs.Schema.CommaList

/-!
# Tags that are read back

A tag that was read from a text is read again from the text that it is written as
(`TypeTag.ofText_text_of_ofText`).  The tags of which this is true are the legible ones
(`TypeTag.ofText_text_iff`).  White space must not be at the ends of names, values and geometries, no
field name has a colon, and commas keep the values of an enumeration and the fields of an object apart.

`Reads` says how a text is read as a tag, given how the tags inside are read; it has one constructor for
each way.  A tag and the text it was read from differ in white space only (`visible_of_read`).  White
space does not keep apart the fields of an object, so they stay apart when they are written.

Reading is a recursion on fuel, which lasts: more of it changes nothing (`read_eq_of_length_lt`).
-/

namespace TableQuery.TypeTag

open Text (isBlank visible trim)

variable {cs front back : List Char} {mark : Char}

/-! ## Cutting a text -/

theorem cutAt?_append (h : mark ∉ front) (back : List Char) :
    cutAt? mark (front ++ mark :: back) = some (front, back) := by
  induction front with
  | nil => simp [cutAt?]
  | cons c front ih =>
    obtain ⟨hne, hfront⟩ := List.ne_and_not_mem_of_not_mem_cons h
    rw [List.cons_append, cutAt?, if_neg (Ne.symm hne), ih hfront]
    rfl

theorem append_of_cutAt? (h : cutAt? mark cs = some (front, back)) :
    cs = front ++ mark :: back ∧ mark ∉ front := by
  induction cs generalizing front with
  | nil => cases h
  | cons c cs ih =>
    rw [cutAt?] at h
    split at h
    next hmark =>
      cases h
      exact ⟨by rw [hmark, List.nil_append], List.not_mem_nil⟩
    next hmark =>
      obtain ⟨⟨before, behind⟩, hcut, heq⟩ := Option.map_eq_some_iff.mp h
      cases heq
      obtain ⟨rfl, hnone⟩ := ih hcut
      exact ⟨rfl, List.not_mem_cons_of_ne_of_not_mem (Ne.symm hmark) hnone⟩

theorem dropLast?_append (front : List Char) (mark : Char) :
    dropLast? mark (front ++ [mark]) = some front := by
  simp [dropLast?]

theorem append_of_dropLast? (h : dropLast? mark cs = some front) : cs = front ++ [mark] := by
  rw [dropLast?] at h
  split at h
  next => cases h
  next c rest hreverse =>
    split at h
    next hmark =>
      cases h
      rw [List.reverse_eq_cons_iff.mp hreverse, hmark]
    next => cases h

/-! ## Reading one tag -/

/-- The text of a constructor with something in parentheses. -/
def framed (name : String) (inner : List Char) : List Char := name.toList ++ '(' :: (inner ++ [')'])

/-- Whether a tag is a word. -/
def isPlain : TypeTag → Bool
  | string | number | integer | boolean | unknown => true
  | enum _ | array _ | object _ | geoJson _ => false

variable {readInner : List Char → Except Fault TypeTag} {fuel : Nat} {tag : TypeTag}

/-- A part of an object is read as a field: its name is cut off at the first colon. -/
inductive ReadsField (readInner : List Char → Except Fault TypeTag) :
    List Char → String × TypeTag → Prop where
  | intro {name inner : List Char} {tag : TypeTag} : ':' ∉ name → readInner inner = .ok tag →
      ReadsField readInner (name ++ ':' :: inner) (String.ofList (trim name), tag)

/-- A trimmed text is read as a tag, given how the tags inside are read. -/
inductive Reads (readInner : List Char → Except Fault TypeTag) : List Char → TypeTag → Prop where
  | plain {text : List Char} {tag : TypeTag} : tag.isPlain = true → text = tag.toChars →
      Reads readInner text tag
  | enum (inner : List Char) :
      Reads readInner (framed "enum" inner) (enum ((parts inner).map String.ofList))
  | array {inner : List Char} {item : TypeTag} : readInner inner = .ok item →
      Reads readInner (framed "array" inner) (array item)
  | geoJson (inner : List Char) :
      Reads readInner (framed "GeoJSON" inner) (geoJson (String.ofList (trim inner)))
  | object {inner : List Char} {fields : List (String × TypeTag)} :
      List.Forall₂ (ReadsField readInner) (parts inner) fields →
      Reads readInner (framed "object" inner) (object fields)

theorem mapM_eq_ok_iff {α β : Type} {f : α → Except Fault β} {items : List α} {results : List β} :
    items.mapM f = .ok results ↔ List.Forall₂ (fun item result => f item = .ok result) items results := by
  induction items generalizing results with
  | nil =>
    rw [List.mapM_nil, List.forall₂_nil_left_iff]
    exact ⟨fun h => (Except.ok.inj h).symm, fun h => congrArg Except.ok h.symm⟩
  | cons item items ih =>
    rw [List.mapM_cons, bind_eq_ok_iff]
    simp only [bind_eq_ok_iff, ih, List.forall₂_cons_left_iff]
    constructor
    · rintro ⟨result, hitem, rest, hrest, heq⟩
      exact ⟨result, rest, hitem, hrest, (Except.ok.inj heq).symm⟩
    · rintro ⟨result, rest, hitem, hrest, rfl⟩
      exact ⟨result, hitem, rest, hrest, rfl⟩

/-- Every tag is read in one of these ways. -/
theorem reads_of_read (h : read (fuel + 1) cs = .ok tag) : Reads (read fuel) (trim cs) tag := by
  rw [read] at h
  generalize trim cs = text at h ⊢
  split at h
  next =>
    -- without a parenthesis it is one of the words
    repeat' split at h
    all_goals cases h
    all_goals
      rename_i htext
      exact .plain rfl htext
  next name rest hcut =>
    obtain ⟨rfl, -⟩ := append_of_cutAt? hcut
    split at h
    next => cases h
    next inner hinner =>
      cases append_of_dropLast? hinner
      split at h
      next hname =>
        subst hname
        cases h
        exact .enum inner
      split at h
      next hname =>
        subst hname
        obtain ⟨item, hitem, rfl⟩ := map_eq_ok_iff.mp h
        exact .array hitem
      split at h
      next hname =>
        subst hname
        cases h
        exact .geoJson inner
      split at h
      next hname =>
        subst hname
        obtain ⟨fields, hfields, rfl⟩ := map_eq_ok_iff.mp h
        refine .object ((mapM_eq_ok_iff.mp hfields).imp ?_)
        intro part field hfield
        split at hfield
        next => cases hfield
        next name inner hcut =>
          obtain ⟨rfl, hname⟩ := append_of_cutAt? hcut
          obtain ⟨tag, htag, rfl⟩ := map_eq_ok_iff.mp hfield
          exact .intro hname htag
      next => cases h

theorem cutAt?_framed {name : String} (h : '(' ∉ name.toList) (inner : List Char) :
    cutAt? '(' (framed name inner) = some (name.toList, inner ++ [')']) := cutAt?_append h _

theorem read_of_reads (h : Reads (read fuel) (trim cs) tag) : read (fuel + 1) cs = .ok tag := by
  generalize htext : trim cs = text at h
  rw [read, htext]
  cases h with
  | plain hplain htoChars =>
    subst htoChars
    cases tag with
    | string | number | integer | boolean | unknown => rfl
    | enum | array | object | geoJson => cases hplain
  | enum inner =>
    rw [cutAt?_framed (by decide)]
    simp [dropLast?_append]
  | array hinner =>
    rw [cutAt?_framed (by decide)]
    simp [dropLast?_append, hinner, Except.map]
  | geoJson inner =>
    rw [cutAt?_framed (by decide)]
    simp [dropLast?_append]
  | object hfields =>
    rw [cutAt?_framed (by decide)]
    simp only [dropLast?_append]
    rw [if_neg (by decide), if_neg (by decide), if_neg (by decide), if_pos trivial]
    refine map_eq_ok_iff.mpr ⟨_, mapM_eq_ok_iff.mpr (hfields.imp fun part field hfield => ?_), rfl⟩
    cases hfield with
    | intro hname htag =>
      rw [cutAt?_append hname]
      exact map_eq_ok_iff.mpr ⟨_, htag, rfl⟩

/-! ## The fuel lasts -/

theorem mapM_congr {α β : Type} {f g : α → Except Fault β} {items : List α}
    (h : ∀ item ∈ items, f item = g item) : items.mapM f = items.mapM g := by
  induction items with
  | nil => rfl
  | cons item items ih =>
    obtain ⟨hitem, hitems⟩ := List.forall_mem_cons.mp h
    rw [List.mapM_cons, List.mapM_cons, hitem, ih hitems]

/-- The tags inside of a text are shorter than the text. -/
theorem read_succ_congr {other : Nat}
    (hinner : ∀ inner : List Char, inner.length < cs.length → read fuel inner = read other inner) :
    read (fuel + 1) cs = read (other + 1) cs := by
  have hle := (Text.trim_sublist cs).length_le
  rw [read, read]
  generalize trim cs = text at hle ⊢
  cases hcut : cutAt? '(' text with
  | none => rfl
  | some cut =>
    obtain ⟨name, rest⟩ := cut
    obtain ⟨rfl, -⟩ := append_of_cutAt? hcut
    cases hdrop : dropLast? ')' rest with
    | none => simp only [hdrop]
    | some inner =>
      cases append_of_dropLast? hdrop
      have hlt : inner.length < cs.length := by
        simp only [List.length_append, List.length_cons] at hle
        omega
      simp only [hdrop, hinner inner hlt]
      -- The fields of an object are left.
      congr 5
      refine mapM_congr fun part hpart => ?_
      have hshort := length_le_of_mem_parts hpart
      cases hcolon : cutAt? ':' part with
      | none => rfl
      | some cut =>
        obtain ⟨field, tag⟩ := cut
        obtain ⟨rfl, -⟩ := append_of_cutAt? hcolon
        simp only [List.length_append, List.length_cons] at hshort
        simp only [hinner tag (by omega)]

/-- No tag fails for want of fuel: beyond the length of the text, fuel changes nothing. -/
theorem read_eq_of_length_lt {other : Nat} (hfuel : cs.length < fuel) (hother : cs.length < other) :
    read fuel cs = read other cs := by
  induction fuel generalizing other cs with
  | zero => cases hfuel
  | succ fuel ih =>
    cases other with
    | zero => cases hother
    | succ other => exact read_succ_congr fun inner hlt => ih (by omega) (by omega)

/-! ## What tags are written as -/

/-- The text of a field. -/
def fieldChars (field : String × TypeTag) : List Char := field.1.toList ++ ':' :: field.2.toChars

theorem fieldsChars_eq (fields : List (String × TypeTag)) :
    fieldsChars fields = commaSeparated (fields.map fieldChars) := by
  induction fields with
  | nil => rfl
  | cons field fields ih =>
    obtain ⟨name, tag⟩ := field
    cases fields with
    | nil => rfl
    | cons other fields =>
      rw [List.map_cons, commaSeparated_cons (by simp), ← ih]
      simp [fieldsChars, fieldChars]

theorem toChars_enum (values : List String) :
    (enum values).toChars = framed "enum" (commaSeparated (values.map String.toList)) := rfl

theorem toChars_array (item : TypeTag) : (array item).toChars = framed "array" item.toChars := rfl

theorem toChars_geoJson (geometry : String) :
    (geoJson geometry).toChars = framed "GeoJSON" geometry.toList := rfl

theorem toChars_object (fields : List (String × TypeTag)) :
    (object fields).toChars = framed "object" (commaSeparated (fields.map fieldChars)) := by
  rw [← fieldsChars_eq]
  rfl

theorem trim_toChars (tag : TypeTag) : trim tag.toChars = tag.toChars := by
  cases tag with
  | string | number | integer | boolean | unknown => rfl
  | enum => exact Text.trim_between rfl rfl ("num(".toList ++ _)
  | array => exact Text.trim_between rfl rfl ("rray(".toList ++ _)
  | geoJson => exact Text.trim_between rfl rfl ("eoJSON(".toList ++ _)
  | object => exact Text.trim_between rfl rfl ("bject(".toList ++ _)

/-- The names that a field can have. -/
structure IsFieldName (name : String) : Prop where
  /-- It does not start or end with white space. -/
  trimmed : trim name.toList = name.toList
  /-- The first colon ends the name. -/
  no_colon : ':' ∉ name.toList

/-- The tags that texts can have. -/
inductive Legible : TypeTag → Prop where
  | plain {tag : TypeTag} : tag.isPlain = true → Legible tag
  | enum {values : List String} : IsList (values.map String.toList) → Legible (enum values)
  | array {item : TypeTag} : Legible item → Legible (array item)
  | geoJson {geometry : String} : trim geometry.toList = geometry.toList → Legible (geoJson geometry)
  | object {fields : List (String × TypeTag)} :
      (∀ field ∈ fields, IsFieldName field.1) → (∀ field ∈ fields, Legible field.2) →
      IsList (fields.map fieldChars) → Legible (object fields)

/-! ## What is read -/

theorem map_toList_map_ofList (ps : List (List Char)) :
    (ps.map String.ofList).map String.toList = ps := by
  simp [Function.comp_def]

theorem map_ofList_map_toList (values : List String) :
    (values.map String.toList).map String.ofList = values := by
  simp [Function.comp_def]

theorem visible_framed (name : String) {inner other : List Char} (h : visible inner = visible other) :
    visible (framed name inner) = visible (framed name other) := by
  have hopen : isBlank '(' = false := rfl
  rw [framed, framed, Text.visible_append, Text.visible_append, Text.visible_cons hopen,
    Text.visible_cons hopen, Text.visible_append, Text.visible_append, h]

theorem ReadsField.visible_eq {part : List Char} {field : String × TypeTag}
    (hinner : ∀ cs tag, readInner cs = .ok tag → visible tag.toChars = visible cs)
    (h : ReadsField readInner part field) : visible part = visible (fieldChars field) := by
  cases h with
  | intro hname htag =>
    have hcolon : isBlank ':' = false := rfl
    rw [fieldChars, String.toList_ofList, Text.visible_append, Text.visible_append,
      Text.visible_cons hcolon, Text.visible_cons hcolon, Text.visible_trim, hinner _ _ htag]

theorem forall₂_visible_fieldChars {ps : List (List Char)} {fields : List (String × TypeTag)}
    (hinner : ∀ cs tag, readInner cs = .ok tag → visible tag.toChars = visible cs)
    (h : List.Forall₂ (ReadsField readInner) ps fields) :
    List.Forall₂ (fun p q => visible p = visible q) ps (fields.map fieldChars) :=
  List.forall₂_map_right_iff.mpr (h.imp fun _ _ hfield => hfield.visible_eq hinner)

theorem Reads.visible_eq
    (hinner : ∀ cs tag, readInner cs = .ok tag → visible tag.toChars = visible cs)
    (h : Reads readInner cs tag) : visible tag.toChars = visible cs := by
  cases h with
  | plain _ htoChars => rw [htoChars]
  | enum inner =>
    rw [toChars_enum, map_toList_map_ofList]
    exact visible_framed _ (visible_commaSeparated_parts inner)
  | array hitem =>
    rw [toChars_array]
    exact visible_framed _ (hinner _ _ hitem)
  | geoJson inner =>
    rw [toChars_geoJson, String.toList_ofList]
    exact visible_framed _ (Text.visible_trim inner)
  | @object inner fields hfields =>
    have hsame := forall₂_visible_fieldChars hinner hfields
    rw [toChars_object]
    refine visible_framed _ ?_
    rw [← visible_commaSeparated hsame, visible_commaSeparated_parts]

/-- A tag and the text it was read from differ in white space only. -/
theorem visible_of_read (h : read fuel cs = .ok tag) : visible tag.toChars = visible cs := by
  induction fuel generalizing cs tag with
  | zero => cases h
  | succ fuel ih =>
    rw [(reads_of_read h).visible_eq fun _ _ => ih, Text.visible_trim]

theorem trim_fieldChars {field : String × TypeTag} (h : IsFieldName field.1) :
    trim (fieldChars field) = fieldChars field :=
  Text.trim_append_mark rfl h.trimmed (trim_toChars field.2)

theorem ReadsField.legible {part : List Char} {field : String × TypeTag}
    (hlegible : ∀ cs tag, readInner cs = .ok tag → tag.Legible)
    (h : ReadsField readInner part field) : IsFieldName field.1 ∧ field.2.Legible := by
  cases h with
  | @intro name inner tag hname htag =>
    refine ⟨⟨?_, ?_⟩, hlegible inner tag htag⟩
    · rw [String.toList_ofList, Text.trim_trim]
    · rw [String.toList_ofList]
      exact fun hcolon => hname ((Text.trim_sublist name).subset hcolon)

theorem Reads.legible
    (hvisible : ∀ cs tag, readInner cs = .ok tag → visible tag.toChars = visible cs)
    (hlegible : ∀ cs tag, readInner cs = .ok tag → tag.Legible)
    (h : Reads readInner cs tag) : tag.Legible := by
  cases h with
  | plain hplain _ => exact .plain hplain
  | enum inner =>
    refine .enum ?_
    rw [map_toList_map_ofList]
    exact isList_parts inner
  | array hitem => exact .array (hlegible _ _ hitem)
  | geoJson inner =>
    refine .geoJson ?_
    rw [String.toList_ofList, Text.trim_trim]
  | @object inner fields hfields =>
    have hsame := forall₂_visible_fieldChars hvisible hfields
    have hfield : ∀ field part, flip (ReadsField readInner) field part →
        (IsFieldName field.1 ∧ field.2.Legible) ∧ flip (ReadsField readInner) field part :=
      fun _ _ h => ⟨ReadsField.legible hlegible h, h⟩
    obtain ⟨hall, -⟩ := (List.forall₂_and_left fields _).mp (hfields.flip.imp hfield)
    refine .object (fun field hmem => (hall field hmem).1) (fun field hmem => (hall field hmem).2)
      ((isList_parts inner).of_visible hsame ?_)
    intro piece hpiece
    obtain ⟨field, hmem, rfl⟩ := List.mem_map.mp hpiece
    exact trim_fieldChars (hall field hmem).1

/-- What is read is legible. -/
theorem legible_of_read (h : read fuel cs = .ok tag) : tag.Legible := by
  induction fuel generalizing cs tag with
  | zero => cases h
  | succ fuel ih => exact (reads_of_read h).legible (fun _ _ => visible_of_read) fun _ _ => ih

/-! ## Reading back -/

theorem length_framed (name : String) (inner : List Char) : inner.length < (framed name inner).length := by
  simp [framed]
  omega

/-- A legible tag is read from its text, if the tags inside are. -/
theorem Legible.reads (h : tag.Legible) (hread : ∀ inner : TypeTag, inner.Legible →
      inner.toChars.length < tag.toChars.length → readInner inner.toChars = .ok inner) :
    Reads readInner tag.toChars tag := by
  cases h with
  | plain hplain => exact .plain hplain rfl
  | @enum values hlist =>
    have hreads : Reads readInner (framed "enum" (commaSeparated (values.map String.toList))) _ :=
      .enum _
    rw [hlist.parts_eq, map_ofList_map_toList] at hreads
    exact hreads
  | @array item hitem =>
    rw [toChars_array] at hread ⊢
    exact .array (hread item hitem (length_framed ..))
  | @geoJson geometry htrim =>
    have hreads : Reads readInner (framed "GeoJSON" geometry.toList) _ := .geoJson _
    rw [htrim, String.ofList_toList] at hreads
    exact hreads
  | @object fields hnames htags hlist =>
    rw [toChars_object] at hread ⊢
    refine .object ?_
    rw [hlist.parts_eq, List.forall₂_map_left_iff, List.forall₂_same]
    intro field hfield
    have hinner : readInner field.2.toChars = .ok field.2 := by
      refine hread field.2 (htags field hfield) ?_
      have hle := length_le_commaSeparated (List.mem_map_of_mem (f := fieldChars) hfield)
      have hlt := length_framed "object" (commaSeparated (fields.map fieldChars))
      rw [fieldChars, List.length_append, List.length_cons] at hle
      omega
    have hreads : ReadsField readInner (fieldChars field) _ :=
      .intro (hnames field hfield).no_colon hinner
    rw [(hnames field hfield).trimmed, String.ofList_toList] at hreads
    exact hreads

theorem read_toChars (h : tag.Legible) (hfuel : tag.toChars.length < fuel) :
    read fuel tag.toChars = .ok tag := by
  induction fuel generalizing tag with
  | zero => cases hfuel
  | succ fuel ih =>
    apply read_of_reads
    rw [trim_toChars]
    exact h.reads fun inner hinner hlt => ih hinner (by omega)

/-- A tag is read back from its text exactly if it is legible. -/
theorem ofText_text_iff : ofText tag.text = .ok tag ↔ tag.Legible := by
  rw [ofText, text, String.toList_ofList, String.length_ofList]
  exact ⟨legible_of_read, fun h => read_toChars h (Nat.lt_succ_self _)⟩

/-- A tag that was read is read back from its text. -/
theorem ofText_text_of_ofText {text : String} (h : ofText text = .ok tag) :
    ofText tag.text = .ok tag :=
  ofText_text_iff.mpr (legible_of_read h)

/-- White space, and parentheses in a name and in a value that nothing closes. -/
theorem ofText_text_of_unbalanced :
    ofText "\u3000object( a) : string , b( :enum( x( , y )) " =
        .ok (object [("a)", string), ("b(", enum ["x( , y"])]) ∧
      (object [("a)", string), ("b(", enum ["x( , y"])]).text = "object(a):string,b(:enum(x( , y))" ∧
      ofText "object(a):string,b(:enum(x( , y))" =
        .ok (object [("a)", string), ("b(", enum ["x( , y"])]) := by
  have hread : ofText "\u3000object( a) : string , b( :enum( x( , y )) " =
      .ok (object [("a)", string), ("b(", enum ["x( , y"])]) := rfl
  have htext : (object [("a)", string), ("b(", enum ["x( , y"])]).text =
      "object(a):string,b(:enum(x( , y))" := rfl
  have hback := ofText_text_of_ofText hread
  rw [htext] at hback
  exact ⟨hread, htext, hback⟩

end TableQuery.TypeTag
