import TableQuery.Text.Blank

/-!
# What trimming keeps

What is left after trimming does not start or end with white space, so trimming it again cuts nothing
(`trim_trim`).  All other characters are kept, in their order (`visible_trim`).
-/

namespace TableQuery.Text

/-- The characters of a text that are not white space. -/
def visible (cs : List Char) : List Char := cs.filter fun c => !isBlank c

variable {cs front back : List Char} {c mark : Char}

@[simp] theorem visible_nil : visible [] = [] := rfl

@[simp] theorem visible_append (front back : List Char) :
    visible (front ++ back) = visible front ++ visible back := List.filter_append ..

theorem visible_cons_of_isBlank (h : isBlank c = true) (cs : List Char) :
    visible (c :: cs) = visible cs := List.filter_cons_of_neg (by simp [h])

theorem visible_cons (h : isBlank c = false) (cs : List Char) :
    visible (c :: cs) = c :: visible cs := List.filter_cons_of_pos (by simp [h])

theorem visible_dropWhile (cs : List Char) : visible (cs.dropWhile isBlank) = visible cs := by
  induction cs with
  | nil => rfl
  | cons c cs ih =>
    cases hblank : isBlank c with
    | true => rw [List.dropWhile_cons_of_pos hblank, ih, visible_cons_of_isBlank hblank]
    | false => rw [List.dropWhile_cons_of_neg (by simp [hblank])]

/-- Trimming cuts only white space. -/
@[simp] theorem visible_trim (cs : List Char) : visible (trim cs) = visible cs := by
  have hreverse : ∀ cs : List Char, visible cs.reverse = (visible cs).reverse :=
    fun _ => List.filter_reverse
  rw [trim, trimEnd, hreverse, visible_dropWhile, hreverse, List.reverse_reverse, visible_dropWhile]

theorem isBlank_of_head?_dropWhile (h : (cs.dropWhile isBlank).head? = some c) :
    isBlank c = false := by
  have hhead := List.head?_dropWhile_not isBlank cs
  rw [h] at hhead
  simpa using hhead

theorem getLast?_trim (h : (trim cs).getLast? = some c) : isBlank c = false := by
  rw [trim, trimEnd, List.getLast?_reverse] at h
  exact isBlank_of_head?_dropWhile h

theorem trim_prefix_dropWhile (cs : List Char) : trim cs <+: cs.dropWhile isBlank := by
  rw [trim, trimEnd, ← List.reverse_suffix, List.reverse_reverse]
  exact List.dropWhile_suffix _

theorem trim_sublist (cs : List Char) : (trim cs).Sublist cs :=
  (trim_prefix_dropWhile cs).sublist.trans (List.dropWhile_sublist _)

theorem head?_trim (h : (trim cs).head? = some c) : isBlank c = false := by
  obtain ⟨cut, hcut⟩ := trim_prefix_dropWhile cs
  have hhead : (cs.dropWhile isBlank).head? = some c := by
    rw [← hcut, List.head?_append, h]
    rfl
  exact isBlank_of_head?_dropWhile hhead

@[simp] theorem trim_trim (cs : List Char) : trim (trim cs) = trim cs :=
  trim_eq_self (fun _ => head?_trim) (fun _ => getLast?_trim)

/-- Trimming leaves nothing of white space alone. -/
theorem trim_eq_nil_iff : trim cs = [] ↔ visible cs = [] := by
  constructor
  · intro h
    rw [← visible_trim, h, visible_nil]
  · intro h
    cases htrim : trim cs with
    | nil => rfl
    | cons c rest =>
      have hhead : (trim cs).head? = some c := by
        rw [htrim]
        rfl
      have hblank := head?_trim hhead
      rw [← visible_trim, htrim, visible_cons hblank] at h
      cases h

/-! ## Texts that are trimmed -/

/-- A text between two characters that are not white space is trimmed. -/
theorem trim_between {first last : Char} (hfirst : isBlank first = false)
    (hlast : isBlank last = false) (cs : List Char) :
    trim (first :: (cs ++ [last])) = first :: (cs ++ [last]) := by
  apply trim_eq_self
  · rintro _ ⟨⟩
    exact hfirst
  · intro c hc
    rw [← List.cons_append, List.getLast?_concat] at hc
    cases hc
    exact hlast

/-- Two trimmed texts with a mark between them are trimmed. -/
theorem trim_append_mark (hmark : isBlank mark = false) (hfront : trim front = front)
    (hback : trim back = back) : trim (front ++ mark :: back) = front ++ mark :: back := by
  apply trim_eq_self
  · intro c hc
    rw [List.head?_append] at hc
    cases hhead : front.head? with
    | none =>
      rw [hhead] at hc
      cases hc
      exact hmark
    | some first =>
      rw [hhead] at hc
      cases hc
      exact head?_trim (hfront.symm ▸ hhead)
  · intro c hc
    rw [List.getLast?_append, List.getLast?_cons] at hc
    cases hlast : back.getLast? with
    | none =>
      rw [hlast] at hc
      cases hc
      exact hmark
    | some last =>
      rw [hlast] at hc
      cases hc
      exact getLast?_trim (hback.symm ▸ hlast)

end TableQuery.Text
