/-!
# White space

`isBlank` is the Unicode property `White_Space`.  The query language skips such characters between
tokens, and texts are trimmed of them before they are read as numbers or type tags.  `trim` cuts
both ends and nothing inside.
-/

namespace TableQuery.Text

/-- A character with the property `White_Space`. -/
def isBlank (c : Char) : Bool :=
  let n := c.toNat
  (9 ≤ n && n ≤ 13) || n == 0x20 || n == 0x85 || n == 0xA0 || n == 0x1680 ||
    (0x2000 ≤ n && n ≤ 0x200A) || n == 0x2028 || n == 0x2029 || n == 0x202F || n == 0x205F ||
    n == 0x3000

/-- A list without the white space at its end. -/
def trimEnd (cs : List Char) : List Char := (cs.reverse.dropWhile isBlank).reverse

/-- A list without the white space at either end. -/
def trim (cs : List Char) : List Char := trimEnd (cs.dropWhile isBlank)

/-- A text without the white space at either end. -/
def trimmed (s : String) : String := String.ofList (trim s.toList)

/-! ## What trimming leaves alone -/

@[simp] theorem trim_nil : trim [] = [] := rfl

/-- Nothing is cut from a text whose two ends are not white space. -/
theorem trim_eq_self {cs : List Char} (hd : ∀ c, cs.head? = some c → isBlank c = false)
    (tl : ∀ c, cs.getLast? = some c → isBlank c = false) : trim cs = cs := by
  have front : cs.dropWhile isBlank = cs := by
    cases cs with
    | nil => rfl
    | cons c r => simp [hd c rfl]
  have back : cs.reverse.dropWhile isBlank = cs.reverse := by
    cases h : cs.reverse with
    | nil => rfl
    | cons c r =>
      have : cs.getLast? = some c := by rw [← List.head?_reverse, h]; rfl
      simp [tl c this]
  rw [trim, front, trimEnd, back, List.reverse_reverse]

end TableQuery.Text
