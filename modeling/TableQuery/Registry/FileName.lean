import TableQuery.Text.Utf8

/-!
# File names

A path is a sequence of bytes, and these need not be UTF-8.  The name of a file is the last part of its
path; a path that ends in `..`, or has no parts at all, names no file.  The name splits at its last point
into a stem and an extension, unless the point is its first byte or there is none.  One of the two may be a
text where the other one is not.
-/

namespace TableQuery

/-- The path of a file. -/
abbrev Path := List UInt8

namespace Path

/-- The path that a text is. -/
def ofText (text : String) : Path := Utf8.encode text.toList

/-- A path as it is shown. -/
def text (path : Path) : String := String.ofList (Utf8.decode path)

end Path

namespace FileName

/-- What stands between the parts of a path. -/
def slash : UInt8 := '/'.toUInt8

/-- What stands before an extension. -/
def point : UInt8 := '.'.toUInt8

/-- The name of the file of a path. -/
def ofPath? (path : Path) : Option (List UInt8) :=
  let parts := (path.splitOn slash).filter fun part => !part.isEmpty && part != [point]
  parts.getLast?.filter fun name => name != [point, point]

/-- The bytes before and after the last point. -/
def splitAtPoint (name : List UInt8) : List UInt8 × Option (List UInt8) :=
  match name.reverse.span (· != point) with
  | (after, _ :: before) => if before.isEmpty then (name, none) else (before.reverse, some after.reverse)
  | (_, []) => (name, none)

/-- The stem of the file of a path, if it is a text. -/
def stem? (path : Path) : Option String :=
  (ofPath? path).bind fun name => Utf8.text? (splitAtPoint name).1

/-- The extension of the file of a path, if it is a text. -/
def extension? (path : Path) : Option String :=
  (ofPath? path).bind fun name => (splitAtPoint name).2.bind Utf8.text?

example : stem? (.ofText "a.b.json") = some "a.b" ∧ extension? (.ofText "a.b.json") = some "json" := by
  decide +kernel
example : stem? (.ofText ".hidden") = some ".hidden" ∧ extension? (.ofText ".hidden") = none := by
  decide +kernel
example : stem? (.ofText "x.") = some "x" ∧ extension? (.ofText "x.") = some "" := by decide +kernel
example : stem? (.ofText "a/..") = none ∧ stem? (.ofText "/") = none ∧ stem? [] = none := by decide +kernel
example : stem? (0xFF :: Path.ofText ".json") = none := by decide +kernel
example : extension? (0xFF :: Path.ofText ".json") = some "json" := by decide +kernel

end FileName

end TableQuery
