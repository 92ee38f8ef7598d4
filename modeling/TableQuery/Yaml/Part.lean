import TableQuery.Document
import TableQuery.Yaml.Reader

/-!
# Parts of YAML documents

A part of a document is a node and how deep nodes may nest in it.  Every scalar is a text where one is
expected, and a plain scalar without characters is an empty mapping or list where one of these is.
Records are mappings here.
-/

namespace TableQuery.Yaml

/-- Sequences and mappings nest at most this deep. -/
def maxDepth : Nat := 128

/-- A part of a document. -/
structure Part where
  node : Node
  /-- How deep nodes may nest in it. -/
  levels : Nat := maxDepth

namespace Part

/-- The text of a part that is a scalar. -/
def text? (part : Part) : Option String := part.node.text?

/-- The number below a bound that a part without quotes is. -/
def unsigned? (bound : Nat) (part : Part) : Option Nat :=
  match part.node with
  | .scalar true text => Yaml.unsigned? bound text
  | _ => none

/-- The items of a part that is a list. -/
def items? (part : Part) : Option (List Part) :=
  match part.levels, part.node with
  | levels + 1, .sequence items => some (items.map fun node => ⟨node, levels⟩)
  | _, .scalar true [] => some []
  | _, _ => none

/-- The members of a part that is a mapping, repeated ones included; every key has to be a scalar. -/
def members? (part : Part) : Option (List (String × Part)) :=
  match part.levels, part.node with
  | levels + 1, .mapping entries =>
    entries.mapM fun (key, node) => key.text?.map fun name => (name, ⟨node, levels⟩)
  | _, .scalar true [] => some []
  | _, _ => none

end Part

/-- The whole of a document that is read from a text. -/
def document? (text : String) : Option Part := (parse? text.toList).map fun node => { node }

/-- YAML documents. -/
def format : Format Part where
  isNull part := match part.node with
    | .scalar true text => text.isEmpty || spellsNull text
    | _ => false
  text? := Part.text?
  choice? := Part.text?
  members? := Part.members?
  items? := Part.items?
  unsigned? := Part.unsigned?
  value? part := part.node.value? part.levels
  isList _ := false

/-- A reader of YAML documents: of those without anchors, tags and block scalars. -/
def reader : DocumentReader where
  Node := Part
  format := format
  document? := document?
  complaint _ := "no YAML of the right form"

end TableQuery.Yaml
