/-!
# Places in YAML text

A line ends with a line feed, a line separator or a paragraph separator.  A carriage return and a
next-line character are read as line feeds (`withLineFeeds`) before anything else is.

A place is a line, a column and the bytes of the line that lie before it.  Columns tell which collection
a line belongs to, and bytes how long a key is.
-/

namespace TableQuery.Yaml

/-! ## Characters -/

/-- A text in which a carriage return, a carriage return with its line feed and a next-line character
are line feeds. -/
def withLineFeeds : List Char → List Char
  | [] => []
  | '\r' :: '\n' :: rest => '\n' :: withLineFeeds rest
  | '\r' :: rest => '\n' :: withLineFeeds rest
  | '\u0085' :: rest => '\n' :: withLineFeeds rest
  | c :: rest => c :: withLineFeeds rest

/-- Whether a character may stand in a document. -/
def isPrintable (c : Char) : Bool :=
  let n := c.toNat
  n == 9 || n == 10 || n == 13 || (0x20 ≤ n && n ≤ 0x7E) || n == 0x85 ||
    (0xA0 ≤ n && n ≤ 0xFFFD) || 0x10000 ≤ n

/-- Whether a character ends a line. -/
def isBreak (c : Char) : Bool := c == '\n' || c == '\u2028' || c == '\u2029'

/-- White space within a line. -/
def isGap (c : Char) : Bool := c == ' ' || c == '\t'

/-- Whether a text is at its end, or at white space or a line break. -/
def atGap : List Char → Bool
  | [] => true
  | c :: _ => isGap c || isBreak c

/-- Whether a character separates, opens or closes flow collections. -/
def isFlowMark (c : Char) : Bool :=
  c == ',' || c == '[' || c == ']' || c == '\x7b' || c == '\x7d'

/-- Whether a line starts or ends a document. -/
def isDocumentMark : List Char → Bool
  | '-' :: '-' :: '-' :: rest => atGap rest
  | '.' :: '.' :: '.' :: rest => atGap rest
  | _ => false

/-! ## Places -/

/-- A place in a text. -/
structure Place where
  /-- The lines before it. -/
  line : Nat := 0
  /-- The characters of its line before it. -/
  column : Nat := 0
  /-- The bytes of these characters. -/
  bytes : Nat := 0
  deriving DecidableEq

/-- The place after a character. -/
def Place.after (place : Place) (c : Char) : Place :=
  if isBreak c then ⟨place.line + 1, 0, 0⟩
  else ⟨place.line, place.column + 1, place.bytes + c.utf8Size⟩

/-- What is left of a text, and where it starts. -/
structure Cursor where
  rest : List Char
  /-- The place of its first character. -/
  place : Place := {}

/-- The cursor so many characters further on. -/
def Cursor.skip (count : Nat) (cursor : Cursor) : Cursor :=
  ⟨cursor.rest.drop count, (cursor.rest.take count).foldl Place.after cursor.place⟩

/-- Whether a document mark stands at a place: it has to be at the start of its line. -/
def startsMark (place : Place) (rest : List Char) : Bool := place.column == 0 && isDocumentMark rest

end TableQuery.Yaml
