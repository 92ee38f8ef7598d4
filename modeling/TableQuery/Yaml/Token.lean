import TableQuery.Yaml.Scalar

/-!
# Tokens of YAML text

The tokens of a document are its scalars and the marks of its structure.  Those of a flow collection are
written.  Those of a block collection follow from columns: it is opened by an entry that stands deeper
than the collection around it, and closed by a token that stands less deep.

Whether a node is a key is known only at the colon after it.  So where a key may start, its place is kept
as a `Candidate` together with the number of tokens before it, and the colon puts `key` there.  A
candidate is given up when a line ends or when it is too long.  At the column of the block collection
around it nothing but an entry may start, and there giving it up is an error.

A question mark announces a key, and then neither the key nor a value has to be there.  It stands apart
from the key in a block, but not in a flow collection.

Keys start where a line starts, after the dash of an item, and after an opening bracket or a comma.
White space may hold tabs except where a key may start in a block.
-/

namespace TableQuery.Yaml

/-- A token of a document. -/
inductive Token where
  | documentStart
  | documentEnd
  /-- The start of a block sequence, before its first item. -/
  | blockSequence
  /-- The start of a block mapping, before its first key. -/
  | blockMapping
  /-- The end of a block collection. -/
  | blockEnd
  | flowSequence
  | flowSequenceEnd
  | flowMapping
  | flowMappingEnd
  /-- The dash before an item. -/
  | item
  | comma
  /-- The start of a key. -/
  | key
  /-- The colon between a key and its value. -/
  | value
  /-- A scalar, and whether it is plain. -/
  | scalar (plain : Bool) (text : List Char)
  deriving DecidableEq

/-- The start of a node that may turn out to be a key. -/
structure Candidate where
  place : Place
  /-- How many tokens come before it. -/
  before : Nat
  /-- Whether nothing but a key may stand there. -/
  required : Bool

/-- The most bytes between the start of a key and its colon. -/
def maxKeyBytes : Nat := 1024

/-- Whether the node can be the key of a colon at the given place. -/
def Candidate.reaches (candidate : Candidate) (colon : Place) : Bool :=
  candidate.place.line == colon.line && colon.bytes ≤ candidate.place.bytes + maxKeyBytes

/-- A document that is read up to a place between tokens. -/
structure Scan where
  cursor : Cursor
  tokens : Array Token := #[]
  /-- The columns of the open block collections, the innermost one first. -/
  columns : List Nat := []
  keyAllowed : Bool := true
  /-- The candidate of the innermost flow collection, or of the block if none is open. -/
  candidate : Option Candidate := none
  /-- The candidates around each open flow collection, the innermost one first. -/
  outer : List (Option Candidate) := []

namespace Scan

/-- Whether a flow collection is open. -/
def inFlow (scan : Scan) : Bool := !scan.outer.isEmpty

/-- The first column that is deeper than the innermost block collection. -/
def indent (scan : Scan) : Nat :=
  match scan.columns with
  | [] => 0
  | column :: _ => column + 1

/-! ## Between tokens -/

/-- Skips white space and comments; tells whether a key may start after them. -/
def skipGap (inFlow : Bool) : (keyAllowed comment : Bool) → Place → List Char → Bool × Cursor
  | keyAllowed, _, place, [] => (keyAllowed, ⟨[], place⟩)
  | keyAllowed, comment, place, c :: rest =>
    if isBreak c then skipGap inFlow (keyAllowed || !inFlow) false (place.after c) rest
    else if comment || c == '#' then skipGap inFlow keyAllowed true (place.after c) rest
    else if c == ' ' || (c == '\t' && (inFlow || !keyAllowed)) then
      skipGap inFlow keyAllowed false (place.after c) rest
    else (keyAllowed, ⟨c :: rest, place⟩)

/-- The next place where a token or the end of the text is. -/
def atToken (scan : Scan) : Scan :=
  let (keyAllowed, cursor) :=
    skipGap scan.inFlow scan.keyAllowed false scan.cursor.place scan.cursor.rest
  { scan with keyAllowed, cursor }

/-- Gives up the candidates that do not reach the place. -/
def expire? (scan : Scan) : Option Scan :=
  let reaching (candidate : Candidate) := candidate.reaches scan.cursor.place
  let all := scan.candidate :: scan.outer
  if all.any (·.any fun candidate => candidate.required && !reaching candidate) then none
  else some { scan with
    candidate := scan.candidate.filter reaching
    outer := scan.outer.map fun found => found.filter reaching }

/-- Gives up the candidate. -/
def settle? (scan : Scan) : Option Scan :=
  if scan.candidate.any Candidate.required then none else some { scan with candidate := none }

/-- Makes the place a candidate if a key may start there. -/
def propose? (scan : Scan) : Option Scan :=
  if scan.keyAllowed then
    let place := scan.cursor.place
    let required := !scan.inFlow && scan.columns.head? == some place.column
    scan.settle?.map fun scan =>
      { scan with candidate := some ⟨place, scan.tokens.size, required⟩ }
  else some scan

/-- Closes the block collections that are deeper than a column; nothing within a flow collection. -/
def closeDeeper (column : Nat) (scan : Scan) : Scan :=
  if scan.inFlow then scan
  else
    let (closed, columns) := scan.columns.span (column < ·)
    { scan with columns, tokens := scan.tokens ++ List.replicate closed.length Token.blockEnd }

/-- Closes all block collections; nothing within a flow collection. -/
def closeAll (scan : Scan) : Scan :=
  if scan.inFlow then scan
  else { scan with
    columns := [], tokens := scan.tokens ++ List.replicate scan.columns.length Token.blockEnd }

/-! ## Tokens -/

/-- Adds a token that so many characters spell, after which a key may or may not start. -/
def add (token : Token) (width : Nat) (keyAllowed : Bool) (scan : Scan) : Scan :=
  { scan with tokens := scan.tokens.push token, cursor := scan.cursor.skip width, keyAllowed }

/-- The mark of a document. -/
def mark? (token : Token) (scan : Scan) : Option Scan :=
  scan.closeAll.settle?.map (add token 3 false)

/-- An opening bracket or brace. -/
def enter? (token : Token) (scan : Scan) : Option Scan :=
  scan.propose?.map fun scan =>
    { scan with candidate := none, outer := scan.candidate :: scan.outer }.add token 1 true

/-- A closing bracket or brace. -/
def leave? (token : Token) (scan : Scan) : Option Scan :=
  match scan.outer with
  | [] => scan.settle?.map (add token 1 false)
  | candidate :: outer => some ({ scan with candidate, outer }.add token 1 false)

/-- A comma. -/
def comma? (scan : Scan) : Option Scan := scan.settle?.map (add .comma 1 true)

/-- Opens a block collection at a column unless it is open, with a token that so many others precede. -/
def openAt (column : Nat) (token : Token) (before : Nat) (scan : Scan) : Scan :=
  if scan.inFlow || column < scan.indent then scan
  else { scan with
    columns := column :: scan.columns
    tokens := scan.tokens.insertIdxIfInBounds before token }

/-- A mark that stands before a node, and that may open the given collection if it is in a block.  There
it has to be where a key may start, and so is the node. -/
def lead? (opening token : Token) (scan : Scan) : Option Scan :=
  if !scan.inFlow && !scan.keyAllowed then none
  else
    (scan.openAt scan.cursor.place.column opening scan.tokens.size).settle?.map
      (add token 1 !scan.inFlow)

/-- The dash of an item, which stands in a block. -/
def item? (scan : Scan) : Option Scan :=
  if scan.inFlow then none else scan.lead? .blockSequence .item

/-- The colon after a key.  It makes the candidate the key; without one, the key was announced. -/
def colon? (scan : Scan) : Option Scan :=
  match scan.candidate with
  | none => scan.lead? .blockMapping .value
  | some candidate =>
    let tokens := scan.tokens.insertIdxIfInBounds candidate.before .key
    some (({ scan with candidate := none, tokens }.openAt candidate.place.column .blockMapping
      candidate.before).add .value 1 false)

/-- A scalar; after line breaks a key may start. -/
def scalar? (plain : Bool) (read : Cursor → Option Spelled) (scan : Scan) : Option Scan :=
  scan.propose?.bind fun scan =>
    (read scan.cursor).map fun spelled =>
      { scan with
        tokens := scan.tokens.push (.scalar plain spelled.text)
        cursor := spelled.cursor
        keyAllowed := spelled.fresh }

/-- The token that starts with the given character. -/
def token? (scan : Scan) (c : Char) (rest : List Char) : Option Scan :=
  if startsMark scan.cursor.place (c :: rest) then
    scan.mark? (if c = '-' then .documentStart else .documentEnd)
  else if c = '[' then scan.enter? .flowSequence
  else if c = '\x7b' then scan.enter? .flowMapping
  else if c = ']' then scan.leave? .flowSequenceEnd
  else if c = '\x7d' then scan.leave? .flowMappingEnd
  else if c = ',' then scan.comma?
  else if c = '-' ∧ atGap rest then scan.item?
  else if c = '?' ∧ (scan.inFlow ∨ atGap rest) then scan.lead? .blockMapping .key
  else if c = ':' ∧ (scan.inFlow ∨ atGap rest) then scan.colon?
  else if c = '\'' then
    scan.scalar? false fun cursor => singleQuoted? .empty (cursor.place.after c) rest
  else if c = '"' then
    scan.scalar? false fun cursor => doubleQuoted? .empty 0 0 (cursor.place.after c) rest
  else if startsPlain scan.inFlow (c :: rest) then
    scan.scalar? true fun cursor => plain? scan.inFlow scan.indent .empty cursor.place cursor.rest
  else none

/-- Reads the rest of the tokens; each one spends one unit of fuel. -/
def tokens? : (fuel : Nat) → Scan → Option (List Token)
  | 0, _ => none
  | fuel + 1, scan =>
    match scan.atToken.expire? with
    | none => none
    | some scan =>
      let scan := scan.closeDeeper scan.cursor.place.column
      match scan.cursor.rest with
      | [] => scan.closeAll.settle?.map fun scan => scan.tokens.toList
      | c :: rest => (scan.token? c rest).bind (tokens? fuel)

end Scan

/-- The place where the text of a document starts.  A byte order mark takes up its first column. -/
def Cursor.ofText : List Char → Cursor
  | '\ufeff' :: rest => ⟨rest, Place.after {} '\ufeff'⟩
  | cs => ⟨cs, {}⟩

/-- The tokens of a text. -/
def tokens? (source : List Char) : Option (List Token) :=
  let cs := withLineFeeds source
  if cs.all isPrintable then Scan.tokens? (cs.length + 1) { cursor := Cursor.ofText cs } else none

example : tokens? "a: [b]".toList = some
    [.blockMapping, .key, .scalar true ['a'], .value, .flowSequence, .scalar true ['b'],
      .flowSequenceEnd, .blockEnd] := by decide +kernel

end TableQuery.Yaml
