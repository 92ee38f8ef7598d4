import TableQuery.Query.Token

/-!
# The trace of a parse

Parsing tries rules and alternatives of rules.  Every attempt is recorded in the order in which it
began: the path of rules down to it, the tokens it was given, the tokens it left if it succeeded, and a
note in two cases.  An attempt's record stands before those of the attempts inside it.

Shown to a user, tokens are the text of the source from the first of them on, and a trace is one line
for each attempt.
-/

namespace TableQuery

/-- A rule of the grammar, or an alternative of one. -/
inductive Rule where
  | display
  | draw
  | table
  | dataset
  | collection
  | join
  | spatialJoin
  | union
  | product
  | projection
  | selection
  /-- The second part of a join on fields. -/
  | onFields
  /-- The second part of a join on a predicate. -/
  | onPredicate
  | pairList
  | singlePair
  | namePair
  | predicate
  deriving DecidableEq, Repr

/-- The name of a rule in a path. -/
def Rule.label : Rule → String
  | display => "program:display"
  | draw => "program:draw"
  | table => "program:table"
  | dataset => "expDataset"
  | collection => "expTable:collection"
  | join => "expTable:join"
  | spatialJoin => "expTable:spatialJoin"
  | union => "expTable:union"
  | product => "expTable:product"
  | projection => "expTable:proj"
  | selection => "expTable:select"
  | onFields => "joinOn:fields"
  | onPredicate => "joinOn:predicate"
  | pairList => "fieldPairs:list"
  | singlePair => "fieldPairs:single"
  | namePair => "namePair"
  | predicate => "predicate"

/-- The rules from the root down to an attempt. -/
abbrev RulePath := List Rule

/-- The text of a path. -/
def RulePath.text (path : RulePath) : String := String.intercalate "/" (path.map Rule.label)

/-- What is noted at an attempt. -/
inductive Note where
  | unknownDataset (name : String)
  /-- The program ends before the query does. -/
  | trailingInput (rest : List Token)
  deriving DecidableEq

/-- The text of a note about a source. -/
def Note.text (source : List Char) : Note → String
  | unknownDataset name => "unknown dataset \x60" ++ name ++ "\x60"
  | trailingInput rest =>
    "trailing input \x60" ++ String.ofList (Source.textAt source rest) ++ "\x60"

/-- An attempt to apply a rule. -/
structure Attempt where
  /-- The rules from the root down to this one. -/
  path : RulePath
  /-- The tokens that remained before. -/
  before : List Token
  /-- The tokens that remained after, if the rule applied. -/
  after : Option (List Token)
  note : Option Note
  deriving DecidableEq

/-- An attempt as it is shown. -/
structure TraceEntry where
  path : String
  before : String
  after : Option String
  note : Option String
  deriving DecidableEq, Repr

/-- An attempt on a source as it is shown. -/
def Attempt.entry (source : List Char) (attempt : Attempt) : TraceEntry :=
  ⟨attempt.path.text, String.ofList (Source.textAt source attempt.before),
    attempt.after.map fun rest => String.ofList (Source.textAt source rest),
    attempt.note.map (Note.text source)⟩

namespace TraceEntry

/-- The line that shows an entry. -/
def line (entry : TraceEntry) : String :=
  entry.path ++ (if entry.after.isSome then "  ok  " else "  fail") ++ "  before=<" ++ entry.before ++ ">" ++
    (match entry.after with
      | some rest => "  after=<" ++ rest ++ ">"
      | none => "") ++
    (match entry.note with
      | some note => "  (" ++ note ++ ")"
      | none => "")

/-- The JSON form of an entry; a note that is not there is left out. -/
def toJson (entry : TraceEntry) : Json :=
  .object ([("path", .string entry.path), ("before", .string entry.before),
    ("after", match entry.after with
      | some rest => .string rest
      | none => .null)] ++
    match entry.note with
    | some note => [("note", .string note)]
    | none => [])

end TraceEntry

namespace Trace

/-- The text of a trace: every entry on a line, the last line ended too. -/
def text (entries : List TraceEntry) : String :=
  String.join (entries.map fun entry => entry.line ++ "\n")

/-- The shorter of two texts by UTF-8 length, the first one if they are equally long. -/
def shorter (best : Option String) (text : String) : Option String :=
  match best with
  | none => some text
  | some best => if text.utf8ByteSize < best.utf8ByteSize then some text else some best

/-- The shortest text that a successful attempt left: how far the parser got. -/
def furthest? (entries : List TraceEntry) : Option String :=
  (entries.filterMap TraceEntry.after).foldl shorter none

end Trace

end TableQuery
