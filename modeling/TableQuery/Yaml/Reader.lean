import TableQuery.Yaml.Node
import TableQuery.Yaml.Token

/-!
# Reading YAML

A part of YAML: block mappings and sequences by indentation, flow mappings and sequences, which include
JSON, plain and quoted scalars, and comments.  A document may start with `---` and end with `...`.
Anchors, tags, block scalars and several documents are not read.

Nodes are read from tokens.  Every node may be left out after a dash, a question mark or a colon, and is
then a plain scalar without characters.  A block sequence that is a key or a value of a mapping may stand
at the column of the mapping; nothing opens or closes it then, and it ends where no item follows.
-/

namespace TableQuery.Yaml

/-- The scalar that stands for nothing written. -/
def Node.absent : Node := .scalar true []

/-! ## Flow collections -/

/-- Whether a node is left out before the given tokens of a flow collection. -/
def endsInFlow : List Token → Bool
  | .comma :: _ | .flowSequenceEnd :: _ | .flowMappingEnd :: _ => true
  | _ => false

mutual

/-- Reads a scalar or a flow collection. -/
def flowNode? : (fuel : Nat) → List Token → Option (Node × List Token)
  | 0, _ => none
  | fuel + 1, tokens =>
    match tokens with
    | .scalar plain text :: rest => some (.scalar plain text, rest)
    | .flowSequence :: rest =>
      (flowItems? fuel rest).map fun (items, rest) => (.sequence items, rest)
    | .flowMapping :: rest =>
      (flowEntries? fuel rest).map fun (entries, rest) => (.mapping entries, rest)
    | _ => none

/-- Reads the colon after a key and the value; the value or both may be left out. -/
def flowValue? : (fuel : Nat) → List Token → Option (Node × List Token)
  | 0, _ => none
  | fuel + 1, tokens =>
    match tokens with
    | .value :: rest => if endsInFlow rest then some (.absent, rest) else flowNode? fuel rest
    | _ => some (.absent, tokens)

/-- Reads a key and its value, after the start of the key.  In a sequence the token in place of a key that
is left out belongs to the key. -/
def flowPair? (inSequence : Bool) : (fuel : Nat) → List Token → Option ((Node × Node) × List Token)
  | 0, _ => none
  | fuel + 1, tokens =>
    let key := match tokens, inSequence with
      | .value :: rest, true | .comma :: rest, true | .flowSequenceEnd :: rest, true =>
        some (Node.absent, rest)
      | .value :: _, false | .comma :: _, false | .flowMappingEnd :: _, false =>
        some (Node.absent, tokens)
      | _, _ => flowNode? fuel tokens
    match key with
    | none => none
    | some (key, rest) => (flowValue? fuel rest).map fun (value, rest) => ((key, value), rest)

/-- Reads the items of a sequence and the closing bracket.  A key and its value are a mapping of one
entry. -/
def flowItems? : (fuel : Nat) → List Token → Option (List Node × List Token)
  | 0, _ => none
  | fuel + 1, tokens =>
    if tokens.head? = some .flowSequenceEnd then some ([], tokens.tail)
    else
      let item : Option (Node × List Token) := match tokens with
        | .key :: rest =>
          (flowPair? true fuel rest).map fun (entry, rest) => (.mapping [entry], rest)
        | _ => flowNode? fuel tokens
      match item with
      | some (item, .comma :: rest) =>
        (flowItems? fuel rest).map fun (items, rest) => (item :: items, rest)
      | some (item, .flowSequenceEnd :: rest) => some ([item], rest)
      | _ => none

/-- Reads the entries of a mapping and the closing brace.  A node that no key starts is a key whose value
is left out. -/
def flowEntries? : (fuel : Nat) → List Token → Option (List (Node × Node) × List Token)
  | 0, _ => none
  | fuel + 1, tokens =>
    if tokens.head? = some .flowMappingEnd then some ([], tokens.tail)
    else
      let entry : Option ((Node × Node) × List Token) := match tokens with
        | .key :: rest => flowPair? false fuel rest
        | _ => (flowNode? fuel tokens).map fun (key, rest) => ((key, .absent), rest)
      match entry with
      | some (entry, .comma :: rest) =>
        (flowEntries? fuel rest).map fun (entries, rest) => (entry :: entries, rest)
      | some (entry, .flowMappingEnd :: rest) => some ([entry], rest)
      | _ => none

end

/-! ## Block collections -/

/-- Whether an item is left out before the given tokens. -/
def endsItem : List Token → Bool
  | .item :: _ | .key :: _ | .value :: _ | .blockEnd :: _ => true
  | _ => false

mutual

/-- Reads a node in a block. -/
def blockNode? : (fuel : Nat) → List Token → Option (Node × List Token)
  | 0, _ => none
  | fuel + 1, tokens =>
    match tokens with
    | .blockSequence :: rest =>
      match blockItems? fuel rest with
      | some (items, .blockEnd :: rest) => some (.sequence items, rest)
      | _ => none
    | .blockMapping :: rest =>
      (blockEntries? fuel rest).map fun (entries, rest) => (.mapping entries, rest)
    | _ => flowNode? (fuel + 1) tokens

/-- Reads the items of a sequence, as many as there are. -/
def blockItems? : (fuel : Nat) → List Token → Option (List Node × List Token)
  | 0, _ => none
  | fuel + 1, tokens =>
    match tokens with
    | .item :: rest =>
      let item := if endsItem rest then some (.absent, rest) else blockNode? fuel rest
      match item with
      | none => none
      | some (item, rest) =>
        (blockItems? fuel rest).map fun (items, rest) => (item :: items, rest)
    | _ => some ([], tokens)

/-- Reads a key or a value of a mapping. -/
def blockPart? : (fuel : Nat) → List Token → Option (Node × List Token)
  | 0, _ => none
  | fuel + 1, tokens =>
    match tokens with
    | .item :: _ => (blockItems? fuel tokens).map fun (items, rest) => (.sequence items, rest)
    | .key :: _ | .value :: _ | .blockEnd :: _ => some (.absent, tokens)
    | _ => blockNode? fuel tokens

/-- Reads the entries of a mapping and its end. -/
def blockEntries? : (fuel : Nat) → List Token → Option (List (Node × Node) × List Token)
  | 0, _ => none
  | fuel + 1, tokens =>
    match tokens with
    | .blockEnd :: rest => some ([], rest)
    | .key :: rest =>
      match blockPart? fuel rest with
      | none => none
      | some (key, rest) =>
        let value := match rest with
          | .value :: rest => blockPart? fuel rest
          | _ => some (.absent, rest)
        match value with
        | none => none
        | some (value, rest) =>
          (blockEntries? fuel rest).map fun (entries, rest) => ((key, value) :: entries, rest)
    | _ => none

end

/-! ## Documents -/

/-- Reads the node of a document.  The mark of its start may stand before it, and then it may be left
out. -/
def documentNode? : List Token → Option (Node × List Token)
  | [] => some (.absent, [])
  | .documentStart :: .documentEnd :: rest => some (.absent, .documentEnd :: rest)
  | [.documentStart] => some (.absent, [])
  | .documentStart :: rest => blockNode? (2 * rest.length + 2) rest
  | tokens => blockNode? (2 * tokens.length + 2) tokens

/-- Reads a document and the marks of its end. -/
def Node.ofTokens? (tokens : List Token) : Option Node :=
  match documentNode? tokens with
  | some (node, rest) => if rest.all (· == .documentEnd) then some node else none
  | none => none

/-- Reads a text; one that holds no node is an absent one. -/
def parse? (source : List Char) : Option Node := (tokens? source).bind Node.ofTokens?

end TableQuery.Yaml
