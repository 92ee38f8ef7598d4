import TableQuery.Proofs.Query.Lexeme
import TableQuery.Proofs.Query.Parsing

/-!
# Parsing what is printed

Which programs have a text that is parsed as them?  Those whose names are words, whose datasets are
known and whose constants a query can hold (`Program.Legible`).  They are the programs that sources
have, so a source and the text of its program are parsed alike (`exists_parse_iff_legible`).

The text of a program is read with what follows it.  If the text after a phrase is split into some
lexemes, the phrase adds lexemes in front which derive it (`Table.exists_isTable`).  That is an
induction on the table.  In every case the text is put together from its end, as the grammar asks.
-/

namespace TableQuery

open Grammar Lexer

/-! ## Legible programs -/

/-- An operand that a query can have. -/
def Operand.Legible : Operand → Prop
  | field name => isWord name = true
  | constant value => IsConstant value

/-- A predicate that a query can have. -/
def Predicate.Legible (predicate : Predicate) : Prop :=
  isWord predicate.field = true ∧ predicate.operand.Legible

/-- Pairs that a query can have. -/
def FieldPairs.Legible (pairs : FieldPairs) : Prop :=
  pairs ≠ [] ∧ ∀ pair ∈ pairs, isWord pair.1 = true ∧ isWord pair.2 = true

/-- A table that a query can have, given which names are those of datasets. -/
def Table.Legible (knows : String → Bool) : Table → Prop
  | collection dataset sectionName =>
    knows dataset = true ∧ isWord dataset = true ∧ isWord sectionName = true
  | fieldJoin _ left leftField right rightField =>
    left.Legible knows ∧ isWord leftField = true ∧ right.Legible knows ∧ isWord rightField = true
  | predicateJoin _ left right predicate =>
    left.Legible knows ∧ right.Legible knows ∧ predicate.Legible
  | spatialJoin left right | union left right | product left right =>
    left.Legible knows ∧ right.Legible knows
  | projection input pairs => input.Legible knows ∧ pairs.Legible
  | selection predicate input => predicate.Legible ∧ input.Legible knows

/-- A program that a query can be, given which names are those of datasets. -/
def Program.Legible (knows : String → Bool) : Program → Prop
  | display input | table input => input.Legible knows
  | draw dataset => knows dataset = true ∧ isWord dataset = true

variable {knows : String → Bool} {before after : List Lexeme}

/-! ## What is derived is legible -/

theorem Grammar.IsOperand.legible {operand : Operand} {found : Lexeme} (h : IsOperand operand found)
    (hfound : found.Legible) : operand.Legible := by
  cases h with
  | field => exact hfound
  | text => exact True.intro
  | number => exact hfound

theorem Grammar.IsPredicate.legible {predicate : Predicate} (h : IsPredicate before predicate after)
    (hbefore : ∀ found ∈ before, found.Legible) :
    predicate.Legible ∧ ∀ found ∈ after, found.Legible := by
  cases h with
  | intro hoperand =>
    simp only [List.forall_mem_cons] at hbefore
    obtain ⟨hfield, _, hfound, hafter⟩ := hbefore
    exact ⟨⟨hfield, hoperand.legible hfound⟩, hafter⟩

theorem Grammar.IsPair.legible {pair : String × String} (h : IsPair before pair after)
    (hbefore : ∀ found ∈ before, found.Legible) :
    (isWord pair.1 = true ∧ isWord pair.2 = true) ∧ ∀ found ∈ after, found.Legible := by
  cases h with
  | intro =>
    simp only [List.forall_mem_cons] at hbefore
    obtain ⟨hsource, _, htarget, hafter⟩ := hbefore
    exact ⟨⟨hsource, htarget⟩, hafter⟩

theorem Grammar.IsPairs.legible {pairs : FieldPairs} (h : IsPairs before pairs after)
    (hbefore : ∀ found ∈ before, found.Legible) :
    pairs.Legible ∧ ∀ found ∈ after, found.Legible := by
  induction h with
  | more hpair _ ih =>
    obtain ⟨hwords, hbetween⟩ := hpair.legible hbefore
    obtain ⟨⟨_, hall⟩, hafter⟩ := ih (List.forall_mem_cons.mp hbetween).2
    exact ⟨⟨List.cons_ne_nil _ _, List.forall_mem_cons.mpr ⟨hwords, hall⟩⟩, hafter⟩
  | one hpair =>
    obtain ⟨hwords, hafter⟩ := hpair.legible hbefore
    exact ⟨⟨List.cons_ne_nil _ _, by simpa using hwords⟩, hafter⟩

/-- A table that legible lexemes derive is legible. -/
theorem Grammar.IsTable.legible {table : Table} (h : IsTable knows before table after)
    (hbefore : ∀ found ∈ before, found.Legible) :
    table.Legible knows ∧ ∀ found ∈ after, found.Legible := by
  induction h with
  | collection hknows =>
    simp only [List.forall_mem_cons] at hbefore
    obtain ⟨hdataset, _, hsection, hafter⟩ := hbefore
    exact ⟨⟨hknows, hdataset, hsection⟩, hafter⟩
  | fieldJoin _ _ ihl ihr =>
    simp only [List.forall_mem_cons] at hbefore ihl ihr
    obtain ⟨hleft, _, hleftField, _, hbetween⟩ := ihl hbefore.2.2
    obtain ⟨hright, _, hrightField, _, hafter⟩ := ihr hbetween
    exact ⟨⟨hleft, hleftField, hright, hrightField⟩, hafter⟩
  | predicateJoin _ _ hp ihl ihr =>
    simp only [List.forall_mem_cons] at hbefore ihl ihr
    obtain ⟨hleft, _, hbetween⟩ := ihl hbefore.2.2
    obtain ⟨hright, _, hcondition⟩ := ihr hbetween
    obtain ⟨hpredicate, hafter⟩ := hp.legible hcondition
    exact ⟨⟨hleft, hright, hpredicate⟩, (List.forall_mem_cons.mp hafter).2⟩
  | spatialJoin _ _ ihl ihr | union _ _ ihl ihr | product _ _ ihl ihr =>
    simp only [List.forall_mem_cons] at hbefore ihl ihr
    obtain ⟨hleft, _, hbetween⟩ := ihl hbefore.2.2
    obtain ⟨hright, _, hafter⟩ := ihr hbetween
    exact ⟨⟨hleft, hright⟩, hafter⟩
  | projection _ hp ih =>
    simp only [List.forall_mem_cons] at hbefore ih
    obtain ⟨hinput, _, _, hlist⟩ := ih hbefore.2.2
    obtain ⟨hpairs, hafter⟩ := hp.legible hlist
    simp only [List.forall_mem_cons] at hafter
    exact ⟨⟨hinput, hpairs⟩, hafter.2.2⟩
  | selection hp _ ih =>
    simp only [List.forall_mem_cons] at hbefore ih
    obtain ⟨hpredicate, hbetween⟩ := hp.legible hbefore.2.2
    obtain ⟨hinput, _, hafter⟩ := ih (List.forall_mem_cons.mp hbetween).2
    exact ⟨⟨hpredicate, hinput⟩, hafter⟩

theorem Grammar.IsProgram.legible {program : Program} (h : IsProgram knows before program)
    (hbefore : ∀ found ∈ before, found.Legible) : program.Legible knows := by
  cases h with
  | display hinput =>
    simp only [List.forall_mem_cons] at hbefore
    exact (hinput.legible hbefore.2.2).1
  | draw hknows =>
    simp only [List.forall_mem_cons] at hbefore
    exact ⟨hknows, hbefore.2.2.1⟩
  | table hinput => exact (hinput.legible hbefore).1

/-! ## What is legible is derived from its text -/

variable {rest : List Char}

theorem isWord_keyword (word : String)
    (h : word ∈ ["spatial-join", "union", "product", "proj", "select", "display", "draw"]) :
    isWord word = true := by
  have hwords : ["spatial-join", "union", "product", "proj", "select", "display", "draw"].all isWord =
      true := by decide +kernel
  exact List.all_eq_true.mp hwords word h

theorem isWord_joinName (join : JoinType) : isWord join.name = true := by
  cases join <;> decide +kernel

/-- A word and a parenthesis, which start everything but a collection. -/
theorem Lexes.opened {word : String} (hword : isWord word = true) (h : Lexes rest after) :
    Lexes (word.toList ++ '(' :: rest) (.word word :: .openParen :: after) :=
  .word hword (endsWord_openParen _) (.single rfl h)

theorem Operand.exists_isOperand {operand : Operand} (hlegible : operand.Legible)
    (hrest : EndsPhrase rest) (h : Lexes rest after) : ∃ found, IsOperand operand found ∧
      Lexes ((match operand with
        | .field name => name
        | .constant value => value.toText).toList ++ rest) (found :: after) := by
  cases operand with
  | field name => exact ⟨_, .field name, .word hlegible hrest.endsWord h⟩
  | constant value =>
    obtain ⟨found, hfound, hlexes⟩ := Lexes.constant hlegible hrest h
    refine ⟨found, hfound, ?_⟩
    show Lexes ((String.ofList value.toChars).toList ++ rest) _
    rw [String.toList_ofList]
    exact hlexes

theorem endsWord_symbol (comparator : Comparator) (rest : List Char) :
    EndsWord (comparator.symbol.toList ++ rest) := by
  cases comparator <;> exact .cons (not_continuesWord_of_mem (by decide)) _

theorem Predicate.exists_isPredicate {predicate : Predicate} (hlegible : predicate.Legible)
    (hrest : EndsPhrase rest) (h : Lexes rest after) : ∃ before,
      IsPredicate before predicate after ∧ Lexes (predicate.text.toList ++ rest) before := by
  obtain ⟨field, comparator, operand⟩ := predicate
  obtain ⟨hfield, hoperand⟩ := hlegible
  obtain ⟨found, hfound, hlexes⟩ := Operand.exists_isOperand hoperand hrest h
  refine ⟨_, .intro hfound, ?_⟩
  simp only [Predicate.text, String.toList_append, List.append_assoc]
  exact .word hfield (endsWord_symbol _ _)
    (.comparator comparator (hlexes.endsOperator hfound) hlexes)

theorem endsPhrase_comma (rest : List Char) : EndsPhrase (',' :: rest) := .cons (by decide) rest

theorem endsPhrase_closeParen (rest : List Char) : EndsPhrase (')' :: rest) := .cons (by decide) rest

theorem FieldPairs.exists_isPairs {pairs : FieldPairs} (hlegible : pairs.Legible)
    (hrest : EndsPhrase rest) (h : Lexes rest after) : ∃ before,
      IsPairs before pairs after ∧ Lexes (pairs.text.toList ++ rest) before := by
  obtain ⟨hne, hwords⟩ := hlegible
  have hgreater : ∀ {target : String} {behind : List Char} {found : List Lexeme},
      isWord target = true → Lexes (target.toList ++ behind) (.word target :: found) →
      Lexes ('>' :: (target.toList ++ behind)) (.comparator .greater :: .word target :: found) :=
    fun _ hlexes => .comparator .greater (hlexes.endsOperator (.field _)) hlexes
  induction pairs with
  | nil => exact absurd rfl hne
  | cons pair pairs ih =>
    obtain ⟨⟨hsource, htarget⟩, hwords⟩ := List.forall_mem_cons.mp hwords
    cases pairs with
    | nil =>
      refine ⟨_, .one .intro, ?_⟩
      have htext : FieldPairs.text [pair] = pair.1 ++ ">" ++ pair.2 := by simp [FieldPairs.text]
      rw [htext]
      simp only [String.toList_append, List.append_assoc]
      exact .word hsource (endsWord_symbol .greater _) (hgreater htarget (.word htarget hrest.endsWord h))
    | cons next pairs =>
      obtain ⟨between, hpairs, hlexes⟩ := ih (List.cons_ne_nil _ _) hwords
      refine ⟨_, .more .intro hpairs, ?_⟩
      have htext : FieldPairs.text (pair :: next :: pairs) =
          pair.1 ++ ">" ++ pair.2 ++ "," ++ FieldPairs.text (next :: pairs) := by
        simp [FieldPairs.text]
      rw [htext]
      simp only [String.toList_append, List.append_assoc]
      exact .word hsource (endsWord_symbol .greater _) (hgreater htarget
        (.word htarget (endsPhrase_comma _).endsWord (.single rfl hlexes)))

/-- The text of a table is split into lexemes that derive it, if what follows can follow a table. -/
def Table.ReadsBack (knows : String → Bool) (table : Table) : Prop :=
  ∀ rest after, EndsPhrase rest → Lexes rest after →
    ∃ before, IsTable knows before table after ∧ Lexes (table.text.toList ++ rest) before

/-- The text of two operands between parentheses. -/
theorem Table.ReadsBack.exists_operands {left right : Table} (hleft : left.ReadsBack knows)
    (hright : right.ReadsBack knows) {word : String} (hword : isWord word = true)
    (h : Lexes rest after) : ∃ inside between, IsTable knows inside left (.comma :: between) ∧
      IsTable knows between right (.closeParen :: after) ∧
      Lexes (word.toList ++ '(' :: (left.text.toList ++ ',' :: (right.text.toList ++ ')' :: rest)))
        (.word word :: .openParen :: inside) := by
  obtain ⟨between, hr, hlexesRight⟩ := hright _ _ (endsPhrase_closeParen _) (.single rfl h)
  obtain ⟨inside, hl, hlexesLeft⟩ := hleft _ _ (endsPhrase_comma _) (.single rfl hlexesRight)
  exact ⟨inside, between, hl, hr, .opened hword hlexesLeft⟩

/-- Legible tables read back. -/
theorem Table.Legible.readsBack {table : Table} (hlegible : table.Legible knows) :
    table.ReadsBack knows := by
  induction table with
  | collection dataset sectionName =>
    intro rest after hrest h
    obtain ⟨hknows, hdataset, hsection⟩ := hlegible
    refine ⟨_, .collection hknows, ?_⟩
    simp only [Table.text, String.toList_append, List.append_assoc]
    exact .word hdataset (.cons (not_continuesWord_of_mem (by decide)) _)
      (.single rfl (.word hsection hrest.endsWord h))
  | fieldJoin join left leftField right rightField ihl ihr =>
    intro rest after hrest h
    obtain ⟨hleft, hleftField, hright, hrightField⟩ := hlegible
    obtain ⟨between, hr, hlexesRight⟩ := ihr hright _ _ (endsPhrase_comma _)
      (.single rfl (.word hrightField (endsPhrase_closeParen _).endsWord (.single rfl h)))
    obtain ⟨inside, hl, hlexesLeft⟩ := ihl hleft _ _ (endsPhrase_comma _)
      (.single rfl (.word hleftField (endsPhrase_comma _).endsWord (.single rfl hlexesRight)))
    refine ⟨_, .fieldJoin hl hr, ?_⟩
    simp only [Table.text, String.toList_append, List.append_assoc]
    exact .opened (isWord_joinName join) hlexesLeft
  | predicateJoin join left right predicate ihl ihr =>
    intro rest after hrest h
    obtain ⟨hleft, hright, hpredicate⟩ := hlegible
    obtain ⟨condition, hp, hlexesPredicate⟩ :=
      Predicate.exists_isPredicate hpredicate (endsPhrase_closeParen _) (.single rfl h)
    obtain ⟨between, hr, hlexesRight⟩ :=
      ihr hright _ _ (endsPhrase_comma _) (.single rfl hlexesPredicate)
    obtain ⟨inside, hl, hlexesLeft⟩ := ihl hleft _ _ (endsPhrase_comma _) (.single rfl hlexesRight)
    refine ⟨_, .predicateJoin hl hr hp, ?_⟩
    simp only [Table.text, String.toList_append, List.append_assoc]
    exact .opened (isWord_joinName join) hlexesLeft
  | spatialJoin left right ihl ihr =>
    intro rest after hrest h
    obtain ⟨inside, between, hl, hr, hlexes⟩ :=
      (ihl hlegible.1).exists_operands (ihr hlegible.2) (isWord_keyword "spatial-join" (by simp)) h
    exact ⟨_, .spatialJoin hl hr, by simpa [Table.text] using hlexes⟩
  | union left right ihl ihr =>
    intro rest after hrest h
    obtain ⟨inside, between, hl, hr, hlexes⟩ :=
      (ihl hlegible.1).exists_operands (ihr hlegible.2) (isWord_keyword "union" (by simp)) h
    exact ⟨_, .union hl hr, by simpa [Table.text] using hlexes⟩
  | product left right ihl ihr =>
    intro rest after hrest h
    obtain ⟨inside, between, hl, hr, hlexes⟩ :=
      (ihl hlegible.1).exists_operands (ihr hlegible.2) (isWord_keyword "product" (by simp)) h
    exact ⟨_, .product hl hr, by simpa [Table.text] using hlexes⟩
  | projection input pairs ih =>
    intro rest after hrest h
    obtain ⟨hinput, hpairs⟩ := hlegible
    have hclosed : Lexes (']' :: ')' :: rest) (.closeBracket :: .closeParen :: after) :=
      .single rfl (.single rfl h)
    obtain ⟨list, hp, hlexesPairs⟩ := FieldPairs.exists_isPairs hpairs (.cons (by decide) _) hclosed
    have hopened : Lexes (',' :: '[' :: (pairs.text.toList ++ ']' :: ')' :: rest))
        (.comma :: .openBracket :: list) := .single rfl (.single rfl hlexesPairs)
    obtain ⟨inside, hi, hlexesInput⟩ := ih hinput _ _ (endsPhrase_comma _) hopened
    refine ⟨_, .projection hi hp, ?_⟩
    simpa [Table.text] using Lexes.opened (isWord_keyword "proj" (by simp)) hlexesInput
  | selection predicate input ih =>
    intro rest after hrest h
    obtain ⟨hpredicate, hinput⟩ := hlegible
    obtain ⟨between, hi, hlexesInput⟩ := ih hinput _ _ (endsPhrase_closeParen _) (.single rfl h)
    obtain ⟨inside, hp, hlexesPredicate⟩ :=
      Predicate.exists_isPredicate hpredicate (endsPhrase_comma _) (.single rfl hlexesInput)
    refine ⟨_, .selection hp hi, ?_⟩
    simpa [Table.text] using Lexes.opened (isWord_keyword "select" (by simp)) hlexesPredicate

theorem Program.exists_isProgram {program : Program} (hlegible : program.Legible knows) :
    ∃ all, IsProgram knows all program ∧ Lexes program.text.toList all := by
  cases program with
  | display input =>
    obtain ⟨inside, hi, hlexes⟩ :=
      Table.Legible.readsBack hlegible _ _ (endsPhrase_closeParen _) (.single rfl .nil)
    refine ⟨_, .display hi, ?_⟩
    simpa [Program.text] using Lexes.opened (isWord_keyword "display" (by simp)) hlexes
  | draw dataset =>
    obtain ⟨hknows, hdataset⟩ := hlegible
    refine ⟨_, .draw hknows, ?_⟩
    have hlexes := Lexes.opened (isWord_keyword "draw" (by simp))
      (.word hdataset (endsPhrase_closeParen _).endsWord (.single rfl .nil))
    simpa [Program.text] using hlexes
  | table input =>
    obtain ⟨all, hi, hlexes⟩ := Table.Legible.readsBack hlegible _ _ .nil .nil
    rw [List.append_nil] at hlexes
    exact ⟨all, .table hi, hlexes⟩

/-! ## Sources -/

/-- What a source is parsed as is legible. -/
theorem legible_of_parse {source : String} {program : Program}
    (h : parse knows source = .ok program) : program.Legible knows := by
  obtain ⟨tokens, htokens, hderives⟩ := parse_eq_ok_iff.mp h
  exact hderives.legible (legible_of_tokensFrom htokens)

/-- A legible program is what its text is parsed as. -/
theorem parse_text {program : Program} (h : program.Legible knows) :
    parse knows program.text = .ok program := by
  obtain ⟨all, hderives, hlexes⟩ := Program.exists_isProgram h
  obtain ⟨tokens, htokens, rfl⟩ := hlexes.tokenize
  exact parse_eq_ok_iff.mpr ⟨tokens, htokens, hderives⟩

/-- A legible table expression on its own is what its text is parsed as. -/
theorem parse_text_table {table : Table} (h : table.Legible knows) :
    parse knows table.text = .ok (.table table) := by
  have hprogram : (Program.table table).Legible knows := h
  exact parse_text hprogram

/-- The legible programs are those that sources have. -/
theorem exists_parse_iff_legible {program : Program} :
    (∃ source, parse knows source = .ok program) ↔ program.Legible knows :=
  ⟨fun ⟨_, h⟩ => legible_of_parse h, fun h => ⟨program.text, parse_text h⟩⟩

/-- The text of a parsed program is parsed as the same program. -/
theorem parse_text_of_parse (knows : String → Bool) {source : String} {program : Program}
    (h : parse knows source = .ok program) : parse knows program.text = .ok program :=
  parse_text (legible_of_parse h)

/-- Numbers are respelled, one that is no double as a string, and so is the operator. -/
theorem parse_text_of_parse_respelled :
    ∃ program, parse (fun _ => true)
        "inner-join( select(x != 1e400, proj.draw), union(a.b, c.d), y<-007.50e+1 )" = .ok program ∧
      program.text = "inner-join(select(x<>\"1e400\",proj.draw),union(a.b,c.d),y<-75.0)" ∧
      parse (fun _ => true) program.text = .ok program := by
  have h : parse (fun _ => true)
      "inner-join( select(x != 1e400, proj.draw), union(a.b, c.d), y<-007.50e+1 )" =
        .ok (.table (.predicateJoin .inner
          (.selection ⟨"x", .notEqual, .constant (.string "1e400")⟩ (.collection "proj" "draw"))
          (.union (.collection "a" "b") (.collection "c" "d"))
          ⟨"y", .less, .constant (.number (.double ⟨true, 0x4052C00000000000, by decide⟩))⟩)) := by
    decide +kernel
  exact ⟨_, h, by decide +kernel, parse_text_of_parse _ h⟩

end TableQuery
