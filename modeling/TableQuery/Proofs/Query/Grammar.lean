import TableQuery.Proofs.Query.Rule

/-!
# The grammar

A query derives from its lexemes by the grammar at the head of the parser.  Each nonterminal is a relation
between the lexemes before a phrase, what the phrase means, and the lexemes after it.  Every
alternative is a constructor, and nothing says in which order alternatives are tried.

* `IsOperand`, `IsPredicate`, `IsPair`, `IsPairs`: the parts of tables.
* `IsTable`: a table.  The two ends of a join, on fields and on a predicate, are written out in its
  two constructors.
* `IsProgram`: a program, which takes up all lexemes.

The first two lexemes of a table say which alternative it is (`predicted`), and no table starts like the
field that may stand in its place in a join.
-/

namespace TableQuery

namespace Grammar

/-- The right side of a predicate: a name, a string literal or a number. -/
inductive IsOperand : Operand → Lexeme → Prop where
  | field (name : String) : IsOperand (.field name) (.word name)
  | text (value : String) : IsOperand (.constant (.string value)) (.text value)
  | number (value : Json) : IsOperand (.constant value) (.number value)

/-- A predicate: a name, a comparison operator and an operand. -/
inductive IsPredicate : List Lexeme → Predicate → List Lexeme → Prop where
  | intro {field : String} {comparator : Comparator} {operand : Operand} {lexeme : Lexeme}
      {after : List Lexeme} : IsOperand operand lexeme →
      IsPredicate (.word field :: .comparator comparator :: lexeme :: after)
        ⟨field, comparator, operand⟩ after

/-- A pair: a name, the operator `>` and a name. -/
inductive IsPair : List Lexeme → String × String → List Lexeme → Prop where
  | intro {source target : String} {after : List Lexeme} :
      IsPair (.word source :: .comparator .greater :: .word target :: after) (source, target) after

/-- Pairs: a pair, and a comma and more pairs after it or not. -/
inductive IsPairs : List Lexeme → FieldPairs → List Lexeme → Prop where
  | more {pair : String × String} {pairs : FieldPairs} {before between after : List Lexeme} :
      IsPair before pair (.comma :: between) → IsPairs between pairs after →
      IsPairs before (pair :: pairs) after
  | one {pair : String × String} {before after : List Lexeme} :
      IsPair before pair after → IsPairs before [pair] after

/-- A table, given which names are those of datasets. -/
inductive IsTable (knows : String → Bool) : List Lexeme → Table → List Lexeme → Prop where
  | collection {dataset sectionName : String} {after : List Lexeme} : knows dataset = true →
      IsTable knows (.word dataset :: .dot :: .word sectionName :: after)
        (.collection dataset sectionName) after
  | fieldJoin {join : JoinType} {left right : Table} {leftField rightField : String}
      {inside between after : List Lexeme} :
      IsTable knows inside left (.comma :: .word leftField :: .comma :: between) →
      IsTable knows between right (.comma :: .word rightField :: .closeParen :: after) →
      IsTable knows (.word join.name :: .openParen :: inside)
        (.fieldJoin join left leftField right rightField) after
  | predicateJoin {join : JoinType} {left right : Table} {predicate : Predicate}
      {inside between condition after : List Lexeme} :
      IsTable knows inside left (.comma :: between) →
      IsTable knows between right (.comma :: condition) →
      IsPredicate condition predicate (.closeParen :: after) →
      IsTable knows (.word join.name :: .openParen :: inside)
        (.predicateJoin join left right predicate) after
  | spatialJoin {left right : Table} {inside between after : List Lexeme} :
      IsTable knows inside left (.comma :: between) →
      IsTable knows between right (.closeParen :: after) →
      IsTable knows (.word "spatial-join" :: .openParen :: inside) (.spatialJoin left right) after
  | union {left right : Table} {inside between after : List Lexeme} :
      IsTable knows inside left (.comma :: between) →
      IsTable knows between right (.closeParen :: after) →
      IsTable knows (.word "union" :: .openParen :: inside) (.union left right) after
  | product {left right : Table} {inside between after : List Lexeme} :
      IsTable knows inside left (.comma :: between) →
      IsTable knows between right (.closeParen :: after) →
      IsTable knows (.word "product" :: .openParen :: inside) (.product left right) after
  | projection {input : Table} {pairs : FieldPairs} {inside list after : List Lexeme} :
      IsTable knows inside input (.comma :: .openBracket :: list) →
      IsPairs list pairs (.closeBracket :: .closeParen :: after) →
      IsTable knows (.word "proj" :: .openParen :: inside) (.projection input pairs) after
  | selection {predicate : Predicate} {input : Table} {inside between after : List Lexeme} :
      IsPredicate inside predicate (.comma :: between) →
      IsTable knows between input (.closeParen :: after) →
      IsTable knows (.word "select" :: .openParen :: inside) (.selection predicate input) after

/-- A program, given which names are those of datasets. -/
inductive IsProgram (knows : String → Bool) : List Lexeme → Program → Prop where
  | display {input : Table} {inside : List Lexeme} : IsTable knows inside input [.closeParen] →
      IsProgram knows (.word "display" :: .openParen :: inside) (.display input)
  | draw {dataset : String} : knows dataset = true →
      IsProgram knows [.word "draw", .openParen, .word dataset, .closeParen] (.draw dataset)
  | table {input : Table} {all : List Lexeme} : IsTable knows all input [] →
      IsProgram knows all (.table input)

/-! ## What lexemes come first -/

/-- The alternative for tables that the first two lexemes leave. -/
def predicted : List Lexeme → Option Rule
  | .word _ :: .dot :: _ => some .collection
  | .word word :: .openParen :: _ =>
    if (JoinType.ofName? word).isSome then some .join
    else if word = "spatial-join" then some .spatialJoin
    else if word = "union" then some .union
    else if word = "product" then some .product
    else if word = "proj" then some .projection
    else if word = "select" then some .selection
    else none
  | _ => none

theorem predicted_join (join : JoinType) (after : List Lexeme) :
    predicted (.word join.name :: .openParen :: after) = some .join := by
  cases join <;> rfl

theorem predicted_display (after : List Lexeme) :
    predicted (.word "display" :: .openParen :: after) = none := rfl

theorem predicted_draw (after : List Lexeme) :
    predicted (.word "draw" :: .openParen :: after) = none := rfl

variable {knows : String → Bool} {before after : List Lexeme}

/-- A table starts with two lexemes that tell its alternative. -/
theorem IsTable.isSome_predicted {table : Table} (h : IsTable knows before table after) :
    (predicted before).isSome = true := by
  cases h with
  | collection => rfl
  | fieldJoin | predicateJoin => rw [predicted_join]; rfl
  | spatialJoin | union | product | projection | selection => rfl

theorem IsPredicate.length_lt {predicate : Predicate} (h : IsPredicate before predicate after) :
    after.length < before.length := by
  cases h with
  | intro =>
    simp only [List.length_cons]
    omega

theorem IsPair.length_lt {pair : String × String} (h : IsPair before pair after) :
    after.length < before.length := by
  cases h with
  | intro =>
    simp only [List.length_cons]
    omega

theorem IsPairs.length_lt {pairs : FieldPairs} (h : IsPairs before pairs after) :
    after.length < before.length := by
  induction h with
  | more hpair _ ih =>
    have hlt := hpair.length_lt
    simp only [List.length_cons] at hlt
    omega
  | one hpair => exact hpair.length_lt

/-- A table takes up lexemes. -/
theorem IsTable.length_lt {table : Table} (h : IsTable knows before table after) :
    after.length < before.length := by
  induction h with
  | collection =>
    simp only [List.length_cons]
    omega
  | predicateJoin _ _ hpredicate ihl ihr =>
    have hlt := hpredicate.length_lt
    simp only [List.length_cons] at *
    omega
  | projection _ hpairs ih =>
    have hlt := hpairs.length_lt
    simp only [List.length_cons] at *
    omega
  | selection hpredicate _ ih =>
    have hlt := hpredicate.length_lt
    simp only [List.length_cons] at *
    omega
  | fieldJoin _ _ ihl ihr | spatialJoin _ _ ihl ihr | union _ _ ihl ihr | product _ _ ihl ihr =>
    simp only [List.length_cons] at *
    omega

/-! ## What comes after a phrase -/

/-- A predicate does not depend on what comes after it. -/
theorem IsPredicate.exists_used {predicate : Predicate} (h : IsPredicate before predicate after) :
    ∃ used, before = used ++ after ∧ ∀ other, IsPredicate (used ++ other) predicate other := by
  cases h with
  | @intro field comparator operand lexeme after hoperand =>
    exact ⟨[.word field, .comparator comparator, lexeme], rfl, fun _ => .intro hoperand⟩

theorem IsPair.exists_used {pair : String × String} (h : IsPair before pair after) :
    ∃ used, before = used ++ after ∧ ∀ other, IsPair (used ++ other) pair other := by
  cases h with
  | @intro source target after =>
    exact ⟨[.word source, .comparator .greater, .word target], rfl, fun _ => .intro⟩

theorem IsPairs.exists_used {pairs : FieldPairs} (h : IsPairs before pairs after) :
    ∃ used, before = used ++ after ∧ ∀ other, IsPairs (used ++ other) pairs other := by
  induction h with
  | more hpair _ ih =>
    obtain ⟨first, rfl, hfirst⟩ := hpair.exists_used
    obtain ⟨list, rfl, hlist⟩ := ih
    refine ⟨first ++ .comma :: list, by simp, fun other => ?_⟩
    rw [List.append_assoc]
    exact .more (hfirst _) (hlist other)
  | one hpair =>
    obtain ⟨used, rfl, hused⟩ := hpair.exists_used
    exact ⟨used, rfl, fun other => .one (hused other)⟩

/-- A table does not depend on what comes after it. -/
theorem IsTable.exists_used {table : Table} (h : IsTable knows before table after) :
    ∃ used, before = used ++ after ∧ ∀ other, IsTable knows (used ++ other) table other := by
  induction h with
  | @collection dataset sectionName after hknows =>
    exact ⟨[.word dataset, .dot, .word sectionName], rfl, fun _ => .collection hknows⟩
  | @fieldJoin join left right leftField rightField inside between after _ _ ihl ihr =>
    obtain ⟨front, rfl, hfront⟩ := ihl
    obtain ⟨back, rfl, hback⟩ := ihr
    refine ⟨.word join.name :: .openParen :: (front ++ .comma :: .word leftField :: .comma ::
      (back ++ [.comma, .word rightField, .closeParen])), by simp, fun other => ?_⟩
    simp only [List.cons_append, List.append_assoc, List.nil_append]
    exact .fieldJoin (hfront _) (hback _)
  | @predicateJoin join left right predicate inside between condition after _ _ hpredicate ihl ihr =>
    obtain ⟨front, rfl, hfront⟩ := ihl
    obtain ⟨back, rfl, hback⟩ := ihr
    obtain ⟨last, rfl, hlast⟩ := hpredicate.exists_used
    refine ⟨.word join.name :: .openParen :: (front ++ .comma :: (back ++ .comma ::
      (last ++ [.closeParen]))), by simp, fun other => ?_⟩
    simp only [List.cons_append, List.append_assoc, List.nil_append]
    exact .predicateJoin (hfront _) (hback _) (hlast _)
  | spatialJoin _ _ ihl ihr =>
    obtain ⟨front, rfl, hfront⟩ := ihl
    obtain ⟨back, rfl, hback⟩ := ihr
    refine ⟨.word "spatial-join" :: .openParen :: (front ++ .comma :: (back ++ [.closeParen])), by simp,
      fun other => ?_⟩
    simp only [List.cons_append, List.append_assoc, List.nil_append]
    exact .spatialJoin (hfront _) (hback _)
  | union _ _ ihl ihr =>
    obtain ⟨front, rfl, hfront⟩ := ihl
    obtain ⟨back, rfl, hback⟩ := ihr
    refine ⟨.word "union" :: .openParen :: (front ++ .comma :: (back ++ [.closeParen])), by simp,
      fun other => ?_⟩
    simp only [List.cons_append, List.append_assoc, List.nil_append]
    exact .union (hfront _) (hback _)
  | product _ _ ihl ihr =>
    obtain ⟨front, rfl, hfront⟩ := ihl
    obtain ⟨back, rfl, hback⟩ := ihr
    refine ⟨.word "product" :: .openParen :: (front ++ .comma :: (back ++ [.closeParen])), by simp,
      fun other => ?_⟩
    simp only [List.cons_append, List.append_assoc, List.nil_append]
    exact .product (hfront _) (hback _)
  | projection _ hpairs ih =>
    obtain ⟨front, rfl, hfront⟩ := ih
    obtain ⟨list, rfl, hlist⟩ := hpairs.exists_used
    refine ⟨.word "proj" :: .openParen :: (front ++ .comma :: .openBracket ::
      (list ++ [.closeBracket, .closeParen])), by simp, fun other => ?_⟩
    simp only [List.cons_append, List.append_assoc, List.nil_append]
    exact .projection (hfront _) (hlist _)
  | selection hpredicate _ ih =>
    obtain ⟨front, rfl, hfront⟩ := hpredicate.exists_used
    obtain ⟨back, rfl, hback⟩ := ih
    refine ⟨.word "select" :: .openParen :: (front ++ .comma :: (back ++ [.closeParen])), by simp,
      fun other => ?_⟩
    simp only [List.cons_append, List.append_assoc, List.nil_append]
    exact .selection (hfront _) (hback _)

end Grammar

end TableQuery
