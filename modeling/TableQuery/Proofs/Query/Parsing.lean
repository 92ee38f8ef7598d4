import Mathlib.Data.List.Nodup
import TableQuery.Proofs.Query.Grammar

/-!
# The parser reads the grammar

A source is parsed as a program exactly if its lexemes derive the program (`parse_eq_ok_iff`).

One direction follows the parser: whatever a rule gives has a derivation.  It is an induction on the
fuel.  The other direction follows the derivation: the rule accepts its lexemes.  An alternative that
applies is found whatever is tried before it, since the first two lexemes predict which alternative can
give anything at all (`predicted_of_gives`).  So committing to the first that applies loses nothing.  Two
choices are made elsewhere.  The field of a join is told from a table by the comma after it, and a pair
is the last one if no comma follows it.

As the parser gives one program at most, no lexemes derive two.
-/

namespace TableQuery

open Grammar

namespace Parser

variable {knows : String → Bool} {path : RulePath} {input rest : List Token}
  {before between after : List Lexeme}

/-! ## Predicates and pairs -/

theorem gives_operand {node : Operand} : operand.Gives input node rest ↔
    ∃ lexeme offset, input = ⟨lexeme, offset⟩ :: rest ∧ IsOperand node lexeme := by
  rw [operand, gives_ofFunction]
  constructor
  · intro h
    split at h
    next word offset tail =>
      cases h
      exact ⟨_, _, rfl, .field word⟩
    next value offset tail =>
      cases h
      exact ⟨_, _, rfl, .text value⟩
    next value offset tail =>
      cases h
      exact ⟨_, _, rfl, .number value⟩
    next => cases h
  · rintro ⟨lexeme, offset, rfl, _ | _ | _⟩ <;> rfl

theorem TakesToken.operand : TakesToken operand :=
  .of_gives fun _ _ _ h => by
    obtain ⟨_, _, rfl, _⟩ := gives_operand.mp h
    exact ⟨_, rfl⟩

theorem isPredicate_of_gives {node : Predicate} (h : (predicate path).Gives input node rest) :
    IsPredicate (lexemes input) node (lexemes rest) := by
  simp only [predicate, gives_trying, gives_bind, gives_name, gives_comparator, gives_operand,
    gives_pure] at h
  obtain ⟨field, _, ⟨_, rfl⟩, comparator, _, ⟨_, rfl⟩, operand, _, ⟨_, _, rfl, hoperand⟩, rfl, rfl⟩ := h
  exact .intro hoperand

theorem accepts_predicate {node : Predicate} (h : IsPredicate before node after) :
    (predicate path).Accepts before node after := by
  cases h with
  | intro hoperand =>
    refine .trying (.bind (.name _ _) (.bind (.comparator _ _) (.bind ?_ (.pure _ _))))
    exact .of_token (fun offset _ => gives_operand.mpr ⟨_, offset, rfl, hoperand⟩) _

theorem isPair_of_gives {pair : String × String} (h : (namePair path).Gives input pair rest) :
    IsPair (lexemes input) pair (lexemes rest) := by
  simp only [namePair, gives_trying, gives_bind, gives_name, gives_expect, gives_pure] at h
  obtain ⟨source, _, ⟨_, rfl⟩, _, _, ⟨_, rfl⟩, target, _, ⟨_, rfl⟩, rfl, rfl⟩ := h
  exact .intro

theorem accepts_namePair {pair : String × String} (h : IsPair before pair after) :
    (namePair path).Accepts before pair after := by
  cases h with
  | intro =>
    exact .trying (.bind (.name _ _) (.bind (.expect _ _) (.bind (.name _ _) (.pure _ _))))

theorem isPairs_of_gives {fuel : Nat} {node : FieldPairs}
    (h : (pairsFrom fuel path).Gives input node rest) :
    IsPairs (lexemes input) node (lexemes rest) := by
  induction fuel generalizing path input node rest with
  | zero => cases h
  | succ fuel ih =>
    obtain hmore | ⟨_, hone⟩ := gives_orElse.mp h
    · simp only [gives_trying, gives_bind, gives_expect, gives_pure] at hmore
      obtain ⟨pair, _, hpair, _, _, ⟨_, rfl⟩, pairs, _, hpairs, rfl, rfl⟩ := hmore
      exact .more (isPair_of_gives hpair) (ih hpairs)
    · simp only [gives_trying, gives_bind, gives_pure] at hone
      obtain ⟨pair, _, hpair, rfl, rfl⟩ := hone
      exact .one (isPair_of_gives hpair)

/-- Pairs are read to the end if no comma follows them. -/
theorem accepts_pairsFrom {node : FieldPairs} (h : IsPairs before node after)
    (hend : ∀ more, after ≠ .comma :: more) {fuel : Nat} (hfuel : before.length < fuel) :
    (pairsFrom fuel path).Accepts before node after := by
  induction h generalizing fuel path with
  | @more pair pairs before between after hpair hpairs ih =>
    obtain ⟨fuel, rfl⟩ := Nat.exists_eq_add_one_of_ne_zero (Nat.ne_zero_of_lt hfuel)
    refine .orElse_left (.trying ?_) _
    refine .bind (accepts_namePair hpair) (.bind (.expect _ _) (.bind (ih hend ?_) (.pure _ _)))
    cases hpair
    simp only [List.length_cons] at hfuel
    omega
  | @one pair before after hpair =>
    obtain ⟨fuel, rfl⟩ := Nat.exists_eq_add_one_of_ne_zero (Nat.ne_zero_of_lt hfuel)
    refine .orElse_right (.of_not_gives ?_) (.trying (.bind (accepts_namePair hpair) (.pure _ _)))
    intro input node rest hinput hgives
    simp only [gives_trying, gives_bind, gives_expect] at hgives
    -- the pair is the same one, and a comma would have to follow it
    obtain ⟨other, middle, hother, _, _, ⟨_, rfl⟩, _⟩ := hgives
    obtain ⟨tail, htail, hpair⟩ := accepts_namePair hpair input hinput
    obtain ⟨_, rfl⟩ := hother.unique hpair
    exact hend _ htail.symm

theorem pairs_eq_pairsFrom (path : RulePath) (input : List Token) :
    pairs path input = pairsFrom (input.length + 1) path input := by
  rw [pairs]

theorem gives_pairs {node : FieldPairs} : (pairs path).Gives input node rest ↔
    (pairsFrom (input.length + 1) path).Gives input node rest := by
  rw [Gives, Gives, pairs_eq_pairsFrom]

theorem accepts_pairs {node : FieldPairs} (h : IsPairs before node after)
    (hend : ∀ more, after ≠ .comma :: more) : (pairs path).Accepts before node after := by
  intro input hinput
  have hfuel : before.length < input.length + 1 := by
    rw [← hinput, length_lexemes]
    exact Nat.lt_succ_self _
  obtain ⟨rest, hrest, hgives⟩ := accepts_pairsFrom h hend hfuel input hinput
  exact ⟨rest, hrest, gives_pairs.mpr hgives⟩

/-! ## Which alternative applies -/

section Alternatives

variable (knows : String → Bool) (table : RulePath → Parser Table)

/-- The alternatives for a table, each with the rule that it is recorded as. -/
def alternatives : List (Rule × (RulePath → Parser Table)) :=
  [(.collection, collection knows), (.join, join table),
    (.spatialJoin, binary table "spatial-join" .spatialJoin),
    (.union, binary table "union" .union), (.product, binary table "product" .product),
    (.projection, projection table), (.selection, selection table)]

theorem tableStep_eq_firstOf (path : RulePath) : tableStep knows table path =
    firstOf ((alternatives knows table).map fun alternative =>
      trying path alternative.1 alternative.2) := rfl

theorem nodup_alternatives : ((alternatives knows table).map Prod.fst).Nodup := by
  show [Rule.collection, .join, .spatialJoin, .union, .product, .projection, .selection].Nodup
  decide

variable {knows table}

/-- An alternative gives something only on lexemes that predict it. -/
theorem predicted_of_gives {alternative : Rule × (RulePath → Parser Table)} {node : Table}
    (hmem : alternative ∈ alternatives knows table) (h : (alternative.2 path).Gives input node rest) :
    predicted (lexemes input) = some alternative.1 := by
  simp only [alternatives, List.mem_cons, List.not_mem_nil, or_false] at hmem
  obtain rfl | rfl | rfl | rfl | rfl | rfl | rfl := hmem
  · simp only [collection, gives_bind, gives_dataset, gives_expect] at h
    obtain ⟨dataset, _, ⟨_, _, rfl⟩, _, _, ⟨_, rfl⟩, _⟩ := h
    rfl
  · simp only [join, gives_bind, gives_joinName, gives_expect] at h
    obtain ⟨join, _, ⟨_, rfl⟩, _, _, ⟨_, rfl⟩, _⟩ := h
    exact predicted_join join _
  all_goals
    simp only [binary, projection, selection, gives_bind, gives_keyword, gives_expect] at h
    obtain ⟨_, _, ⟨_, rfl⟩, _, _, ⟨_, rfl⟩, _⟩ := h
    rfl

/-- The alternative that applies is found, whatever is tried before it. -/
theorem accepts_tableStep {alternative : Rule × (RulePath → Parser Table)} {node : Table}
    (hmem : alternative ∈ alternatives knows table)
    (h : (alternative.2 (path ++ [alternative.1])).Accepts before node after) :
    (tableStep knows table path).Accepts before node after := by
  intro input hinput
  obtain ⟨rest, hrest, hgives⟩ := h input hinput
  refine ⟨rest, hrest, ?_⟩
  rw [tableStep_eq_firstOf]
  refine gives_firstOf_of_agree (List.mem_map_of_mem hmem) hgives fun other hother node' rest' h' => ?_
  obtain ⟨found, hfound, rfl⟩ := List.mem_map.mp hother
  have hrule : found.1 = alternative.1 := Option.some.inj
    ((predicted_of_gives hfound h').symm.trans (predicted_of_gives hmem hgives))
  have hsame : found = alternative :=
    List.inj_on_of_nodup_map (nodup_alternatives knows table) hfound hmem hrule
  subst hsame
  exact Gives.unique h' hgives

end Alternatives

/-! ## Tables -/

section Steps

variable {table : RulePath → Parser Table}

theorem isTable_of_condition {join : JoinType} {left : Table} {condition : Condition}
    {inside : List Lexeme}
    (htable : ∀ path input node rest, (table path).Gives input node rest →
      IsTable knows (lexemes input) node (lexemes rest))
    (hleft : IsTable knows inside left (.comma :: lexemes input))
    (h : (Parser.condition table path).Gives input condition rest) :
    IsTable knows (.word join.name :: .openParen :: inside) (condition.table join left)
      (lexemes rest) := by
  obtain hfields | ⟨_, hpredicate⟩ := gives_orElse.mp h
  · simp only [gives_trying, gives_bind, gives_name, gives_expect, gives_pure] at hfields
    obtain ⟨leftField, _, ⟨_, rfl⟩, _, _, ⟨_, rfl⟩, right, _, hright, _, _, ⟨_, rfl⟩, rightField, _,
      ⟨_, rfl⟩, _, _, ⟨_, rfl⟩, rfl, rfl⟩ := hfields
    exact .fieldJoin hleft (htable _ _ _ _ hright)
  · simp only [gives_trying, gives_bind, gives_expect, gives_pure] at hpredicate
    obtain ⟨right, _, hright, _, _, ⟨_, rfl⟩, predicate, _, hpredicate, _, _, ⟨_, rfl⟩, rfl, rfl⟩ :=
      hpredicate
    exact .predicateJoin hleft (htable _ _ _ _ hright) (isPredicate_of_gives hpredicate)

/-- An operation with two tables is a keyword with two tables in brackets. -/
theorem exists_operands_of_binary {word : String} {make : Table → Table → Table} {node : Table}
    (htable : ∀ path input node rest, (table path).Gives input node rest →
      IsTable knows (lexemes input) node (lexemes rest))
    (h : (binary table word make path).Gives input node rest) :
    ∃ left right inside between, make left right = node ∧
      lexemes input = .word word :: .openParen :: inside ∧
      IsTable knows inside left (.comma :: between) ∧
      IsTable knows between right (.closeParen :: lexemes rest) := by
  simp only [binary, gives_bind, gives_keyword, gives_expect, gives_pure] at h
  obtain ⟨_, _, ⟨_, rfl⟩, _, _, ⟨_, rfl⟩, left, _, hleft, _, _, ⟨_, rfl⟩, right, _, hright, _, _,
    ⟨_, rfl⟩, hnode, rfl⟩ := h
  exact ⟨left, right, _, _, hnode, rfl, htable _ _ _ _ hleft, htable _ _ _ _ hright⟩

/-- What an alternative gives derives from the lexemes it takes, if what its operands give does. -/
theorem isTable_of_tableStep {node : Table}
    (htable : ∀ path input node rest, (table path).Gives input node rest →
      IsTable knows (lexemes input) node (lexemes rest))
    (h : (tableStep knows table path).Gives input node rest) :
    IsTable knows (lexemes input) node (lexemes rest) := by
  obtain ⟨rule, hrule, hgives⟩ := exists_gives_of_firstOf h
  simp only [List.mem_cons, List.not_mem_nil, or_false] at hrule
  obtain rfl | rfl | rfl | rfl | rfl | rfl | rfl := hrule
  · simp only [collection, gives_trying, gives_bind, gives_dataset, gives_expect, gives_name,
      gives_pure] at hgives
    obtain ⟨dataset, _, ⟨hknows, _, rfl⟩, _, _, ⟨_, rfl⟩, sectionName, _, ⟨_, rfl⟩, rfl, rfl⟩ := hgives
    exact .collection hknows
  · simp only [join, gives_trying, gives_bind, gives_joinName, gives_expect, gives_pure] at hgives
    obtain ⟨join, _, ⟨_, rfl⟩, _, _, ⟨_, rfl⟩, left, _, hleft, _, _, ⟨_, rfl⟩, condition, _,
      hcondition, rfl, rfl⟩ := hgives
    exact isTable_of_condition htable (htable _ _ _ _ hleft) hcondition
  · obtain ⟨left, right, _, _, rfl, hinput, hleft, hright⟩ := exists_operands_of_binary htable hgives
    exact hinput ▸ .spatialJoin hleft hright
  · obtain ⟨left, right, _, _, rfl, hinput, hleft, hright⟩ := exists_operands_of_binary htable hgives
    exact hinput ▸ .union hleft hright
  · obtain ⟨left, right, _, _, rfl, hinput, hleft, hright⟩ := exists_operands_of_binary htable hgives
    exact hinput ▸ .product hleft hright
  · simp only [gives_trying, projection, gives_bind, gives_keyword, gives_expect, gives_pure] at hgives
    obtain ⟨_, _, ⟨_, rfl⟩, _, _, ⟨_, rfl⟩, input, _, hinput, _, _, ⟨_, rfl⟩, _, _, ⟨_, rfl⟩, pairs, _,
      hpairs, _, _, ⟨_, rfl⟩, _, _, ⟨_, rfl⟩, rfl, rfl⟩ := hgives
    exact .projection (htable _ _ _ _ hinput) (isPairs_of_gives (gives_pairs.mp hpairs))
  · simp only [gives_trying, selection, gives_bind, gives_keyword, gives_expect, gives_pure] at hgives
    obtain ⟨_, _, ⟨_, rfl⟩, _, _, ⟨_, rfl⟩, predicate, _, hpredicate, _, _, ⟨_, rfl⟩, input, _, hinput,
      _, _, ⟨_, rfl⟩, rfl, rfl⟩ := hgives
    exact .selection (isPredicate_of_gives hpredicate) (htable _ _ _ _ hinput)

theorem accepts_binary {word : String} {make : Table → Table → Table} {left right : Table}
    {inside : List Lexeme} (hleft : ∀ path, (table path).Accepts inside left (.comma :: between))
    (hright : ∀ path, (table path).Accepts between right (.closeParen :: after)) :
    (binary table word make path).Accepts (.word word :: .openParen :: inside) (make left right)
      after :=
  .bind (.keyword _ _) (.bind (.expect _ _) (.bind (hleft _) (.bind (.expect _ _)
    (.bind (hright _) (.bind (.expect _ _) (.pure _ _))))))

theorem accepts_join {join : JoinType} {left : Table} {inside : List Lexeme} (condition : Condition)
    (hleft : ∀ path, (table path).Accepts inside left (.comma :: between))
    (hcondition : ∀ path, (Parser.condition table path).Accepts between condition after) :
    (Parser.join table path).Accepts (.word join.name :: .openParen :: inside)
      (condition.table join left) after :=
  .bind (.joinName _ _) (.bind (.expect _ _) (.bind (hleft _) (.bind (.expect _ _)
    (.bind (hcondition _) (.pure _ _)))))

/-- No table has a comma in the second place, so a join on fields is not missed for one on a
predicate, nor the other way round. -/
theorem accepts_onPredicate {right : Table} {predicate : Predicate}
    (hsome : (predicted before).isSome = true)
    (hright : ∀ path, (table path).Accepts before right (.comma :: between))
    (hpredicate : IsPredicate between predicate (.closeParen :: after)) :
    (condition table path).Accepts before (.onPredicate right predicate) after := by
  refine .orElse_right (.of_not_gives ?_) (.trying (.bind (hright _) (.bind (.expect _ _)
    (.bind (accepts_predicate hpredicate) (.bind (.expect _ _) (.pure _ _))))))
  intro input node rest hinput hgives
  simp only [gives_trying, gives_bind, gives_name, gives_expect] at hgives
  obtain ⟨leftField, _, ⟨_, rfl⟩, _, _, ⟨_, rfl⟩, _⟩ := hgives
  rw [← hinput] at hsome
  cases hsome

end Steps

/-- What the parser gives as a table derives from the lexemes that it takes. -/
theorem isTable_of_gives {fuel : Nat} {node : Table}
    (h : (tableFrom knows fuel path).Gives input node rest) :
    IsTable knows (lexemes input) node (lexemes rest) := by
  induction fuel generalizing path input node rest with
  | zero => cases h
  | succ fuel ih => exact isTable_of_tableStep (fun _ _ _ _ => ih) h

theorem accepts_tableFrom_of_alternative {node : Table} {fuel : Nat} (hfuel : before.length < fuel)
    (h : ∀ fuel, before.length ≤ fuel → ∃ alternative ∈ alternatives knows (tableFrom knows fuel),
      ∀ path, (alternative.2 path).Accepts before node after) :
    (tableFrom knows fuel path).Accepts before node after := by
  obtain ⟨fuel, rfl⟩ := Nat.exists_eq_add_one_of_ne_zero (Nat.ne_zero_of_lt hfuel)
  obtain ⟨alternative, hmem, haccepts⟩ := h fuel (Nat.le_of_lt_succ hfuel)
  exact accepts_tableStep hmem (haccepts _)

theorem accepts_tableFrom_of_binary (rule : Rule) {word : String} {make : Table → Table → Table}
    {left right : Table} {inside : List Lexeme} {fuel : Nat}
    (hmem : ∀ table, (rule, binary table word make) ∈ alternatives knows table)
    (hleft : IsTable knows inside left (.comma :: between))
    (ihl : ∀ fuel path, inside.length < fuel →
      (tableFrom knows fuel path).Accepts inside left (.comma :: between))
    (ihr : ∀ fuel path, between.length < fuel →
      (tableFrom knows fuel path).Accepts between right (.closeParen :: after))
    (hfuel : (Lexeme.word word :: .openParen :: inside).length < fuel) :
    (tableFrom knows fuel path).Accepts (.word word :: .openParen :: inside) (make left right)
      after := by
  refine accepts_tableFrom_of_alternative hfuel fun fuel hle => ⟨_, hmem _, fun path => ?_⟩
  have hlt := hleft.length_lt
  simp only [List.length_cons] at hlt hle
  exact accepts_binary (fun _ => ihl _ _ (by omega)) fun _ => ihr _ _ (by omega)

/-- Whatever derives a table is read as that table.  The operands of a table start at later tokens, so
the fuel lasts. -/
theorem accepts_tableFrom {node : Table} (h : IsTable knows before node after) {fuel : Nat}
    (hfuel : before.length < fuel) : (tableFrom knows fuel path).Accepts before node after := by
  induction h generalizing fuel path with
  | collection hknows =>
    refine accepts_tableFrom_of_alternative hfuel fun fuel _ =>
      ⟨(.collection, collection knows), by simp [alternatives], fun path => ?_⟩
    exact .bind (.dataset hknows _ _) (.bind (.expect _ _) (.bind (.name _ _) (.pure _ _)))
  | @fieldJoin join left right leftField rightField inside between after hl hr ihl ihr =>
    refine accepts_tableFrom_of_alternative hfuel fun fuel hle =>
      ⟨(.join, Parser.join (tableFrom knows fuel)), by simp [alternatives], fun path => ?_⟩
    have hlt := hl.length_lt
    simp only [List.length_cons] at hlt hle
    refine accepts_join (.onFields leftField right rightField)
      (fun _ => ihl (by omega)) fun _ => .orElse_left (.trying ?_) _
    exact .bind (.name _ _) (.bind (.expect _ _) (.bind (ihr (by omega)) (.bind (.expect _ _)
      (.bind (.name _ _) (.bind (.expect _ _) (.pure _ _))))))
  | @predicateJoin join left right predicate inside between condition after hl hr hp ihl ihr =>
    refine accepts_tableFrom_of_alternative hfuel fun fuel hle =>
      ⟨(.join, Parser.join (tableFrom knows fuel)), by simp [alternatives], fun path => ?_⟩
    have hlt := hl.length_lt
    simp only [List.length_cons] at hlt hle
    exact accepts_join (.onPredicate right predicate) (fun _ => ihl (by omega))
      fun _ => accepts_onPredicate hr.isSome_predicted (fun _ => ihr (by omega)) hp
  | spatialJoin hl hr ihl ihr =>
    exact accepts_tableFrom_of_binary .spatialJoin (fun _ => by simp [alternatives]) hl (fun _ _ => ihl)
      (fun _ _ => ihr) hfuel
  | union hl hr ihl ihr =>
    exact accepts_tableFrom_of_binary .union (fun _ => by simp [alternatives]) hl (fun _ _ => ihl)
      (fun _ _ => ihr) hfuel
  | product hl hr ihl ihr =>
    exact accepts_tableFrom_of_binary .product (fun _ => by simp [alternatives]) hl (fun _ _ => ihl)
      (fun _ _ => ihr) hfuel
  | projection hi hp ih =>
    refine accepts_tableFrom_of_alternative hfuel fun fuel hle =>
      ⟨(.projection, projection (tableFrom knows fuel)), by simp [alternatives], fun path => ?_⟩
    simp only [List.length_cons] at hle
    exact .bind (.keyword _ _) (.bind (.expect _ _) (.bind (ih (by omega)) (.bind (.expect _ _)
      (.bind (.expect _ _) (.bind (accepts_pairs hp (by simp)) (.bind (.expect _ _)
        (.bind (.expect _ _) (.pure _ _))))))))
  | @selection predicate input inside between after hp hi ih =>
    refine accepts_tableFrom_of_alternative hfuel fun fuel hle =>
      ⟨(.selection, selection (tableFrom knows fuel)), by simp [alternatives], fun path => ?_⟩
    have hlt := hp.length_lt
    simp only [List.length_cons] at hlt hle
    exact .bind (.keyword _ _) (.bind (.expect _ _) (.bind (accepts_predicate hp)
      (.bind (.expect _ _) (.bind (ih (by omega)) (.bind (.expect _ _) (.pure _ _))))))

theorem table_eq_tableFrom (knows : String → Bool) (path : RulePath) (input : List Token) :
    table knows path input = tableFrom knows (input.length + 1) path input := by
  rw [table]

theorem gives_table {node : Table} : (table knows path).Gives input node rest ↔
    (tableFrom knows (input.length + 1) path).Gives input node rest := by
  rw [Gives, Gives, table_eq_tableFrom]

theorem accepts_table {node : Table} (h : IsTable knows before node after) :
    (table knows path).Accepts before node after := by
  intro input hinput
  have hfuel : before.length < input.length + 1 := by
    rw [← hinput, length_lexemes]
    exact Nat.lt_succ_self _
  obtain ⟨rest, hrest, hgives⟩ := accepts_tableFrom h hfuel input hinput
  exact ⟨rest, hrest, gives_table.mpr hgives⟩

/-! ## Programs -/

@[simp] theorem gives_whole {rule : Rule} {body : RulePath → Parser Program} {node : Program} :
    (whole rule body).Gives input node rest ↔ (body [rule]).Gives input node [] ∧ rest = [] := by
  rw [Gives, Gives, whole]
  obtain ⟨_ | ⟨found, _ | ⟨token, middle⟩⟩, trace⟩ := body [rule] input
  · simp
  · simp [eq_comm]
  · simp

theorem accepts_whole {rule : Rule} {body : RulePath → Parser Program} {node : Program}
    (h : (body [rule]).Accepts before node []) : (whole rule body).Accepts before node [] := by
  intro input hinput
  obtain ⟨rest, hrest, hgives⟩ := h input hinput
  rw [lexemes_eq_nil_iff.mp hrest] at hgives
  exact ⟨[], rfl, gives_whole.mpr ⟨hgives, rfl⟩⟩

theorem isProgram_of_gives {node : Program} (h : (program knows).Gives input node rest) :
    IsProgram knows (lexemes input) node := by
  obtain ⟨rule, hrule, hgives⟩ := exists_gives_of_firstOf h
  simp only [List.mem_cons, List.not_mem_nil, or_false] at hrule
  obtain rfl | rfl | rfl := hrule
  · simp only [gives_whole, display, gives_bind, gives_keyword, gives_expect, gives_pure] at hgives
    obtain ⟨⟨_, _, ⟨_, rfl⟩, _, _, ⟨_, rfl⟩, input, _, hinput, _, _, ⟨_, rfl⟩, rfl, rfl⟩, _⟩ := hgives
    exact .display (isTable_of_gives (gives_table.mp hinput))
  · simp only [gives_whole, draw, gives_bind, gives_keyword, gives_expect, gives_dataset,
      gives_pure] at hgives
    obtain ⟨⟨_, _, ⟨_, rfl⟩, _, _, ⟨_, rfl⟩, dataset, _, ⟨hknows, _, rfl⟩, _, _, ⟨_, rfl⟩, rfl, rfl⟩,
      _⟩ := hgives
    exact .draw hknows
  · simp only [gives_whole, bare, gives_bind, gives_pure] at hgives
    obtain ⟨⟨input, _, hinput, rfl, rfl⟩, _⟩ := hgives
    exact .table (isTable_of_gives (gives_table.mp hinput))

theorem accepts_program {node : Program} (h : IsProgram knows before node) :
    (program knows).Accepts before node [] := by
  cases h with
  | display hinput =>
    refine .orElse_left (accepts_whole ?_) _
    exact .bind (.keyword _ _) (.bind (.expect _ _) (.bind (accepts_table hinput)
      (.bind (.expect _ _) (.pure _ _))))
  | draw hknows =>
    refine .orElse_right (.of_not_gives ?_) (.orElse_left (accepts_whole ?_) _)
    · intro input node rest hinput hgives
      simp only [gives_whole, display, gives_bind, gives_keyword] at hgives
      obtain ⟨⟨_, _, ⟨_, rfl⟩, _⟩, _⟩ := hgives
      simp at hinput
    · exact .bind (.keyword _ _) (.bind (.expect _ _) (.bind (.dataset hknows _ _)
        (.bind (.expect _ _) (.pure _ _))))
  | table hinput =>
    -- no table starts with one of the two words and a parenthesis
    have hsome := hinput.isSome_predicted
    refine .orElse_right (.of_not_gives ?_) (.orElse_right (.of_not_gives ?_) (accepts_whole
      (.bind (accepts_table hinput) (.pure _ _))))
    · intro input node rest hinput hgives
      simp only [gives_whole, display, gives_bind, gives_keyword, gives_expect] at hgives
      obtain ⟨⟨_, _, ⟨_, rfl⟩, _, _, ⟨_, rfl⟩, _⟩, _⟩ := hgives
      rw [← hinput, lexemes_cons, lexemes_cons, predicted_display] at hsome
      cases hsome
    · intro input node rest hinput hgives
      simp only [gives_whole, draw, gives_bind, gives_keyword, gives_expect] at hgives
      obtain ⟨⟨_, _, ⟨_, rfl⟩, _, _, ⟨_, rfl⟩, _⟩, _⟩ := hgives
      rw [← hinput, lexemes_cons, lexemes_cons, predicted_draw] at hsome
      cases hsome

theorem exists_gives_program_iff {node : Program} :
    (∃ rest, (program knows).Gives input node rest) ↔ IsProgram knows (lexemes input) node := by
  constructor
  · rintro ⟨rest, h⟩
    exact isProgram_of_gives h
  · intro h
    obtain ⟨rest, _, hgives⟩ := accepts_program h input rfl
    exact ⟨rest, hgives⟩

end Parser

/-! ## Sources -/

/-- A source is parsed as a program exactly if it has tokens and they derive the program. -/
theorem parse_eq_ok_iff {knows : String → Bool} {source : String} {program : Program} :
    parse knows source = .ok program ↔
      ∃ tokens, tokenize source.toList = .ok tokens ∧ IsProgram knows (lexemes tokens) program := by
  rw [parse]
  cases htokens : tokenize source.toList with
  | error fault => simp
  | ok tokens =>
    have hgives : (∃ rest, (Parser.program knows).Gives tokens program rest) ↔
        IsProgram knows (lexemes tokens) program := Parser.exists_gives_program_iff
    simp only [Except.ok.injEq, exists_eq_left', ← hgives, Parser.Gives]
    split
    next found rest trace heq => simp [heq, eq_comm]
    next trace heq => simp [heq]

/-- A source that has tokens and cannot be parsed leaves what is recorded of its parse. -/
theorem program_of_parse_eq_error {knows : String → Bool} {source : String} {tokens : List Token}
    {failure : ParseFailure} (htokens : tokenize source.toList = .ok tokens)
    (h : parse knows source = .error failure) :
    (Parser.program knows tokens).result = none ∧
      failure.trace = (Parser.program knows tokens).trace.map (Attempt.entry source.toList) ∧
      failure.cause = .ofFurthest (Trace.furthest? failure.trace) := by
  rw [parse, htokens] at h
  simp only at h
  split at h
  next => cases h
  next trace heq =>
    cases h
    rw [heq]
    exact ⟨rfl, rfl, rfl⟩

/-- Lexemes derive one program at most. -/
theorem Grammar.IsProgram.unique {knows : String → Bool} {all : List Lexeme} {a b : Program}
    (ha : IsProgram knows all a) (hb : IsProgram knows all b) : a = b := by
  have hall : lexemes (all.map fun lexeme => ⟨lexeme, 0⟩) = all := by
    simp [lexemes, Function.comp_def]
  obtain ⟨_, _, hgivesA⟩ := Parser.accepts_program ha _ hall
  obtain ⟨_, _, hgivesB⟩ := Parser.accepts_program hb _ hall
  exact (hgivesA.unique hgivesB).1

/-- The parser gives a program exactly if the lexemes of the source derive it, and they derive one at
most. -/
theorem parse_eq_ok_iff_derives (knows : String → Bool) {source : String} {tokens : List Token}
    (h : tokenize source.toList = .ok tokens) :
    (∀ program, parse knows source = .ok program ↔ IsProgram knows (lexemes tokens) program) ∧
      ∀ a b, IsProgram knows (lexemes tokens) a → IsProgram knows (lexemes tokens) b → a = b := by
  refine ⟨fun program => ?_, fun a b => IsProgram.unique⟩
  rw [parse_eq_ok_iff, h]
  simp

/-- A join of which the second operand reads like a field, up to the comma. -/
theorem parse_eq_ok_iff_derives_of_join :
    ∃ tokens, tokenize "left-join(union.a,display.b,x=1e400)".toList = .ok tokens ∧
      (∀ program, parse (fun _ => true) "left-join(union.a,display.b,x=1e400)" = .ok program ↔
        IsProgram (fun _ => true) (lexemes tokens) program) ∧
      (∀ a b, IsProgram (fun _ => true) (lexemes tokens) a →
        IsProgram (fun _ => true) (lexemes tokens) b → a = b) ∧
      IsProgram (fun _ => true) (lexemes tokens)
        (.table (.predicateJoin .left (.collection "union" "a") (.collection "display" "b")
          ⟨"x", .equal, .constant (.string "1e400")⟩)) := by
  have h : tokenize "left-join(union.a,display.b,x=1e400)".toList =
    .ok [⟨.word "left-join", 0⟩, ⟨.openParen, 9⟩, ⟨.word "union", 10⟩, ⟨.dot, 15⟩, ⟨.word "a", 16⟩,
      ⟨.comma, 17⟩, ⟨.word "display", 18⟩, ⟨.dot, 25⟩, ⟨.word "b", 26⟩, ⟨.comma, 27⟩,
      ⟨.word "x", 28⟩, ⟨.comparator .equal, 29⟩, ⟨.number (.string "1e400"), 30⟩,
      ⟨.closeParen, 35⟩] := by decide +kernel
  obtain ⟨hparse, hunique⟩ := parse_eq_ok_iff_derives (fun _ => true) h
  refine ⟨_, h, hparse, hunique, .table ?_⟩
  show IsTable _ (.word JoinType.left.name :: _) _ _
  exact .predicateJoin (.collection rfl) (.collection rfl) (.intro (.number _))

end TableQuery
