import TableQuery.Query.Parser

/-!
# What rules give

A rule makes a node of the tokens at the front of its input (`Parser.Gives`).  What is recorded on the
way does not matter for that, so each way of building rules has an equivalence here that says what the
built rule gives.  Where what is recorded does matter, the built rule is given as a whole, by whether
its first part gives something.

Rules look at what tokens are and not at where they stand.  `Parser.Accepts` says what a rule does on
every input with the given lexemes.  It is put together as rules are, from the first one to the last.
-/

namespace TableQuery

/-- What tokens are, without their offsets. -/
def lexemes (tokens : List Token) : List Lexeme := tokens.map Token.lexeme

@[simp] theorem lexemes_nil : lexemes [] = [] := rfl

@[simp] theorem lexemes_cons (lexeme : Lexeme) (offset : Nat) (rest : List Token) :
    lexemes (⟨lexeme, offset⟩ :: rest) = lexeme :: lexemes rest := rfl

@[simp] theorem lexemes_append (front back : List Token) :
    lexemes (front ++ back) = lexemes front ++ lexemes back := List.map_append

@[simp] theorem length_lexemes (tokens : List Token) : (lexemes tokens).length = tokens.length :=
  List.length_map ..

theorem lexemes_eq_cons_iff {tokens : List Token} {lexeme : Lexeme} {after : List Lexeme} :
    lexemes tokens = lexeme :: after ↔
      ∃ offset rest, tokens = ⟨lexeme, offset⟩ :: rest ∧ lexemes rest = after := by
  constructor
  · intro h
    obtain ⟨⟨other, offset⟩, rest, rfl, rfl, rfl⟩ := List.map_eq_cons_iff.mp h
    exact ⟨offset, rest, rfl, rfl⟩
  · rintro ⟨offset, rest, rfl, rfl⟩
    rfl

theorem lexemes_eq_nil_iff {tokens : List Token} : lexemes tokens = [] ↔ tokens = [] :=
  List.map_eq_nil_iff

theorem JoinType.ofName?_eq_some_iff {text : String} {join : JoinType} :
    ofName? text = some join ↔ text = join.name := by
  constructor
  · intro h
    have hname := List.find?_some h
    exact (eq_of_beq hname).symm
  · rintro rfl
    cases join <;> decide

namespace Parser

variable {α β : Type} {input rest : List Token}

/-- A rule applies to the tokens, makes a node of those at the front and leaves the rest. -/
def Gives (rule : Parser α) (input : List Token) (node : α) (rest : List Token) : Prop :=
  (rule input).result = some (node, rest)

/-- A rule gives one thing. -/
theorem Gives.unique {rule : Parser α} {a b : α} {after after' : List Token}
    (ha : rule.Gives input a after) (hb : rule.Gives input b after') : a = b ∧ after = after' :=
  Prod.mk.injEq .. ▸ Option.some.inj (ha.symm.trans hb)

/-- A rule gives something or fails. -/
theorem gives_or_none (rule : Parser α) (input : List Token) :
    (∃ node rest, rule.Gives input node rest) ∨ (rule input).result = none := by
  cases h : (rule input).result with
  | none => exact .inr rfl
  | some found => exact .inl ⟨found.1, found.2, h⟩

/-! ## Building rules -/

@[simp] theorem gives_pure {made node : α} :
    (pure made : Parser α).Gives input node rest ↔ made = node ∧ input = rest :=
  ⟨fun h => Prod.mk.inj (Option.some.inj h), fun ⟨hnode, hrest⟩ => by rw [hnode, hrest]; rfl⟩

section Bind

variable {first : Parser α} {next : α → Parser β}

theorem bind_of_gives {made : α} {middle : List Token} (h : first.Gives input made middle) :
    (first >>= next) input =
      ⟨(next made middle).result, (first input).trace ++ (next made middle).trace⟩ := by
  rw [Gives] at h
  simp only [bind]
  split
  next trace heq =>
    rw [heq] at h
    cases h
  next made' middle' trace heq =>
    rw [heq] at h
    cases h
    rw [heq]

theorem bind_of_none (h : (first input).result = none) :
    (first >>= next) input = ⟨none, (first input).trace⟩ := by
  simp only [bind]
  split
  next trace heq => rw [heq]
  next made middle trace heq =>
    rw [heq] at h
    cases h

@[simp] theorem gives_bind {node : β} : (first >>= next).Gives input node rest ↔
    ∃ made middle, first.Gives input made middle ∧ (next made).Gives middle node rest := by
  constructor
  · intro h
    obtain ⟨made, middle, hmade⟩ | hnone := gives_or_none first input
    · rw [Gives, bind_of_gives hmade] at h
      exact ⟨made, middle, hmade, h⟩
    · rw [Gives, bind_of_none hnone] at h
      cases h
  · rintro ⟨made, middle, hmade, hnode⟩
    rw [Gives, bind_of_gives hmade]
    exact hnode

end Bind

@[simp] theorem gives_ofFunction {f : List Token → Option (α × List Token)} {node : α} :
    (ofFunction f).Gives input node rest ↔ f input = some (node, rest) := Iff.rfl

@[simp] theorem gives_attempt {path : RulePath} {rule : Rule} {body : RulePath → Parser α}
    {note : List Token → Option Note} {node : α} :
    (attempt path rule body note).Gives input node rest ↔
      (body (path ++ [rule])).Gives input node rest := Iff.rfl

@[simp] theorem gives_trying {path : RulePath} {rule : Rule} {body : RulePath → Parser α} {node : α} :
    (trying path rule body).Gives input node rest ↔ (body (path ++ [rule])).Gives input node rest :=
  Iff.rfl

section OrElse

variable {first second : Parser α} {node : α}

theorem orElse_of_gives (h : first.Gives input node rest) :
    (first.orElse second) input = first input := by
  rw [Gives] at h
  rw [orElse]
  split
  next found trace heq => rw [heq]
  next trace heq =>
    rw [heq] at h
    cases h

theorem orElse_of_none (h : (first input).result = none) : (first.orElse second) input =
    ⟨(second input).result, (first input).trace ++ (second input).trace⟩ := by
  rw [orElse]
  split
  next found trace heq =>
    rw [heq] at h
    cases h
  next trace heq => rw [heq]

theorem gives_orElse : (first.orElse second).Gives input node rest ↔ first.Gives input node rest ∨
    (first input).result = none ∧ second.Gives input node rest := by
  obtain ⟨made, middle, hmade⟩ | hnone := gives_or_none first input
  · rw [Gives, orElse_of_gives hmade]
    exact ⟨.inl, fun h => h.resolve_right fun h' => by cases hmade.symm.trans h'.1⟩
  · rw [Gives, orElse_of_none hnone]
    exact ⟨fun h => .inr ⟨hnone, h⟩, fun h => h.elim (fun h' => by cases hnone.symm.trans h') And.right⟩

theorem orElse_eq_none_iff : ((first.orElse second) input).result = none ↔
    (first input).result = none ∧ (second input).result = none := by
  rw [orElse]
  split
  next found trace heq => simp [heq]
  next trace heq => simp [heq]

end OrElse

theorem firstOf_cons_cons (rule next : Parser α) (rules : List (Parser α)) :
    firstOf (rule :: next :: rules) = rule.orElse (firstOf (next :: rules)) := rfl

/-- What the first rule that applies gives is given by one of the rules. -/
theorem exists_gives_of_firstOf {rules : List (Parser α)} {node : α}
    (h : (firstOf rules).Gives input node rest) : ∃ rule ∈ rules, rule.Gives input node rest := by
  induction rules with
  | nil => cases h
  | cons rule rules ih =>
    cases rules with
    | nil => exact ⟨rule, List.mem_cons_self .., h⟩
    | cons next rules =>
      obtain hfirst | ⟨_, hrest⟩ := gives_orElse.mp h
      · exact ⟨rule, List.mem_cons_self .., hfirst⟩
      · obtain ⟨found, hmem, hfound⟩ := ih hrest
        exact ⟨found, List.mem_cons_of_mem _ hmem, hfound⟩

/-- Rules in turn fail only if each of them does. -/
theorem firstOf_eq_none_iff {rules : List (Parser α)} : (firstOf rules input).result = none ↔
    ∀ rule ∈ rules, (rule input).result = none := by
  induction rules with
  | nil => simp [firstOf, ofFunction]
  | cons rule rules ih =>
    cases rules with
    | nil => simp [firstOf]
    | cons next rules =>
      rw [firstOf_cons_cons, orElse_eq_none_iff, ih]
      simp only [List.forall_mem_cons]

/-- The order of rules does not matter where those that apply give the same. -/
theorem gives_firstOf_of_agree {rules : List (Parser α)} {rule : Parser α} {node : α}
    (hmem : rule ∈ rules) (h : rule.Gives input node rest)
    (hagree : ∀ other ∈ rules, ∀ node' rest', other.Gives input node' rest' →
      node' = node ∧ rest' = rest) : (firstOf rules).Gives input node rest := by
  induction rules with
  | nil => cases hmem
  | cons first rules ih =>
    cases rules with
    | nil =>
      cases List.mem_singleton.mp hmem
      exact h
    | cons next rules =>
      refine gives_orElse.mpr ?_
      cases hresult : (first input).result with
      | some found =>
        obtain ⟨hnode, hrest⟩ := hagree first (List.mem_cons_self ..) found.1 found.2 hresult
        exact .inl (by rw [← hnode, ← hrest]; exact hresult)
      | none =>
        refine .inr ⟨rfl, ih ?_ fun other hother => hagree other (List.mem_cons_of_mem _ hother)⟩
        cases List.mem_cons.mp hmem with
        | inl heq =>
          subst heq
          cases hresult.symm.trans h
        | inr hmem => exact hmem

/-! ## Rules for one token -/

@[simp] theorem gives_expect {lexeme : Lexeme} {node : Unit} :
    (expect lexeme).Gives input node rest ↔ ∃ offset, input = ⟨lexeme, offset⟩ :: rest := by
  rw [expect, gives_ofFunction]
  match input with
  | [] => simp
  | ⟨other, offset⟩ :: tail =>
    by_cases h : other = lexeme <;> simp [h]

@[simp] theorem gives_keyword {text : String} {node : Unit} :
    (keyword text).Gives input node rest ↔ ∃ offset, input = ⟨.word text, offset⟩ :: rest :=
  gives_expect

@[simp] theorem gives_name {text : String} :
    name.Gives input text rest ↔ ∃ offset, input = ⟨.word text, offset⟩ :: rest := by
  rw [name, gives_ofFunction]
  split
  next word offset tail => simp
  next hno => simpa using fun offset heq => hno text offset rest heq

@[simp] theorem gives_joinName {join : JoinType} :
    joinName.Gives input join rest ↔ ∃ offset, input = ⟨.word join.name, offset⟩ :: rest := by
  rw [joinName, gives_ofFunction]
  split
  next word offset tail =>
    simp only [Option.map_eq_some_iff, Prod.mk.injEq, JoinType.ofName?_eq_some_iff, List.cons.injEq,
      Token.mk.injEq, Lexeme.word.injEq]
    constructor
    · rintro ⟨found, hword, rfl, rfl⟩
      exact ⟨offset, ⟨hword, rfl⟩, rfl⟩
    · rintro ⟨_, ⟨hword, _⟩, rfl⟩
      exact ⟨join, hword, rfl, rfl⟩
  next hno => simpa using fun offset heq => hno join.name offset rest heq

@[simp] theorem gives_comparator {found : Comparator} :
    comparator.Gives input found rest ↔ ∃ offset, input = ⟨.comparator found, offset⟩ :: rest := by
  rw [comparator, gives_ofFunction]
  split
  next word offset tail => simp
  next hno => simpa using fun offset heq => hno found offset rest heq

@[simp] theorem gives_dataset {knows : String → Bool} {path : RulePath} {text : String} :
    (dataset knows path).Gives input text rest ↔
      knows text = true ∧ ∃ offset, input = ⟨.word text, offset⟩ :: rest := by
  rw [dataset, gives_attempt, gives_ofFunction]
  split
  next word offset tail =>
    by_cases h : knows word = true
    · simp only [h, if_true, Option.some.injEq, Prod.mk.injEq]
      constructor
      · rintro ⟨rfl, rfl⟩
        exact ⟨h, offset, rfl⟩
      · rintro ⟨_, _, heq⟩
        cases heq
        exact ⟨rfl, rfl⟩
    · simp only [h, Bool.false_eq_true, if_false, reduceCtorEq, false_iff]
      rintro ⟨hknows, _, heq⟩
      cases heq
      exact h hknows
  next hno => simpa using fun _ offset heq => hno text offset rest heq

/-! ## Rules that record nothing -/

/-- The rule records nothing. -/
def Quiet (rule : Parser α) : Prop := ∀ input, (rule input).trace = []

theorem Quiet.pure (node : α) : Quiet (pure node : Parser α) := fun _ => rfl

theorem Quiet.ofFunction (f : List Token → Option (α × List Token)) : Quiet (ofFunction f) :=
  fun _ => rfl

theorem Quiet.bind {first : Parser α} {next : α → Parser β} (hfirst : Quiet first)
    (hnext : ∀ made, Quiet (next made)) : Quiet (first >>= next) := by
  intro input
  obtain ⟨made, middle, hmade⟩ | hnone := gives_or_none first input
  · rw [bind_of_gives hmade, hfirst, hnext]
    rfl
  · rw [bind_of_none hnone, hfirst]

theorem trace_bind_of_quiet {first : Parser α} {next : α → Parser β}
    (hnext : ∀ made, Quiet (next made)) : ((first >>= next) input).trace = (first input).trace := by
  obtain ⟨made, middle, hmade⟩ | hnone := gives_or_none first input
  · rw [bind_of_gives hmade, hnext, List.append_nil]
  · rw [bind_of_none hnone]

theorem Quiet.trace_bind_length_le {first : Parser α} {next : α → Parser β} {bound : Nat}
    (hfirst : Quiet first) (hnext : ∀ made middle, (next made middle).trace.length ≤ bound) :
    ((first >>= next) input).trace.length ≤ bound := by
  obtain ⟨made, middle, hmade⟩ | hnone := gives_or_none first input
  · rw [bind_of_gives hmade, hfirst, List.nil_append]
    exact hnext made middle
  · rw [bind_of_none hnone, hfirst]
    exact Nat.zero_le bound

/-- Nothing is recorded up to a token that is not there. -/
theorem Quiet.trace_bind_expect {first : Parser α} {lexeme : Lexeme} {next : α → Unit → Parser β}
    (hfirst : Quiet first)
    (h : ∀ made offset rest, ¬first.Gives input made (⟨lexeme, offset⟩ :: rest)) :
    ((first >>= fun made => expect lexeme >>= next made) input).trace = [] := by
  obtain ⟨made, middle, hmade⟩ | hnone := gives_or_none first input
  · have hmissing : (expect lexeme middle).result = none := by
      obtain ⟨_, rest, hlexeme⟩ | hnone := gives_or_none (expect lexeme) middle
      · obtain ⟨offset, rfl⟩ := gives_expect.mp hlexeme
        exact absurd hmade (h made offset rest)
      · exact hnone
    rw [bind_of_gives hmade, hfirst, bind_of_none hmissing]
    rfl
  · rw [bind_of_none hnone, hfirst]

/-- The rule takes off one token and records nothing. -/
structure TakesToken (rule : Parser α) : Prop where
  quiet : Quiet rule
  takes : ∀ input node rest, rule.Gives input node rest → ∃ token, input = token :: rest

namespace TakesToken

theorem of_gives {f : List Token → Option (α × List Token)}
    (h : ∀ input node rest, (ofFunction f).Gives input node rest → ∃ token, input = token :: rest) :
    TakesToken (ofFunction f) :=
  ⟨.ofFunction f, h⟩

theorem expect (lexeme : Lexeme) : TakesToken (expect lexeme) :=
  .of_gives fun _ _ _ h => (gives_expect.mp h).elim fun _ h => ⟨_, h⟩

theorem keyword (text : String) : TakesToken (keyword text) := expect _

theorem name : TakesToken name :=
  .of_gives fun _ _ _ h => (gives_name.mp h).elim fun _ h => ⟨_, h⟩

theorem joinName : TakesToken joinName :=
  .of_gives fun _ _ _ h => (gives_joinName.mp h).elim fun _ h => ⟨_, h⟩

theorem comparator : TakesToken comparator :=
  .of_gives fun _ _ _ h => (gives_comparator.mp h).elim fun _ h => ⟨_, h⟩

end TakesToken

/-! ## Rules on lexemes -/

/-- On all tokens with the lexemes `before`, a rule makes the node and leaves tokens with the lexemes
`after`. -/
def Accepts (rule : Parser α) (before : List Lexeme) (node : α) (after : List Lexeme) : Prop :=
  ∀ input, lexemes input = before → ∃ rest, lexemes rest = after ∧ rule.Gives input node rest

/-- No tokens with the lexemes can be read by a rule. -/
def Rejects (rule : Parser α) (before : List Lexeme) : Prop :=
  ∀ input, lexemes input = before → (rule input).result = none

theorem Rejects.of_not_gives {rule : Parser α} {before : List Lexeme}
    (h : ∀ input node rest, lexemes input = before → ¬rule.Gives input node rest) :
    rule.Rejects before := by
  intro input hinput
  cases hresult : (rule input).result with
  | none => rfl
  | some found => exact absurd hresult (h input found.1 found.2 hinput)

namespace Accepts

variable {before middle after : List Lexeme}

theorem pure (node : α) (before : List Lexeme) :
    Accepts (pure node : Parser α) before node before :=
  fun input hinput => ⟨input, hinput, gives_pure.mpr ⟨rfl, rfl⟩⟩

theorem bind {first : Parser α} {next : α → Parser β} {made : α} {node : β}
    (hfirst : first.Accepts before made middle) (hnext : (next made).Accepts middle node after) :
    (first >>= next).Accepts before node after := by
  intro input hinput
  obtain ⟨between, hbetween, hmade⟩ := hfirst input hinput
  obtain ⟨rest, hrest, hnode⟩ := hnext between hbetween
  exact ⟨rest, hrest, gives_bind.mpr ⟨made, between, hmade, hnode⟩⟩

/-- A rule that takes off one token accepts it. -/
theorem of_token {rule : Parser α} {node : α} {lexeme : Lexeme}
    (h : ∀ offset rest, rule.Gives (⟨lexeme, offset⟩ :: rest) node rest) (after : List Lexeme) :
    rule.Accepts (lexeme :: after) node after := by
  intro input hinput
  obtain ⟨offset, rest, rfl, hrest⟩ := lexemes_eq_cons_iff.mp hinput
  exact ⟨rest, hrest, h offset rest⟩

theorem expect (lexeme : Lexeme) (after : List Lexeme) :
    (expect lexeme).Accepts (lexeme :: after) () after :=
  of_token (fun offset _ => gives_expect.mpr ⟨offset, rfl⟩) after

theorem keyword (text : String) (after : List Lexeme) :
    (keyword text).Accepts (.word text :: after) () after :=
  expect (.word text) after

theorem name (text : String) (after : List Lexeme) : name.Accepts (.word text :: after) text after :=
  of_token (fun offset _ => gives_name.mpr ⟨offset, rfl⟩) after

theorem joinName (join : JoinType) (after : List Lexeme) :
    joinName.Accepts (.word join.name :: after) join after :=
  of_token (fun offset _ => gives_joinName.mpr ⟨offset, rfl⟩) after

theorem comparator (found : Comparator) (after : List Lexeme) :
    comparator.Accepts (.comparator found :: after) found after :=
  of_token (fun offset _ => gives_comparator.mpr ⟨offset, rfl⟩) after

theorem dataset {knows : String → Bool} {text : String} (h : knows text = true) (path : RulePath)
    (after : List Lexeme) : (dataset knows path).Accepts (.word text :: after) text after :=
  of_token (fun offset _ => gives_dataset.mpr ⟨h, offset, rfl⟩) after

theorem trying {path : RulePath} {rule : Rule} {body : RulePath → Parser α} {node : α}
    (h : (body (path ++ [rule])).Accepts before node after) :
    (trying path rule body).Accepts before node after := h

theorem orElse_left {first : Parser α} {node : α} (h : first.Accepts before node after)
    (second : Parser α) : (first.orElse second).Accepts before node after := by
  intro input hinput
  obtain ⟨rest, hrest, hnode⟩ := h input hinput
  exact ⟨rest, hrest, gives_orElse.mpr (.inl hnode)⟩

theorem orElse_right {first second : Parser α} {node : α} (hfirst : first.Rejects before)
    (h : second.Accepts before node after) : (first.orElse second).Accepts before node after := by
  intro input hinput
  obtain ⟨rest, hrest, hnode⟩ := h input hinput
  exact ⟨rest, hrest, gives_orElse.mpr (.inr ⟨hfirst input hinput, hnode⟩)⟩

end Accepts

end Parser

end TableQuery
