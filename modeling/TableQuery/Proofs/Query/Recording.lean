import TableQuery.Proofs.Query.Parsing

/-!
# What is recorded of a parse

A parse leaves the attempts in the order in which they began, so that an attempt stands before those
inside it (`Records`).  Each of them was given tokens from some place of its rule's on, left later ones
if it succeeded, and carries a note exactly if there is something to note (`Attempt.Sound`).

What is recorded by a rule is put together as the rule is (`Parser.Reads`), and so is that it goes on to
later tokens, which makes what an attempt leaves shorter than what it was given.

* `Records.exists_parent`: an attempt inside another one starts where the other one did or further on,
  and the nearest one before it with the path of its rule is the one that it is inside of.
* `Parser.gives_program_iff`: a program is read from the front of tokens exactly if that front derives
  it, so left over tokens are those after a whole program.
* `Parser.records_program_of_none`: a failed parse consists of three failed attempts, one for each kind
  of program, and those inside them.
-/

namespace TableQuery

open Grammar

/-! ## Attempts and what is inside them -/

/-- The rule by which a program is read. -/
def Program.rule : Program → Rule
  | .display _ => .display
  | .draw _ => .draw
  | .table _ => .table

/-- What there is to note at a path: the name at the front is not that of a dataset, or a program of that
kind ends before the tokens do. -/
inductive Noted (knows : String → Bool) : RulePath → List Token → Note → Prop where
  | unknownDataset {above : RulePath} {name : String} {offset : Nat} {rest : List Token} :
      knows name = false →
      Noted knows (above ++ [.dataset]) (⟨.word name, offset⟩ :: rest) (.unknownDataset name)
  | trailingInput {program : Program} {used rest : List Token} :
      IsProgram knows (lexemes used) program → rest ≠ [] →
      Noted knows [program.rule] (used ++ rest) (.trailingInput rest)

section Noted

variable {knows : String → Bool} {path above : RulePath} {input : List Token} {note : Note}

theorem noted_dataset_iff : Noted knows (above ++ [.dataset]) input note ↔
    ∃ name offset rest, input = ⟨.word name, offset⟩ :: rest ∧ knows name = false ∧
      note = .unknownDataset name := by
  constructor
  · intro h
    generalize hpath : above ++ [.dataset] = path at h
    cases h with
    | unknownDataset hunknown => exact ⟨_, _, _, rfl, hunknown, rfl⟩
    | @trailingInput program =>
      have hrule : Rule.dataset = program.rule := by simpa using congrArg List.getLast? hpath
      cases program <;> cases hrule
  · rintro ⟨name, offset, rest, rfl, hunknown, rfl⟩
    exact .unknownDataset hunknown

/-- Only names of datasets and whole programs are ever noted. -/
theorem not_noted {rule : Rule} (hrule : rule ∉ [Rule.dataset, .display, .draw, .table]) :
    ¬Noted knows (above ++ [rule]) input note := by
  intro h
  generalize hpath : above ++ [rule] = path at h
  cases h with
  | unknownDataset =>
    have hlast : rule = .dataset := by simpa using congrArg List.getLast? hpath
    simp [hlast] at hrule
  | @trailingInput program =>
    have hlast : rule = program.rule := by simpa using congrArg List.getLast? hpath
    cases program <;> simp [hlast, Program.rule] at hrule

end Noted

/-- What is recorded of an attempt is right. -/
structure Attempt.Sound (knows : String → Bool) (attempt : Attempt) : Prop where
  used_of_after : ∀ rest, attempt.after = some rest → ∃ used, attempt.before = used ++ rest ∧ used ≠ []
  note_iff : ∀ note, attempt.note = some note ↔ Noted knows attempt.path attempt.before note
  failed_of_noted : ∀ note, Noted knows attempt.path attempt.before note → attempt.after = none

/-- Attempts of the rules below a path, on the way through the tokens. -/
inductive Records (knows : String → Bool) : RulePath → List Token → List Attempt → Prop where
  | nil {path : RulePath} {input : List Token} : Records knows path input []
  /-- An attempt, those inside it and those after it. -/
  | cons {path : RulePath} {input : List Token} {rule : Rule} {attempt : Attempt}
      {inner outer : List Attempt} : attempt.path = path ++ [rule] → attempt.before <:+ input →
      attempt.Sound knows → Records knows attempt.path attempt.before inner →
      Records knows path input outer → Records knows path input (attempt :: (inner ++ outer))

namespace Records

variable {knows : String → Bool} {path : RulePath} {input here : List Token}
  {trace more : List Attempt} {attempt : Attempt}

theorem append (h : Records knows path input trace) (hmore : Records knows path input more) :
    Records knows path input (trace ++ more) := by
  induction h with
  | nil => exact hmore
  | cons hpath hbefore hsound hinner _ _ ih =>
    rw [List.cons_append, List.append_assoc]
    exact .cons hpath hbefore hsound hinner (ih hmore)

theorem of_suffix (h : Records knows path here trace) (hhere : here <:+ input) :
    Records knows path input trace := by
  induction h with
  | nil => exact .nil
  | cons hpath hbefore hsound hinner _ _ ih =>
    exact .cons hpath (hbefore.trans hhere) hsound hinner (ih hhere)

/-- Every attempt is of a rule below the path and was given some of the tokens. -/
theorem exists_rule (h : Records knows path input trace) (hmem : attempt ∈ trace) :
    ∃ above rule, attempt.path = path ++ above ++ [rule] ∧ attempt.before <:+ input ∧
      attempt.Sound knows := by
  induction h with
  | nil => cases hmem
  | @cons path input rule first inner outer hpath hbefore hsound _ _ ihinner ihouter =>
    obtain rfl | hmem := List.mem_cons.mp hmem
    · exact ⟨[], rule, by rw [hpath, List.append_nil], hbefore, hsound⟩
    · obtain hmem | hmem := List.mem_append.mp hmem
      · obtain ⟨above, rule', hpath', hbefore', hsound'⟩ := ihinner hmem
        refine ⟨rule :: above, rule', ?_, hbefore'.trans hbefore, hsound'⟩
        rw [hpath', hpath, List.append_assoc path, List.singleton_append]
      · exact ihouter hmem

theorem length_path_lt (h : Records knows path input trace) (hmem : attempt ∈ trace) :
    path.length < attempt.path.length := by
  obtain ⟨above, rule, hpath, _, _⟩ := h.exists_rule hmem
  rw [hpath, List.length_append, List.length_append, List.length_singleton]
  omega

/-- An attempt one rule below a path is right below the root, or it is inside the nearest attempt before
it that has this path. -/
theorem exists_parent {front back : List Attempt} {above : RulePath} {rule : Rule}
    (h : Records knows path input trace) (htrace : trace = front ++ attempt :: back)
    (hattempt : attempt.path = above ++ [rule]) :
    above = path ∧ attempt.before <:+ input ∨
    ∃ older parent between, front = older ++ parent :: between ∧ parent.path = above ∧
      (∀ other ∈ between, other.path ≠ above) ∧ attempt.before <:+ parent.before := by
  induction h generalizing front back with
  | nil => cases front <;> cases htrace
  | @cons path input rule' first inner outer hpath hbefore hsound hinner houter ihinner ihouter =>
    cases front with
    | nil =>
      obtain ⟨rfl, _⟩ := List.cons.inj htrace
      exact .inl ⟨(List.append_inj' (hattempt.symm.trans hpath) rfl).1, hbefore⟩
    | cons head front =>
      obtain ⟨rfl, hrest⟩ := List.cons.inj htrace
      have hplace : (∃ more, front = inner ++ more ∧ outer = more ++ attempt :: back) ∨
          ∃ more, inner = front ++ attempt :: more := by
        obtain ⟨more, hfront, houter⟩ | ⟨_ | ⟨next, more⟩, hinner, hmore⟩ :=
          List.append_eq_append_iff.mp hrest
        · exact .inl ⟨more, hfront, houter⟩
        · exact .inl ⟨[], by simpa using hinner.symm, hmore.symm⟩
        · obtain ⟨rfl, _⟩ := List.cons.inj hmore
          exact .inr ⟨more, hinner⟩
      obtain ⟨more, rfl, houter⟩ | ⟨more, hinner'⟩ := hplace
      · obtain hroot | ⟨older, parent, between, hmore, hparent⟩ := ihouter houter
        · exact .inl hroot
        · exact .inr ⟨first :: (inner ++ older), parent, between, by simp [hmore], hparent⟩
      · refine .inr ?_
        obtain ⟨habove, hsuffix⟩ | ⟨older, parent, between, hfront, hparent⟩ := ihinner hinner'
        · refine ⟨[], first, front, rfl, habove.symm, fun other hother heq => ?_, hsuffix⟩
          have hlt := hinner.length_path_lt (hinner' ▸ List.mem_append_left _ hother)
          rw [heq, habove] at hlt
          exact Nat.lt_irrefl _ hlt
        · exact ⟨first :: older, parent, between, by rw [hfront, List.cons_append], hparent⟩

end Records

namespace Parser

/-! ## What rules record -/

variable {α β : Type} {knows : String → Bool} {path : RulePath} {input rest : List Token}

/-- A rule below a path takes off the given number of tokens at least, and what it records is right. -/
structure Reads (knows : String → Bool) (path : RulePath) (least : Nat) (rule : Parser α) : Prop where
  takes : ∀ input node rest, rule.Gives input node rest →
    ∃ used, input = used ++ rest ∧ least ≤ used.length
  records : ∀ input, Records knows path input (rule input).trace

namespace Reads

variable {least : Nat}

theorem pure (node : α) : Reads knows path 0 (pure node) where
  takes input node rest h := by
    obtain ⟨_, rfl⟩ := gives_pure.mp h
    exact ⟨[], rfl, Nat.le_refl 0⟩
  records _ := .nil

theorem bind {more : Nat} {first : Parser α} {next : α → Parser β}
    (hfirst : Reads knows path least first) (hnext : ∀ made, Reads knows path more (next made)) :
    Reads knows path least (first >>= next) where
  takes input node rest h := by
    obtain ⟨made, middle, hmade, hnode⟩ := gives_bind.mp h
    obtain ⟨used, rfl, hle⟩ := hfirst.takes input made middle hmade
    obtain ⟨used', rfl, _⟩ := (hnext made).takes middle node rest hnode
    refine ⟨used ++ used', (List.append_assoc ..).symm, Nat.le_trans hle ?_⟩
    rw [List.length_append]
    exact Nat.le_add_right ..
  records input := by
    obtain ⟨made, middle, hmade⟩ | hnone := gives_or_none first input
    · obtain ⟨used, hinput, _⟩ := hfirst.takes input made middle hmade
      rw [bind_of_gives hmade]
      exact (hfirst.records input).append (((hnext made).records middle).of_suffix ⟨used, hinput.symm⟩)
    · rw [bind_of_none hnone]
      exact hfirst.records input

theorem of_token {rule : Parser α} (h : TakesToken rule) : Reads knows path 1 rule where
  takes input node rest hgives := by
    obtain ⟨token, rfl⟩ := h.takes input node rest hgives
    exact ⟨[token], rfl, Nat.le_refl 1⟩
  records input := by
    rw [h.quiet]
    exact .nil

theorem token {more : Nat} {first : Parser α} {next : α → Parser β} (h : TakesToken first)
    (hnext : ∀ made, Reads knows path more (next made)) : Reads knows path 1 (first >>= next) :=
  .bind (.of_token h) hnext

/-- A recorded attempt is right if its note is and the rule goes on. -/
theorem attempt {rule : Rule} {body : RulePath → Parser α} {note : List Token → Option Note}
    (hbody : Reads knows (path ++ [rule]) 1 (body (path ++ [rule])))
    (hnote : ∀ input found, note input = some found ↔ Noted knows (path ++ [rule]) input found)
    (hfailed : ∀ input found, Noted knows (path ++ [rule]) input found →
      (body (path ++ [rule]) input).result = none) :
    Reads knows path 1 (attempt path rule body note) where
  takes := hbody.takes
  records input := by
    have hsound : Attempt.Sound knows ⟨path ++ [rule], input,
        (body (path ++ [rule]) input).result.map Prod.snd, note input⟩ := by
      refine ⟨fun rest h => ?_, hnote input, fun found hfound => ?_⟩
      · obtain ⟨⟨node, rest⟩, hgives, rfl⟩ := Option.map_eq_some_iff.mp h
        obtain ⟨used, hinput, hle⟩ := hbody.takes input node rest hgives
        exact ⟨used, hinput, List.ne_nil_of_length_pos hle⟩
      · rw [hfailed input found hfound]
        rfl
    rw [Parser.attempt, ← List.append_nil (body (path ++ [rule]) input).trace]
    exact .cons rfl List.suffix_rfl hsound (hbody.records input) .nil

theorem trying {rule : Rule} {body : RulePath → Parser α}
    (hrule : rule ∉ [Rule.dataset, .display, .draw, .table])
    (hbody : Reads knows (path ++ [rule]) 1 (body (path ++ [rule]))) :
    Reads knows path 1 (trying path rule body) :=
  attempt hbody (fun _ _ => ⟨nofun, fun h => absurd h (not_noted hrule)⟩)
    fun _ _ h => absurd h (not_noted hrule)

theorem orElse {first second : Parser α} (hfirst : Reads knows path least first)
    (hsecond : Reads knows path least second) : Reads knows path least (first.orElse second) where
  takes input node rest h := by
    obtain h | ⟨_, h⟩ := gives_orElse.mp h
    · exact hfirst.takes input node rest h
    · exact hsecond.takes input node rest h
  records input := by
    obtain ⟨node, rest, hgives⟩ | hnone := gives_or_none first input
    · rw [orElse_of_gives hgives]
      exact hfirst.records input
    · rw [orElse_of_none hnone]
      exact (hfirst.records input).append (hsecond.records input)

/-- A rule that does on each input what some such rule does. -/
theorem of_eq {rule : Parser α} (other : List Token → Parser α)
    (heq : ∀ input, rule input = other input input)
    (h : ∀ input, Reads knows path least (other input)) : Reads knows path least rule where
  takes input node rest hgives := by
    rw [Gives, heq] at hgives
    exact (h input).takes input node rest hgives
  records input := by
    rw [heq]
    exact (h input).records input

/-- A rule that never applies. -/
theorem never : Reads knows path least (ofFunction fun _ => none : Parser α) :=
  ⟨nofun, fun _ => .nil⟩

theorem firstOf {rules : List (Parser α)} (h : ∀ rule ∈ rules, Reads knows path least rule) :
    Reads knows path least (firstOf rules) := by
  induction rules with
  | nil => exact never
  | cons rule rules ih =>
    obtain ⟨hrule, hrules⟩ := List.forall_mem_cons.mp h
    cases rules with
    | nil => exact hrule
    | cons next rules => exact hrule.orElse (ih hrules)

end Reads

theorem reads_dataset : Reads knows path 1 (dataset knows path) := by
  refine .attempt (.of_token (.of_gives fun input name rest h => ?_)) (fun input note => ?_)
    fun input note h => ?_
  · have hname : (dataset knows path).Gives input name rest := h
    obtain ⟨_, offset, rfl⟩ := gives_dataset.mp hname
    exact ⟨_, rfl⟩
  · rw [noted_dataset_iff]
    unfold unknownNote
    split
    next name offset rest =>
      constructor
      · intro h
        split at h
        next => cases h
        next hunknown =>
          exact ⟨name, offset, rest, rfl, Bool.eq_false_iff.mpr hunknown, (Option.some.inj h).symm⟩
      · rintro ⟨_, _, _, heq, hunknown, rfl⟩
        cases heq
        simp [hunknown]
    next hno => simpa using fun name offset rest heq => absurd heq (hno name offset rest)
  · obtain ⟨name, offset, rest, rfl, hunknown, _⟩ := noted_dataset_iff.mp h
    simp [ofFunction, hunknown]

theorem reads_predicate : Reads knows path 1 (predicate path) :=
  .trying (by decide) (.token .name fun _ => .token .comparator fun _ => .token .operand fun _ =>
    .pure _)

theorem reads_namePair : Reads knows path 1 (namePair path) :=
  .trying (by decide) (.token .name fun _ => .token (.expect _) fun _ => .token .name fun _ =>
    .pure _)

theorem reads_pairsFrom (fuel : Nat) (path : RulePath) : Reads knows path 1 (pairsFrom fuel path) := by
  induction fuel generalizing path with
  | zero => exact .never
  | succ fuel ih =>
    refine .orElse (.trying (by decide) ?_) (.trying (by decide) ?_)
    · exact .bind reads_namePair fun _ => .token (.expect _) fun _ => .bind (ih _) fun _ => .pure _
    · exact .bind reads_namePair fun _ => .pure _

theorem reads_pairs : Reads knows path 1 (pairs path) :=
  .of_eq (fun input => pairsFrom (input.length + 1) path) (pairs_eq_pairsFrom path)
    fun _ => reads_pairsFrom _ path

section Tables

variable {table : RulePath → Parser Table}

theorem reads_condition (htable : ∀ path, Reads knows path 1 (table path)) :
    Reads knows path 1 (condition table path) := by
  refine .orElse (.trying (by decide) ?_) (.trying (by decide) ?_)
  · exact .token .name fun _ => .token (.expect _) fun _ => .bind (htable _) fun _ =>
      .token (.expect _) fun _ => .token .name fun _ => .token (.expect _) fun _ => .pure _
  · exact .bind (htable _) fun _ => .token (.expect _) fun _ => .bind reads_predicate fun _ =>
      .token (.expect _) fun _ => .pure _

theorem reads_binary (htable : ∀ path, Reads knows path 1 (table path)) (word : String)
    (make : Table → Table → Table) : Reads knows path 1 (binary table word make path) :=
  .token (.keyword _) fun _ => .token (.expect _) fun _ => .bind (htable _) fun _ =>
    .token (.expect _) fun _ => .bind (htable _) fun _ => .token (.expect _) fun _ => .pure _

theorem reads_alternative (htable : ∀ path, Reads knows path 1 (table path))
    {alternative : Rule × (RulePath → Parser Table)} (hmem : alternative ∈ alternatives knows table) :
    Reads knows path 1 (alternative.2 path) := by
  simp only [alternatives, List.mem_cons, List.not_mem_nil, or_false] at hmem
  obtain rfl | rfl | rfl | rfl | rfl | rfl | rfl := hmem
  · exact .bind reads_dataset fun _ => .token (.expect _) fun _ => .token .name fun _ => .pure _
  · exact .token .joinName fun _ => .token (.expect _) fun _ => .bind (htable _) fun _ =>
      .token (.expect _) fun _ => .bind (reads_condition htable) fun _ => .pure _
  · exact reads_binary htable _ _
  · exact reads_binary htable _ _
  · exact reads_binary htable _ _
  · exact .token (.keyword _) fun _ => .token (.expect _) fun _ => .bind (htable _) fun _ =>
      .token (.expect _) fun _ => .token (.expect _) fun _ => .bind reads_pairs fun _ =>
      .token (.expect _) fun _ => .token (.expect _) fun _ => .pure _
  · exact .token (.keyword _) fun _ => .token (.expect _) fun _ => .bind reads_predicate fun _ =>
      .token (.expect _) fun _ => .bind (htable _) fun _ => .token (.expect _) fun _ => .pure _

theorem reads_tableFrom (fuel : Nat) (path : RulePath) :
    Reads knows path 1 (tableFrom knows fuel path) := by
  induction fuel generalizing path with
  | zero => exact .never
  | succ fuel ih =>
    rw [tableFrom, tableStep_eq_firstOf]
    refine .firstOf fun rule hrule => ?_
    obtain ⟨alternative, hmem, rfl⟩ := List.mem_map.mp hrule
    refine .trying ?_ (reads_alternative ih hmem)
    have hrule : alternative.1 ∈ (alternatives knows (tableFrom knows fuel)).map Prod.fst :=
      List.mem_map_of_mem hmem
    revert hrule
    generalize alternative.1 = rule
    simp only [alternatives, List.map_cons, List.map_nil]
    revert rule
    decide

end Tables

theorem reads_table : Reads knows path 1 (table knows path) :=
  .of_eq (fun input => tableFrom knows (input.length + 1) path) (table_eq_tableFrom knows path)
    fun _ => reads_tableFrom _ path

/-! ## Programs -/

/-- What a rule accepts at the front, it gives there. -/
theorem Reads.gives_of_accepts {least : Nat} {rule : Parser α} {node : α} {used : List Token}
    (hreads : Reads knows path least rule)
    (h : rule.Accepts (lexemes (used ++ rest)) node (lexemes rest)) :
    rule.Gives (used ++ rest) node rest := by
  obtain ⟨left, hleft, hgives⟩ := h (used ++ rest) rfl
  obtain ⟨used', hused, _⟩ := hreads.takes _ _ _ hgives
  have hlength : left.length = rest.length := by
    rw [← length_lexemes, hleft, length_lexemes]
  obtain ⟨_, rfl⟩ := List.append_inj' hused hlength.symm
  exact hgives

/-- A table is read from the front of tokens exactly if the front derives it. -/
theorem gives_table_iff {node : Table} : (table knows path).Gives input node rest ↔
    ∃ used, input = used ++ rest ∧ IsTable knows (lexemes used) node [] := by
  constructor
  · intro h
    have hreads : Reads knows path 1 (table knows path) := reads_table
    obtain ⟨used, rfl, _⟩ := hreads.takes input node rest h
    obtain ⟨front, hfront, htable⟩ := (isTable_of_gives (gives_table.mp h)).exists_used
    rw [lexemes_append] at hfront
    obtain rfl := List.append_cancel_right hfront
    exact ⟨used, rfl, by simpa using htable []⟩
  · rintro ⟨used, rfl, htable⟩
    obtain ⟨front, hfront, htable⟩ := htable.exists_used
    rw [List.append_nil] at hfront
    refine reads_table.gives_of_accepts ?_
    rw [lexemes_append, hfront]
    exact accepts_table (htable _)

/-- The alternatives for programs, each with the rule that it is recorded as. -/
def programs (knows : String → Bool) : List (Rule × (RulePath → Parser Program)) :=
  [(.display, display knows), (.draw, draw knows), (.table, bare knows)]

variable {alternative : Rule × (RulePath → Parser Program)}

theorem reads_programs (hmem : alternative ∈ programs knows) (path : RulePath) :
    Reads knows path 1 (alternative.2 path) := by
  simp only [programs, List.mem_cons, List.not_mem_nil, or_false] at hmem
  obtain rfl | rfl | rfl := hmem
  · exact .token (.keyword _) fun _ => .token (.expect _) fun _ => .bind reads_table fun _ =>
      .token (.expect _) fun _ => .pure _
  · exact .token (.keyword _) fun _ => .token (.expect _) fun _ => .bind reads_dataset fun _ =>
      .token (.expect _) fun _ => .pure _
  · exact .bind reads_table fun _ => .pure _

/-- A program of the kind of the alternative is read from the front of tokens exactly if the front derives
it. -/
theorem gives_program_iff {node : Program} (hmem : alternative ∈ programs knows) :
    (alternative.2 path).Gives input node rest ↔ ∃ used, input = used ++ rest ∧
      node.rule = alternative.1 ∧ IsProgram knows (lexemes used) node := by
  have hreads := reads_programs hmem path
  simp only [programs, List.mem_cons, List.not_mem_nil, or_false] at hmem
  constructor
  · intro h
    obtain rfl | rfl | rfl := hmem
    · simp only [display, gives_bind, gives_keyword, gives_expect, gives_table_iff, gives_pure] at h
      obtain ⟨_, _, ⟨start, rfl⟩, _, _, ⟨opened, rfl⟩, table, _, ⟨used, rfl, htable⟩, _, _,
        ⟨closed, rfl⟩, rfl, rfl⟩ := h
      obtain ⟨front, hfront, htable⟩ := htable.exists_used
      refine ⟨⟨.word "display", start⟩ :: ⟨.openParen, opened⟩ :: (used ++ [⟨.closeParen, closed⟩]),
        by simp, rfl, ?_⟩
      rw [lexemes_cons, lexemes_cons, lexemes_append, hfront, List.append_nil]
      exact .display (htable _)
    · simp only [draw, gives_bind, gives_keyword, gives_expect, gives_dataset, gives_pure] at h
      obtain ⟨_, _, ⟨start, rfl⟩, _, _, ⟨opened, rfl⟩, dataset, _, ⟨hknows, named, rfl⟩, _, _,
        ⟨closed, rfl⟩, rfl, rfl⟩ := h
      exact ⟨[⟨.word "draw", start⟩, ⟨.openParen, opened⟩, ⟨.word dataset, named⟩,
        ⟨.closeParen, closed⟩], rfl, rfl, .draw hknows⟩
    · simp only [bare, gives_bind, gives_table_iff, gives_pure] at h
      obtain ⟨table, _, ⟨used, rfl, htable⟩, rfl, rfl⟩ := h
      exact ⟨used, rfl, rfl, .table htable⟩
  · rintro ⟨used, rfl, hrule, hprogram⟩
    refine hreads.gives_of_accepts ?_
    rw [lexemes_append]
    generalize lexemes used = before at hprogram
    obtain rfl | rfl | rfl := hmem
    · cases hprogram with
      | display hinput =>
        obtain ⟨front, rfl, htable⟩ := hinput.exists_used
        simp only [List.cons_append, List.append_assoc, List.nil_append]
        exact .bind (.keyword _ _) (.bind (.expect _ _) (.bind (accepts_table (htable _))
          (.bind (.expect _ _) (.pure _ _))))
      | draw | table => cases hrule
    · cases hprogram with
      | draw hknows =>
        exact .bind (.keyword _ _) (.bind (.expect _ _) (.bind (.dataset hknows _ _)
          (.bind (.expect _ _) (.pure _ _))))
      | display | table => cases hrule
    · cases hprogram with
      | table hinput =>
        obtain ⟨front, rfl, htable⟩ := hinput.exists_used
        rw [List.append_nil]
        exact .bind (accepts_table (htable _)) (.pure _ _)
      | display | draw => cases hrule

theorem noted_program_iff {note : Note} (hmem : alternative ∈ programs knows) (path : RulePath) :
    Noted knows [alternative.1] input note ↔ ∃ node rest,
      (alternative.2 path).Gives input node rest ∧ rest ≠ [] ∧ note = .trailingInput rest := by
  constructor
  · intro h
    generalize hpath : [alternative.1] = top at h
    cases h with
    | @unknownDataset above =>
      have hrule : alternative.1 = .dataset := by simpa using congrArg List.getLast? hpath
      have hdataset : Rule.dataset ∈ (programs knows).map Prod.fst := hrule ▸ List.mem_map_of_mem hmem
      simp [programs] at hdataset
    | trailingInput hprogram hne =>
      exact ⟨_, _, (gives_program_iff hmem).mpr ⟨_, rfl, (List.cons.inj hpath).1.symm, hprogram⟩,
        hne, rfl⟩
  · rintro ⟨node, rest, hgives, hne, rfl⟩
    obtain ⟨used, rfl, hrule, hprogram⟩ := (gives_program_iff hmem).mp hgives
    exact hrule ▸ .trailingInput hprogram hne

/-- The attempts right below the root, with the tokens before and after them. -/
def tops (trace : List Attempt) : List (RulePath × List Token × Option (List Token)) :=
  (trace.filter fun attempt => attempt.path.length = 1).map fun attempt =>
    (attempt.path, attempt.before, attempt.after)

theorem tops_append (trace more : List Attempt) : tops (trace ++ more) = tops trace ++ tops more := by
  simp [tops]

theorem tops_eq_nil_of_records {rule : Rule} {trace : List Attempt}
    (h : Records knows [rule] input trace) : tops trace = [] := by
  refine List.map_eq_nil_iff.mpr (List.filter_eq_nil_iff.mpr fun attempt hmem => ?_)
  have hlt := h.length_path_lt hmem
  simp only [List.length_singleton] at hlt
  simp only [decide_eq_true_eq]
  omega

/-- Where no program of a kind is read, a failed attempt is left with those inside it.  It is noted exactly
if there is a program at the front. -/
theorem records_whole_of_none (hmem : alternative ∈ programs knows)
    (h : (whole alternative.1 alternative.2 input).result = none) :
    Records knows [] input (whole alternative.1 alternative.2 input).trace ∧
      tops (whole alternative.1 alternative.2 input).trace = [([alternative.1], input, none)] := by
  have hinner := (reads_programs hmem [alternative.1]).records input
  have hnoted : ∀ note, Noted knows [alternative.1] input note ↔ _ :=
    fun note => noted_program_iff hmem [alternative.1]
  suffices hattempt : ∃ attempt, (whole alternative.1 alternative.2 input).trace =
      attempt :: (alternative.2 [alternative.1] input).trace ∧ attempt.path = [alternative.1] ∧
      attempt.before = input ∧ attempt.after = none ∧ attempt.Sound knows by
    obtain ⟨attempt, htrace, hpath, hbefore, hafter, hsound⟩ := hattempt
    rw [htrace]
    constructor
    · rw [← List.append_nil (alternative.2 [alternative.1] input).trace]
      exact .cons hpath (hbefore ▸ List.suffix_rfl) hsound (by rwa [hpath, hbefore]) .nil
    · have hnil := tops_eq_nil_of_records hinner
      rw [← List.singleton_append, tops_append, hnil]
      simp [tops, hpath, hbefore, hafter]
  rw [whole] at h ⊢
  simp only [Gives] at hnoted
  generalize alternative.2 [alternative.1] input = outcome at h hnoted ⊢
  obtain ⟨_ | ⟨node, _ | ⟨token, rest⟩⟩, inner⟩ := outcome
  · exact ⟨_, rfl, rfl, rfl, rfl, by simp, by simp [hnoted], fun _ _ => rfl⟩
  · cases h
  · exact ⟨_, rfl, rfl, rfl, rfl, by simp, by simp [hnoted, eq_comm], fun _ _ => rfl⟩

theorem trace_firstOf_of_none {rules : List (Parser α)} (h : (firstOf rules input).result = none) :
    (firstOf rules input).trace = rules.flatMap fun rule => (rule input).trace := by
  induction rules with
  | nil => rfl
  | cons rule rules ih =>
    cases rules with
    | nil => simp [firstOf]
    | cons next rules =>
      rw [firstOf_cons_cons] at h ⊢
      obtain ⟨hrule, hrules⟩ := orElse_eq_none_iff.mp h
      rw [orElse_of_none hrule]
      show (rule input).trace ++ (firstOf (next :: rules) input).trace = _
      rw [ih hrules]
      rfl

/-- A failed parse consists of three failed attempts, one for each kind of program, and those inside
them. -/
theorem records_program_of_none (h : (program knows input).result = none) :
    Records knows [] input (program knows input).trace ∧ tops (program knows input).trace =
      [([.display], input, none), ([.draw], input, none), ([.table], input, none)] := by
  have heq : program knows = firstOf ((programs knows).map fun alternative =>
    whole alternative.1 alternative.2) := rfl
  rw [heq] at h ⊢
  rw [trace_firstOf_of_none h, List.flatMap_map]
  rw [firstOf_eq_none_iff] at h
  have hwhole : ∀ alternative ∈ programs knows, _ := fun alternative hmem =>
    records_whole_of_none hmem (h _ (List.mem_map_of_mem hmem))
  simp only [programs, List.forall_mem_cons, List.flatMap_cons, List.flatMap_nil,
    List.append_nil] at hwhole ⊢
  obtain ⟨⟨hdisplay, hdisplays⟩, ⟨hdraw, hdraws⟩, ⟨htable, htables⟩, _⟩ := hwhole
  refine ⟨hdisplay.append (hdraw.append htable), ?_⟩
  rw [tops_append, tops_append, hdisplays, hdraws, htables]
  rfl

end Parser

end TableQuery
