import TableQuery.Proofs.Query.Effort
import TableQuery.Proofs.Query.Recording

/-!
# The fuel lasts

The rules for pairs and for tables are recursions on fuel.  Both satisfy the equation of the recursion
that they stand for: what is inside is read by the rule itself (`Parser.pairs_eq_orElse`,
`Parser.table_eq_tableStep`).  So nothing fails, and nothing is left out of what is recorded, for want
of fuel.

Two rules are compared on short inputs (`Parser.AgreeBelow`).  Agreement is put together as rules are,
and a token is taken off before anything inside is read.  So rules for what is inside that agree on
fewer than n tokens make rules that agree on n as well.
-/

namespace TableQuery

namespace Parser

variable {α β : Type} {knows : String → Bool} {path : RulePath} {bound : Nat}

/-- On fewer tokens than this, two rules give and record the same. -/
def AgreeBelow (bound : Nat) (rule other : Parser α) : Prop :=
  ∀ input, input.length < bound → rule input = other input

namespace AgreeBelow

theorem refl (rule : Parser α) : AgreeBelow bound rule rule := fun _ _ => rfl

theorem zero (rule other : Parser α) : AgreeBelow 0 rule other :=
  fun _ hlt => absurd hlt (Nat.not_lt_zero _)

section Bind

variable {first other : Parser α} {next next' : α → Parser β}

/-- The second parts have to agree on what the first ones leave. -/
theorem bind_of_lt {less : Nat} (hfirst : AgreeBelow bound first other)
    (hless : ∀ input made rest, first.Gives input made rest → input.length < bound → rest.length < less)
    (hnext : ∀ made, AgreeBelow less (next made) (next' made)) :
    AgreeBelow bound (first >>= next) (other >>= next') := by
  intro input hlt
  have heq := hfirst input hlt
  obtain ⟨made, middle, hmade⟩ | hnone := gives_or_none first input
  · have hmade' : other.Gives input made middle := by rwa [Gives, ← heq]
    rw [bind_of_gives hmade, bind_of_gives hmade', heq,
      hnext made middle (hless input made middle hmade hlt)]
  · have hnone' : (other input).result = none := by rwa [← heq]
    rw [bind_of_none hnone, bind_of_none hnone', heq]

theorem bind {least : Nat} (hreads : Reads knows path least first)
    (hfirst : AgreeBelow bound first other)
    (hnext : ∀ made, AgreeBelow bound (next made) (next' made)) :
    AgreeBelow bound (first >>= next) (other >>= next') := by
  refine bind_of_lt hfirst (fun input made rest hgives hlt => ?_) hnext
  obtain ⟨used, rfl, _⟩ := hreads.takes input made rest hgives
  exact Nat.lt_of_le_of_lt (List.suffix_append used rest).length_le hlt

/-- Behind a rule that takes off a token, agreement on one token less is enough. -/
theorem step (hreads : Reads knows path 1 first)
    (hnext : ∀ made, AgreeBelow bound (next made) (next' made)) :
    AgreeBelow (bound + 1) (first >>= next) (first >>= next') := by
  refine bind_of_lt (.refl first) (fun input made rest hgives hlt => ?_) hnext
  obtain ⟨used, rfl, hused⟩ := hreads.takes input made rest hgives
  rw [List.length_append] at hlt
  omega

theorem token (h : TakesToken first) (hnext : ∀ made, AgreeBelow bound (next made) (next' made)) :
    AgreeBelow (bound + 1) (first >>= next) (first >>= next') :=
  step (Reads.of_token h : Reads (fun _ => true) [] 1 first) hnext

theorem skip (h : TakesToken first) (hnext : ∀ made, AgreeBelow bound (next made) (next' made)) :
    AgreeBelow bound (first >>= next) (first >>= next') :=
  fun input hlt => token h hnext input (Nat.lt_succ_of_lt hlt)

theorem last (hfirst : AgreeBelow bound first other) :
    AgreeBelow bound (first >>= next) (other >>= next) :=
  fun input hlt => by simp only [Bind.bind, hfirst input hlt]

end Bind

theorem trying {rule : Rule} {body body' : RulePath → Parser α}
    (h : AgreeBelow bound (body (path ++ [rule])) (body' (path ++ [rule]))) :
    AgreeBelow bound (trying path rule body) (trying path rule body') := by
  intro input hlt
  simp only [Parser.trying, attempt, h input hlt]

theorem orElse {first second first' second' : Parser α} (hfirst : AgreeBelow bound first first')
    (hsecond : AgreeBelow bound second second') :
    AgreeBelow bound (first.orElse second) (first'.orElse second') := by
  intro input hlt
  simp only [Parser.orElse, hfirst input hlt, hsecond input hlt]

theorem firstOf {rules others : List (Parser α)} (h : List.Forall₂ (AgreeBelow bound) rules others) :
    AgreeBelow bound (firstOf rules) (firstOf others) := by
  induction h with
  | nil => exact .refl _
  | cons hrule hrules ih =>
    cases hrules with
    | nil => exact hrule
    | cons => exact hrule.orElse ih

end AgreeBelow

/-! ## Pairs -/

theorem agree_morePairs {more more' : RulePath → Parser FieldPairs}
    (h : AgreeBelow bound (more path) (more' path)) :
    AgreeBelow (bound + 1) (morePairs more path) (morePairs more' path) := by
  have hreads : Reads (fun _ => true) path 1 (namePair path) := reads_namePair
  exact .step hreads fun _ => .skip (.expect _) fun _ => .last h

theorem agree_pairsFrom (fuel more : Nat) (path : RulePath) :
    AgreeBelow fuel (pairsFrom fuel path) (pairsFrom (fuel + more) path) := by
  induction fuel generalizing path with
  | zero => exact .zero _ _
  | succ fuel ih =>
    rw [Nat.succ_add, pairsFrom_succ, pairsFrom_succ]
    exact .orElse (.trying (agree_morePairs (ih _))) (.refl _)

theorem agree_pairs (fuel : Nat) (path : RulePath) :
    AgreeBelow fuel (pairsFrom fuel path) (pairs path) := by
  intro input hlt
  obtain ⟨more, rfl⟩ := Nat.exists_eq_add_of_le hlt
  rw [pairs_eq_pairsFrom]
  exact (agree_pairsFrom _ more path input (Nat.lt_succ_self _)).symm

/-- Pairs are a pair and more pairs, or one pair. -/
theorem pairs_eq_orElse (path : RulePath) :
    pairs path = (trying path .pairList (morePairs pairs)).orElse (trying path .singlePair onePair) := by
  funext input
  have hstep : AgreeBelow (input.length + 1) _ _ :=
    .orElse (.trying (agree_morePairs (agree_pairs input.length (path ++ [.pairList]))))
      (.refl (trying path .singlePair onePair))
  rw [pairs_eq_pairsFrom, pairsFrom_succ]
  exact hstep input (Nat.lt_succ_self _)

section Tables

variable {table other : RulePath → Parser Table}

theorem agree_condition (h : ∀ path, AgreeBelow bound (table path) (other path)) :
    AgreeBelow bound (condition table path) (condition other path) :=
  .orElse
    (.trying (.skip .name fun _ => .skip (.expect _) fun _ => .last (h _)))
    (.trying (.last (h _)))

theorem agree_binary (hreads : ∀ path, Reads knows path 1 (table path))
    (h : ∀ path, AgreeBelow bound (table path) (other path)) (word : String)
    (make : Table → Table → Table) :
    AgreeBelow (bound + 1) (binary table word make path) (binary other word make path) :=
  .token (.keyword _) fun _ => .skip (.expect _) fun _ => .bind (hreads _) (h _) fun _ =>
    .skip (.expect _) fun _ => .last (h _)

theorem agree_tableStep (hreads : ∀ path, Reads knows path 1 (table path))
    (h : ∀ path, AgreeBelow bound (table path) (other path)) :
    AgreeBelow (bound + 1) (tableStep knows table path) (tableStep knows other path) := by
  refine .firstOf (.cons (.refl _) (.cons (.trying ?_) (.cons (.trying ?_) (.cons (.trying ?_)
    (.cons (.trying ?_) (.cons (.trying ?_) (.cons (.trying ?_) .nil)))))))
  · exact .token .joinName fun _ => .skip (.expect _) fun _ => .bind (hreads _) (h _) fun _ =>
      .skip (.expect _) fun _ => .last (agree_condition h)
  · exact agree_binary hreads h _ _
  · exact agree_binary hreads h _ _
  · exact agree_binary hreads h _ _
  · exact .token (.keyword _) fun _ => .skip (.expect _) fun _ => .last (h _)
  · exact .token (.keyword _) fun _ => .skip (.expect _) fun _ =>
      .bind (reads_predicate : Reads knows _ 1 _) (.refl _) fun _ =>
      .skip (.expect _) fun _ => .last (h _)

end Tables

theorem agree_tableFrom (fuel more : Nat) (path : RulePath) :
    AgreeBelow fuel (tableFrom knows fuel path) (tableFrom knows (fuel + more) path) := by
  induction fuel generalizing path with
  | zero => exact .zero _ _
  | succ fuel ih =>
    rw [Nat.succ_add]
    exact agree_tableStep (reads_tableFrom fuel) ih

theorem agree_table (fuel : Nat) (path : RulePath) :
    AgreeBelow fuel (tableFrom knows fuel path) (table knows path) := by
  intro input hlt
  obtain ⟨more, rfl⟩ := Nat.exists_eq_add_of_le hlt
  rw [table_eq_tableFrom]
  exact (agree_tableFrom _ more path input (Nat.lt_succ_self _)).symm

/-- The rule for tables reads the operands of a table by itself. -/
theorem table_eq_tableStep (knows : String → Bool) (path : RulePath) :
    table knows path = tableStep knows (table knows) path := by
  funext input
  have hstep : AgreeBelow (input.length + 1) (tableStep knows (tableFrom knows input.length) path)
      (tableStep knows (table knows) path) :=
    agree_tableStep (reads_tableFrom input.length) (agree_table input.length)
  rw [table_eq_tableFrom]
  exact hstep input (Nat.lt_succ_self _)

end Parser

end TableQuery
