import Mathlib.Algebra.GroupWithZero.Nat
import Mathlib.Algebra.Order.BigOperators.Group.List
import Mathlib.Algebra.Order.Group.Nat
import TableQuery.Proofs.Query.Parsing

/-!
# How much a parse records

Rules are tried in turn and an alternative that fails late is given up, so it is not obvious that a parse
takes linear time.  What it records says how much it does: each rule that is tried leaves one attempt.
A failed parse of n tokens records 11(n + 1) attempts at most (`parse_trace_length_le`).

The bound is an amortized one.  A rule that applies is charged ten attempts for each token that it takes
off, one that fails ten for each token it was given, and what goes beyond that is carried along from
part to part (`Parser.Within`).  Alternatives could multiply this, as they start again at the same
tokens.  They do not, for two reasons:

* The first two lexemes predict the alternative for a table, and the others record next to nothing
  (`trace_length_le_of_not_predicted`).
* The second way to end a join starts with a table, where the first one starts with a field and a comma.
  No table starts so.  Either the first way ends before its own table, or there is none to be read the
  second way.

Pairs are read twice where they are the last ones, but then nothing is read after them.
-/

namespace TableQuery

open Grammar

namespace Parser

variable {α β : Type} {knows : String → Bool} {path : RulePath} {input rest : List Token}

/-! ## Charging attempts to tokens -/

/-- What a rule records on the tokens is covered by ten attempts for each token: for each that it takes
off, and `surplus` on top, if it applies; for each that it is given, and `excess` on top, if it fails. -/
structure Within (rule : Parser α) (input : List Token) (surplus excess : Int) : Prop where
  applied : ∀ node rest, rule.Gives input node rest →
    ((rule input).trace.length : Int) ≤ 10 * (input.length - rest.length) + surplus
  failed : (rule input).result = none → ((rule input).trace.length : Int) ≤ 10 * input.length + excess

namespace Within

variable {surplus excess : Int}

theorem mono {rule : Parser α} {a b : Int} (h : Within rule input a b) (hsurplus : a ≤ surplus)
    (hexcess : b ≤ excess) : Within rule input surplus excess where
  applied node rest hgives := by
    have hcost := h.applied node rest hgives
    omega
  failed hnone := by
    have hcost := h.failed hnone
    omega

theorem pure (node : α) : Within (pure node) input 0 0 where
  applied made rest hgives := by
    obtain ⟨_, rfl⟩ := gives_pure.mp hgives
    show ((0 : Nat) : Int) ≤ _
    omega
  failed hnone := by cases hnone

/-- What goes beyond the tokens adds up.  The whole fails where the first part does, or where the second
one does after it. -/
theorem bind {first : Parser α} {next : α → Parser β} {a b c d : Int} (hfirst : Within first input a b)
    (hnext : ∀ made middle, first.Gives input made middle → Within (next made) middle c d) :
    Within (first >>= next) input (a + c) (max b (a + d)) := by
  obtain ⟨made, middle, hmade⟩ | hnone := gives_or_none first input
  · have hcost := hfirst.applied made middle hmade
    have hrest := hnext made middle hmade
    constructor
    · intro node rest hgives
      obtain ⟨made', middle', hmade', hnode⟩ := gives_bind.mp hgives
      obtain ⟨rfl, rfl⟩ := hmade.unique hmade'
      have hcost' := hrest.applied node rest hnode
      simp only [bind_of_gives hmade, List.length_append]
      omega
    · intro hfailed
      simp only [bind_of_gives hmade, List.length_append] at hfailed ⊢
      have hcost' := hrest.failed hfailed
      omega
  · constructor
    · intro node rest hgives
      obtain ⟨made, middle, hmade, _⟩ := gives_bind.mp hgives
      cases hnone.symm.trans hmade
    · intro _
      simp only [bind_of_none hnone]
      have hcost := hfirst.failed hnone
      omega

theorem congr {rule other : Parser α} (h : Within rule input surplus excess)
    (heq : other input = rule input) : Within other input surplus excess where
  applied node rest hgives := by
    rw [Gives, heq] at hgives
    rw [heq]
    exact h.applied node rest hgives
  failed hnone := by
    rw [heq] at hnone ⊢
    exact h.failed hnone

theorem trace_length_le {rule : Parser α} {bound : Int} (h : Within rule input surplus excess)
    (hsurplus : surplus ≤ bound) (hexcess : excess ≤ bound) :
    ((rule input).trace.length : Int) ≤ 10 * input.length + bound := by
  obtain ⟨node, rest, hgives⟩ | hnone := gives_or_none rule input
  · have hcost := h.applied node rest hgives
    omega
  · have hcost := h.failed hnone
    omega

theorem of_none {rule : Parser α} (hnone : (rule input).result = none)
    (hle : ((rule input).trace.length : Int) ≤ 10 * input.length + excess) :
    Within rule input surplus excess :=
  ⟨fun _ _ hgives => (Option.some_ne_none _ (hgives.symm.trans hnone)).elim, fun _ => hle⟩

/-- What a rule recorded in vain is missing where the next one is tried. -/
theorem orElse {first second : Parser α} {a : Int} (hfirst : Within first input surplus a)
    (hsecond : (first input).result = none →
      Within second input (surplus - (first input).trace.length)
        (excess - (first input).trace.length)) :
    Within (first.orElse second) input surplus excess := by
  obtain ⟨node, rest, hgives⟩ | hnone := gives_or_none first input
  · constructor
    · intro node' rest' hgives'
      rw [Gives, orElse_of_gives hgives] at hgives'
      rw [orElse_of_gives hgives]
      exact hfirst.applied node' rest' hgives'
    · intro hnone
      rw [orElse_of_gives hgives] at hnone
      cases hnone.symm.trans hgives
  · have hrest := hsecond hnone
    constructor
    · intro node rest hgives
      rw [Gives, orElse_of_none hnone] at hgives
      rw [orElse_of_none hnone, List.length_append]
      have hcost := hrest.applied node rest hgives
      omega
    · intro hnone'
      rw [orElse_of_none hnone] at hnone' ⊢
      rw [List.length_append]
      have hcost := hrest.failed hnone'
      omega

/-- An attempt is one more that is recorded. -/
theorem attempt {rule : Rule} {body : RulePath → Parser α} {note : List Token → Option Note}
    (h : Within (body (path ++ [rule])) input (surplus - 1) (excess - 1)) :
    Within (attempt path rule body note) input surplus excess where
  applied node rest hgives := by
    have hcost := h.applied node rest hgives
    simp only [Parser.attempt, List.length_cons]
    omega
  failed hnone := by
    have hcost := h.failed hnone
    simp only [Parser.attempt, List.length_cons]
    omega

theorem trying {rule : Rule} {body : RulePath → Parser α}
    (h : Within (body (path ++ [rule])) input (surplus - 1) (excess - 1)) :
    Within (trying path rule body) input surplus excess :=
  attempt h

theorem of_token {rule : Parser α} (h : TakesToken rule) : Within rule input (-10) 0 where
  applied node rest hgives := by
    obtain ⟨token, rfl⟩ := h.takes input node rest hgives
    rw [h.quiet, List.length_nil, List.length_cons]
    omega
  failed _ := by
    rw [h.quiet, List.length_nil]
    omega

end Within

/-! ## Predicates and pairs -/

theorem trace_namePair_length : (namePair path input).trace.length = 1 := by
  have hquiet : Quiet (do
      let source ← name
      expect (.comparator .greater)
      let target ← name
      return (source, target)) :=
    .bind (.ofFunction _) fun _ => .bind (.ofFunction _) fun _ =>
      .bind (.ofFunction _) fun _ => .pure _
  rw [namePair, trying, Parser.attempt, List.length_cons, hquiet]
  rfl

theorem within_predicate : Within (predicate path) input (-29) 1 :=
  .trying (.mono (.bind (.of_token .name) fun _ _ _ => .bind (.of_token .comparator) fun _ _ _ =>
    .bind (.of_token .operand) fun _ _ _ => .pure _) (by decide) (by decide))

theorem within_namePair : Within (namePair path) input (-29) 1 :=
  .trying (.mono (.bind (.of_token .name) fun _ _ _ => .bind (.of_token (.expect _)) fun _ _ _ =>
    .bind (.of_token .name) fun _ _ _ => .pure _) (by decide) (by decide))

/-- The first alternative for pairs: a pair and more pairs. -/
def morePairs (more : RulePath → Parser FieldPairs) (path : RulePath) : Parser FieldPairs := do
  let pair ← namePair path
  expect .comma
  let pairs ← more path
  return pair :: pairs

/-- The second alternative for pairs: one pair. -/
def onePair (path : RulePath) : Parser FieldPairs := do
  let pair ← namePair path
  return [pair]

theorem pairsFrom_succ (fuel : Nat) (path : RulePath) : pairsFrom (fuel + 1) path =
    (trying path .pairList (morePairs (pairsFrom fuel))).orElse (trying path .singlePair onePair) := rfl

theorem trace_onePair_length : (onePair path input).trace.length = 1 := by
  rw [onePair, trace_bind_of_quiet fun _ => .pure _, trace_namePair_length]

theorem trace_morePairs_length_le {more : RulePath → Parser FieldPairs}
    (hmore : ∀ input, (more path input).result = none → (more path input).trace.length ≤ 4)
    (h : (morePairs more path input).result = none) :
    (morePairs more path input).trace.length ≤ 5 := by
  rw [morePairs] at h ⊢
  obtain ⟨pair, middle, hpair⟩ | hnone := gives_or_none (namePair path) input
  · rw [bind_of_gives hpair] at h ⊢
    rw [List.length_append, trace_namePair_length]
    obtain ⟨_, list, hcomma⟩ | hnone := gives_or_none (expect .comma) middle
    · rw [bind_of_gives hcomma] at h ⊢
      obtain ⟨pairs, rest, hpairs⟩ | hnone := gives_or_none (more path) list
      · rw [bind_of_gives hpairs] at h
        cases h
      · have hle := hmore list hnone
        rw [bind_of_none hnone]
        show 1 + ([] ++ (more path list).trace).length ≤ 5
        rw [List.nil_append]
        omega
    · rw [bind_of_none hnone]
      exact Nat.le_of_lt_succ (by decide : 1 < 6)
  · rw [bind_of_none hnone, trace_namePair_length]
    decide

/-- Where pairs cannot be read there is not one pair, so nothing is read twice. -/
theorem trace_pairsFrom_length_le {fuel : Nat} (h : (pairsFrom fuel path input).result = none) :
    (pairsFrom fuel path input).trace.length ≤ 4 := by
  cases fuel with
  | zero => exact Nat.zero_le 4
  | succ fuel =>
    rw [pairsFrom_succ] at h ⊢
    obtain ⟨hmore, hone⟩ := orElse_eq_none_iff.mp h
    have hpair : ∀ path, (namePair path input).result = none := by
      intro path'
      obtain ⟨pair, middle, hgives⟩ | hnone := gives_or_none (namePair path') input
      · cases hone.symm.trans (gives_trying.mpr (gives_bind.mpr
          ⟨pair, middle, hgives, gives_pure.mpr ⟨rfl, rfl⟩⟩))
      · exact hnone
    rw [orElse_of_none hmore]
    simp only [trying, Parser.attempt, morePairs, onePair, bind_of_none (hpair _), List.length_append,
      List.length_cons, trace_namePair_length]
    decide

/-- Each pair but the last one is read once, and the last one twice. -/
theorem within_pairsFrom {fuel : Nat} : Within (pairsFrom fuel path) input 0 4 := by
  induction fuel generalizing path input with
  | zero =>
    refine .of_none rfl ?_
    show ((0 : Nat) : Int) ≤ _
    omega
  | succ fuel ih =>
    refine ⟨fun node rest hgives => ?_, fun hnone => ?_⟩
    · rw [pairsFrom_succ] at hgives ⊢
      obtain hmore | ⟨hmore, hone⟩ := gives_orElse.mp hgives
      · have hwithin : Within (trying path .pairList (morePairs (pairsFrom fuel))) input 0 2 :=
          .trying (.mono (.bind within_namePair fun _ _ _ => .bind (.of_token (.expect _))
            fun _ _ _ => .bind ih fun _ _ _ => .pure _) (by decide) (by decide))
        rw [orElse_of_gives hmore]
        exact hwithin.applied node rest hmore
      · have hle := trace_morePairs_length_le (fun _ => trace_pairsFrom_length_le) hmore
        have hlength : input.length = rest.length + 3 := by
          simp only [gives_trying, onePair, namePair, gives_bind, gives_name, gives_expect,
            gives_pure] at hone
          obtain ⟨_, _, ⟨_, _, ⟨_, rfl⟩, _, _, ⟨_, rfl⟩, _, _, ⟨_, rfl⟩, _, rfl⟩, _, rfl⟩ := hone
          rfl
        rw [orElse_of_none hmore]
        simp only [trying, Parser.attempt, List.length_append, List.length_cons, trace_onePair_length]
        omega
    · have hle := trace_pairsFrom_length_le hnone
      omega

theorem within_pairs : Within (pairs path) input 0 4 :=
  within_pairsFrom.congr (pairs_eq_pairsFrom path input)

/-! ## The alternatives for a table -/

theorem trace_firstOf_length_le (rules : List (Parser α)) : ((firstOf rules) input).trace.length ≤
    (rules.map fun rule => (rule input).trace.length).sum := by
  induction rules with
  | nil => exact Nat.le_refl 0
  | cons rule rules ih =>
    cases rules with
    | nil => simp [firstOf]
    | cons next rules =>
      rw [List.map_cons, List.sum_cons]
      obtain ⟨node, rest, hgives⟩ | hnone := gives_or_none rule input
      · rw [firstOf_cons_cons, orElse_of_gives hgives]
        exact Nat.le_add_right ..
      · rw [firstOf_cons_cons, orElse_of_none hnone, List.length_append]
        exact Nat.add_le_add_left ih _

section Alternatives

variable {table : RulePath → Parser Table} {alternative : Rule × (RulePath → Parser Table)}

theorem exists_alternative_of_predicted {before : List Lexeme} {rule : Rule}
    (h : predicted before = some rule) : ∃ alternative ∈ alternatives knows table,
      alternative.1 = rule := by
  have hrule : rule ∈ (alternatives knows table).map Prod.fst := by
    show rule ∈ [Rule.collection, .join, .spatialJoin, .union, .product, .projection, .selection]
    unfold predicted at h
    repeat' split at h
    all_goals
      cases h
      try decide
  exact List.mem_map.mp hrule

theorem trace_collection_length : (collection knows path input).trace.length = 1 := by
  have htail : ∀ dataset, Quiet (do
      expect .dot
      let sectionName ← name
      return Table.collection dataset sectionName) := fun _ =>
    .bind (.ofFunction _) fun _ => .bind (.ofFunction _) fun _ => .pure _
  rw [collection, trace_bind_of_quiet htail]
  rfl

/-- Each alternative starts with a word and an opening bracket and records nothing before them, apart
from the one for collections, which tries a name as that of a dataset. -/
theorem trace_length_le_of_not_predicted (hmem : alternative ∈ alternatives knows table)
    (h : predicted (lexemes input) ≠ some alternative.1) :
    (alternative.2 path input).trace.length ≤ if alternative.1 = .collection then 1 else 0 := by
  simp only [alternatives, List.mem_cons, List.not_mem_nil, or_false] at hmem
  obtain rfl | hmem := hmem
  · exact Nat.le_of_eq trace_collection_length
  suffices hnil : (alternative.2 path input).trace = [] by
    rw [hnil]
    exact Nat.zero_le _
  obtain rfl | rfl | rfl | rfl | rfl | rfl := hmem
  · refine Quiet.trace_bind_expect (.ofFunction _) fun join offset rest hjoin => h ?_
    obtain ⟨_, rfl⟩ := gives_joinName.mp hjoin
    exact predicted_join join _
  all_goals
    refine Quiet.trace_bind_expect (.ofFunction _) fun _ offset rest hkeyword => h ?_
    obtain ⟨_, rfl⟩ := gives_keyword.mp hkeyword
    rfl

/-- Seven alternatives are tried, and one of them tries a name as that of a dataset.  The predicted one
alone records more. -/
theorem trace_tableStep_length_le {bound : Nat}
    (h : ∀ alternative ∈ alternatives knows table,
      predicted (lexemes input) = some alternative.1 →
      (alternative.2 (path ++ [alternative.1]) input).trace.length ≤ bound) :
    (tableStep knows table path input).trace.length ≤ 8 + bound := by
  let share (rule : Rule) : Nat := (if rule = .collection then 1 else 0) +
    if predicted (lexemes input) = some rule then bound else 0
  have hshare : ∀ alternative ∈ alternatives knows table,
      (trying path alternative.1 alternative.2 input).trace.length ≤ share alternative.1 + 1 := by
    intro alternative hmem
    refine Nat.succ_le_succ ?_
    by_cases hp : predicted (lexemes input) = some alternative.1
    · refine Nat.le_trans (h alternative hmem hp) ?_
      simp [share, hp]
    · exact Nat.le_trans (trace_length_le_of_not_predicted hmem hp) (Nat.le_add_right ..)
  have hsum : (([.collection, .join, .spatialJoin, .union, .product, .projection,
      .selection] : List Rule).map fun rule => share rule + 1).sum ≤ 8 + bound := by
    cases hp : predicted (lexemes input) with
    | none => simp [share, hp]
    | some rule => cases rule <;> simp [share, hp] <;> omega
  rw [tableStep_eq_firstOf]
  calc ((firstOf ((alternatives knows table).map fun alternative =>
        trying path alternative.1 alternative.2)) input).trace.length
      ≤ ((alternatives knows table).map fun alternative =>
          (trying path alternative.1 alternative.2 input).trace.length).sum := by
        simpa only [List.map_map, Function.comp_def] using trace_firstOf_length_le
          ((alternatives knows table).map fun alternative => trying path alternative.1 alternative.2)
    _ ≤ ((alternatives knows table).map fun alternative => share alternative.1 + 1).sum :=
        List.sum_le_sum hshare
    _ ≤ 8 + bound := hsum

/-- What the rule for tables records is covered, and without a prediction the tokens are no table and
the alternatives are recorded alone. -/
structure Thrifty (table : RulePath → Parser Table) : Prop where
  within : ∀ path input, Within (table path) input 0 8
  none_of_not_predicted : ∀ path input, predicted (lexemes input) = none →
    (table path input).result = none
  trace_of_not_predicted : ∀ path input, predicted (lexemes input) = none →
    (table path input).trace.length ≤ 8

/-- The first way to end a join. -/
def onFields (table : RulePath → Parser Table) (path : RulePath) : Parser Condition := do
  let leftField ← name
  expect .comma
  let right ← table path
  expect .comma
  let rightField ← name
  expect .closeParen
  return .onFields leftField right rightField

/-- The second way to end a join. -/
def onPredicate (table : RulePath → Parser Table) (path : RulePath) : Parser Condition := do
  let right ← table path
  expect .comma
  let predicate ← predicate path
  expect .closeParen
  return .onPredicate right predicate

theorem condition_eq_orElse (table : RulePath → Parser Table) (path : RulePath) : condition table path =
    (trying path .onFields (onFields table)).orElse (trying path .onPredicate (onPredicate table)) := rfl

theorem within_onFields (htable : Thrifty table) : Within (onFields table path) input (-41) 0 :=
  .mono (.bind (.of_token .name) fun _ _ _ => .bind (.of_token (.expect _)) fun _ _ _ =>
    .bind (htable.within _ _) fun _ _ _ => .bind (.of_token (.expect _)) fun _ _ _ =>
    .bind (.of_token .name) fun _ _ _ => .bind (.of_token (.expect _)) fun _ _ _ =>
    .pure _) (by decide) (by decide)

theorem within_onPredicate (htable : Thrifty table) : Within (onPredicate table path) input (-42) 8 :=
  .mono (.bind (htable.within _ _) fun _ _ _ => .bind (.of_token (.expect _)) fun _ _ _ =>
    .bind within_predicate fun _ _ _ => .bind (.of_token (.expect _)) fun _ _ _ =>
    .pure _) (by decide) (by decide)

theorem trace_onFields_length_le (htable : Thrifty table) (path : RulePath) (field : String)
    (offset offset' : Nat) (rest : List Token) :
    ((onFields table path (⟨.word field, offset⟩ :: ⟨.comma, offset'⟩ :: rest)).trace.length : Int) ≤
      10 * rest.length + 8 := by
  have hrest : ∀ node, Within (do
      let right ← table path
      expect .comma
      let rightField ← name
      expect .closeParen
      return Condition.onFields node right rightField) rest 0 8 := fun _ =>
    .mono (.bind (htable.within _ _) fun _ _ _ => .bind (.of_token (.expect _)) fun _ _ _ =>
      .bind (.of_token .name) fun _ _ _ => .bind (.of_token (.expect _)) fun _ _ _ =>
      .pure _) (by decide) (by decide)
  have hname : name.Gives (⟨.word field, offset⟩ :: ⟨.comma, offset'⟩ :: rest) field
      (⟨.comma, offset'⟩ :: rest) := gives_name.mpr ⟨offset, rfl⟩
  have hcomma : (expect .comma).Gives (⟨.comma, offset'⟩ :: rest) () rest :=
    gives_expect.mpr ⟨offset', rfl⟩
  rw [onFields, bind_of_gives hname, bind_of_gives hcomma]
  exact (hrest field).trace_length_le (by decide) (by decide)

/-- Either there is no table to be read the second way, or the first way ends before its own table. -/
theorem within_condition (htable : Thrifty table) : Within (condition table path) input (-40) 10 := by
  rw [condition_eq_orElse]
  have hfields : Within (trying path .onFields (onFields table)) input (-40) 1 :=
    .trying (within_onFields htable)
  refine .orElse hfields fun _ => ?_
  by_cases hcomma : ∃ field offset offset' rest,
      input = ⟨.word field, offset⟩ :: ⟨.comma, offset'⟩ :: rest
  · obtain ⟨field, offset, offset', rest, rfl⟩ := hcomma
    have hfirst := trace_onFields_length_le htable (path ++ [.onFields]) field offset offset' rest
    have hnone : (table (path ++ [.onPredicate])
        (⟨.word field, offset⟩ :: ⟨.comma, offset'⟩ :: rest)).result = none :=
      htable.none_of_not_predicted _ _ rfl
    have hle := htable.trace_of_not_predicted (path ++ [.onPredicate])
      (⟨.word field, offset⟩ :: ⟨.comma, offset'⟩ :: rest) rfl
    refine .trying (.of_none ?_ ?_)
    · rw [onPredicate, bind_of_none hnone]
    · rw [onPredicate, bind_of_none hnone]
      simp only [trying, Parser.attempt, List.length_cons] at *
      omega
  · have hnil : (onFields table (path ++ [.onFields]) input).trace = [] := by
      refine Quiet.trace_bind_expect (.ofFunction _) fun field offset' rest hname => ?_
      obtain ⟨offset, rfl⟩ := gives_name.mp hname
      exact hcomma ⟨field, offset, offset', rest, rfl⟩
    have hfirst : (trying path .onFields (onFields table) input).trace.length = 1 := by
      rw [trying, Parser.attempt, List.length_cons, hnil]
      rfl
    rw [hfirst]
    exact .trying (within_onPredicate htable)

theorem within_binary (htable : Thrifty table) (word : String) (make : Table → Table → Table) :
    Within (binary table word make path) input (-8) 0 :=
  .mono (.bind (.of_token (.keyword _)) fun _ _ _ => .bind (.of_token (.expect _)) fun _ _ _ =>
    .bind (htable.within _ _) fun _ _ _ => .bind (.of_token (.expect _)) fun _ _ _ =>
    .bind (htable.within _ _) fun _ _ _ => .bind (.of_token (.expect _)) fun _ _ _ =>
    .pure _) (by decide) (by decide)

theorem within_projection (htable : Thrifty table) : Within (projection table path) input (-8) 0 :=
  .mono (.bind (.of_token (.keyword _)) fun _ _ _ => .bind (.of_token (.expect _)) fun _ _ _ =>
    .bind (htable.within _ _) fun _ _ _ => .bind (.of_token (.expect _)) fun _ _ _ =>
    .bind (.of_token (.expect _)) fun _ _ _ => .bind within_pairs fun _ _ _ =>
    .bind (.of_token (.expect _)) fun _ _ _ => .bind (.of_token (.expect _)) fun _ _ _ =>
    .pure _) (by decide) (by decide)

theorem within_selection (htable : Thrifty table) : Within (selection table path) input (-8) 0 :=
  .mono (.bind (.of_token (.keyword _)) fun _ _ _ => .bind (.of_token (.expect _)) fun _ _ _ =>
    .bind within_predicate fun _ _ _ => .bind (.of_token (.expect _)) fun _ _ _ =>
    .bind (htable.within _ _) fun _ _ _ => .bind (.of_token (.expect _)) fun _ _ _ =>
    .pure _) (by decide) (by decide)

theorem within_join (htable : Thrifty table) : Within (join table path) input (-8) 0 :=
  .mono (.bind (.of_token .joinName) fun _ _ _ => .bind (.of_token (.expect _)) fun _ _ _ =>
    .bind (htable.within _ _) fun _ _ _ => .bind (.of_token (.expect _)) fun _ _ _ =>
    .bind (within_condition htable) fun _ _ _ => .pure _) (by decide) (by decide)

theorem within_collection (hne : input ≠ []) : Within (collection knows path) input (-8) 0 where
  applied node rest h := by
    simp only [collection, gives_bind, gives_dataset, gives_expect, gives_name, gives_pure] at h
    obtain ⟨_, _, ⟨_, _, rfl⟩, _, _, ⟨_, rfl⟩, _, _, ⟨_, rfl⟩, _, rfl⟩ := h
    rw [trace_collection_length]
    simp only [List.length_cons]
    omega
  failed _ := by
    rw [trace_collection_length]
    have hpos := List.length_pos_of_ne_nil hne
    omega

theorem within_alternative (htable : Thrifty table) (hmem : alternative ∈ alternatives knows table)
    (h : predicted (lexemes input) = some alternative.1) :
    Within (alternative.2 path) input (-8) 0 := by
  have hne : input ≠ [] := by
    rintro rfl
    cases h
  simp only [alternatives, List.mem_cons, List.not_mem_nil, or_false] at hmem
  obtain rfl | rfl | rfl | rfl | rfl | rfl | rfl := hmem
  · exact within_collection hne
  · exact within_join htable
  · exact within_binary htable _ _
  · exact within_binary htable _ _
  · exact within_binary htable _ _
  · exact within_projection htable
  · exact within_selection htable

/-- The predicted alternative alone can be the one that applies. -/
theorem exists_alternative_of_gives {node : Table}
    (h : (tableStep knows table path).Gives input node rest) :
    ∃ alternative ∈ alternatives knows table, predicted (lexemes input) = some alternative.1 ∧
      (alternative.2 (path ++ [alternative.1])).Gives input node rest := by
  rw [tableStep_eq_firstOf] at h
  obtain ⟨rule, hrule, hgives⟩ := exists_gives_of_firstOf h
  obtain ⟨alternative, hmem, rfl⟩ := List.mem_map.mp hrule
  exact ⟨alternative, hmem, predicted_of_gives hmem hgives, hgives⟩

theorem trace_tableStep_length_le_of_none (h : predicted (lexemes input) = none) :
    (tableStep knows table path input).trace.length ≤ 8 := by
  have hle : (tableStep knows table path input).trace.length ≤ 8 + 0 :=
    trace_tableStep_length_le fun _ _ hp => by cases h.symm.trans hp
  exact hle

theorem tableStep_eq_none (h : predicted (lexemes input) = none) :
    (tableStep knows table path input).result = none := by
  obtain ⟨node, rest, hgives⟩ | hnone := gives_or_none (tableStep knows table path) input
  · obtain ⟨_, _, hp, _⟩ := exists_alternative_of_gives hgives
    cases h.symm.trans hp
  · exact hnone

theorem eq_of_predicted {other : Rule × (RulePath → Parser Table)}
    (hmem : alternative ∈ alternatives knows table) (hother : other ∈ alternatives knows table)
    (h : predicted (lexemes input) = some alternative.1)
    (h' : predicted (lexemes input) = some other.1) : other = alternative :=
  List.inj_on_of_nodup_map (nodup_alternatives knows table) hother hmem
    (Option.some.inj (h'.symm.trans h))

theorem within_tableStep (htable : Thrifty table) : Within (tableStep knows table path) input 0 8 := by
  cases hp : predicted (lexemes input) with
  | none =>
    have hle : (tableStep knows table path input).trace.length ≤ 8 :=
      trace_tableStep_length_le_of_none hp
    exact .of_none (tableStep_eq_none hp) (by omega)
  | some rule =>
    obtain ⟨alternative, hmem, rfl⟩ : ∃ alternative ∈ alternatives knows table,
        alternative.1 = rule := exists_alternative_of_predicted hp
    have hwithin : Within (alternative.2 (path ++ [alternative.1])) input (-8) 0 :=
      within_alternative htable hmem hp
    have hle : (tableStep knows table path input).trace.length ≤
        8 + (alternative.2 (path ++ [alternative.1]) input).trace.length :=
      trace_tableStep_length_le fun other hother hp' => by
        rw [eq_of_predicted hmem hother hp hp']
    constructor
    · intro node rest h
      obtain ⟨other, hother, hp', hgives⟩ := exists_alternative_of_gives h
      rw [eq_of_predicted hmem hother hp hp'] at hgives
      have hcost := hwithin.applied node rest hgives
      omega
    · intro hnone
      rw [tableStep_eq_firstOf, firstOf_eq_none_iff] at hnone
      have hcost := hwithin.failed (hnone (trying path alternative.1 alternative.2)
        (List.mem_map_of_mem hmem))
      omega

theorem Thrifty.step (htable : Thrifty table) : Thrifty (tableStep knows table) where
  within _ _ := within_tableStep htable
  none_of_not_predicted _ _ := tableStep_eq_none
  trace_of_not_predicted _ _ := trace_tableStep_length_le_of_none

end Alternatives

theorem thrifty_tableFrom (fuel : Nat) : Thrifty (tableFrom knows fuel) := by
  induction fuel with
  | zero =>
    exact ⟨fun _ _ => .of_none rfl (by show ((0 : Nat) : Int) ≤ _; omega), fun _ _ _ => rfl,
      fun _ _ _ => Nat.zero_le 8⟩
  | succ fuel ih => exact ih.step

theorem thrifty_table : Thrifty (table knows) where
  within path input := ((thrifty_tableFrom _).within path input).congr (table_eq_tableFrom ..)
  none_of_not_predicted path input h := by
    rw [table_eq_tableFrom]
    exact (thrifty_tableFrom _).none_of_not_predicted path input h
  trace_of_not_predicted path input h := by
    rw [table_eq_tableFrom]
    exact (thrifty_tableFrom _).trace_of_not_predicted path input h

/-! ## Programs -/

theorem trace_whole_length (rule : Rule) (body : RulePath → Parser Program) :
    (whole rule body input).trace.length = (body [rule] input).trace.length + 1 := by
  rw [whole]
  obtain ⟨_ | ⟨found, _ | ⟨token, rest⟩⟩, trace⟩ := body [rule] input <;> rfl

theorem within_display : Within (display knows path) input 0 0 :=
  .mono (.bind (.of_token (.keyword _)) fun _ _ _ => .bind (.of_token (.expect _)) fun _ _ _ =>
    .bind (thrifty_table.within _ _) fun _ _ _ => .bind (.of_token (.expect _))
    fun _ _ _ => .pure _) (by decide) (by decide)

theorem within_bare : Within (bare knows path) input 0 8 :=
  .mono (.bind (thrifty_table.within _ _) fun _ _ _ => .pure _) (by decide) (by decide)

theorem trace_draw_length_le : (draw knows path input).trace.length ≤ 1 := by
  have htail : ∀ dataset, Quiet (do
      expect .closeParen
      return Program.draw dataset) := fun _ => .bind (.ofFunction _) fun _ => .pure _
  refine Quiet.trace_bind_length_le (.ofFunction _) fun _ _ =>
    Quiet.trace_bind_length_le (.ofFunction _) fun _ _ => ?_
  rw [trace_bind_of_quiet htail]
  rfl

theorem trace_bare_length_le_of_none (h : predicted (lexemes input) = none) :
    (bare knows path input).trace.length ≤ 8 := by
  rw [bare, bind_of_none (thrifty_table.none_of_not_predicted _ _ h)]
  exact thrifty_table.trace_of_not_predicted _ _ h

theorem trace_program_length : (program knows input).trace.length ≤
    (display knows [.display] input).trace.length + (draw knows [.draw] input).trace.length +
      (bare knows [.table] input).trace.length + 3 := by
  have hle : (program knows input).trace.length ≤
      ([whole .display (display knows), whole .draw (draw knows), whole .table (bare knows)].map
        fun rule => (rule input).trace.length).sum := trace_firstOf_length_le _
  simp only [List.map_cons, List.map_nil, List.sum_cons, List.sum_nil, trace_whole_length] at hle
  omega

/-- A program that displays or draws starts with a word and an opening bracket, and no table starts so. -/
theorem trace_program_length_le : (program knows input).trace.length ≤ 11 * (input.length + 1) := by
  have hsum : (program knows input).trace.length ≤ _ := trace_program_length
  by_cases hopened : ∃ word offset offset' rest, (word = "display" ∨ word = "draw") ∧
      input = ⟨.word word, offset⟩ :: ⟨.openParen, offset'⟩ :: rest
  · have hdisplay : ((display knows [.display] input).trace.length : Int) ≤ 10 * input.length + 0 :=
      within_display.trace_length_le (by decide) (by decide)
    have hdraw : (draw knows [.draw] input).trace.length ≤ 1 := trace_draw_length_le
    have hbare : (bare knows [.table] input).trace.length ≤ 8 := by
      refine trace_bare_length_le_of_none ?_
      obtain ⟨_, _, _, _, rfl | rfl, rfl⟩ := hopened
      · exact predicted_display _
      · exact predicted_draw _
    have hpos : 0 < input.length := by
      obtain ⟨_, _, _, _, _, rfl⟩ := hopened
      exact Nat.zero_lt_succ _
    omega
  · have hdisplay : (display knows [.display] input).trace = [] := by
      refine Quiet.trace_bind_expect (.ofFunction _) fun _ offset' rest hword => ?_
      obtain ⟨offset, rfl⟩ := gives_keyword.mp hword
      exact hopened ⟨_, offset, offset', rest, .inl rfl, rfl⟩
    have hdraw : (draw knows [.draw] input).trace = [] := by
      refine Quiet.trace_bind_expect (.ofFunction _) fun _ offset' rest hword => ?_
      obtain ⟨offset, rfl⟩ := gives_keyword.mp hword
      exact hopened ⟨_, offset, offset', rest, .inr rfl, rfl⟩
    have hbare : ((bare knows [.table] input).trace.length : Int) ≤ 10 * input.length + 8 :=
      within_bare.trace_length_le (by decide) (by decide)
    rw [hdisplay, hdraw, List.length_nil] at hsum
    omega

end Parser

/-! ## Sources -/

/-- What a failed parse records is linear in the number of tokens, however its tables are nested and
wherever it breaks off. -/
theorem parse_trace_length_le (knows : String → Bool) {source : String} {tokens : List Token}
    {failure : ParseFailure} (htokens : tokenize source.toList = .ok tokens)
    (h : parse knows source = .error failure) :
    failure.trace.length ≤ 11 * (tokens.length + 1) := by
  obtain ⟨_, htrace, _⟩ := program_of_parse_eq_error htokens h
  rw [htrace, List.length_map]
  exact Parser.trace_program_length_le

/-- A join inside a join that has no condition: 21 tokens and 25 attempts. -/
theorem parse_trace_length_le_of_nested_join :
    ∃ tokens failure,
      tokenize "inner-join(inner-join(a.b,a.b),a.b,c=1)".toList = .ok tokens ∧
      parse (fun _ => true) "inner-join(inner-join(a.b,a.b),a.b,c=1)" = .error failure ∧
      failure.trace.length ≤ 11 * (tokens.length + 1) ∧ tokens.length = 21 ∧
      failure.trace.length = 25 := by
  have htokens : (match tokenize "inner-join(inner-join(a.b,a.b),a.b,c=1)".toList with
      | .ok tokens => tokens.length
      | .error _ => 0) = 21 := by decide +kernel
  have hfailure : (match parse (fun _ => true) "inner-join(inner-join(a.b,a.b),a.b,c=1)" with
      | .ok _ => 0
      | .error failure => failure.trace.length) = 25 := by decide +kernel
  split at htokens
  next tokens heq =>
    split at hfailure
    next => cases hfailure
    next failure heq' =>
      exact ⟨tokens, failure, heq, heq', parse_trace_length_le _ heq heq', htokens, hfailure⟩
  next => cases htokens

end TableQuery
