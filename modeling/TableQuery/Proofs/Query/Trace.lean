import TableQuery.Proofs.Query.Recording
import TableQuery.Proofs.Query.Splitting

/-!
# What a failed parse tells

A failure shows a trace of texts: paths of rules, and for each attempt what was left of the source before
it and after it.  They tell what happened (`ParseFailure.Sound`, `parse_failure_sound`):

* Three attempts are at the top, one for each kind of program, and all of them failed.
* What an attempt was given and what it left are the source from a token on, and it left less.
* An attempt inside another one was given what the other one was, or what is left of that further on.
* A note stands where a name is not that of a dataset, and where a program ends too early, and nowhere
  else.
* The message quotes the least that any attempt left.

All but the last part is read off what is recorded (`Records`), as a path is told by its text
(`RulePath.text_injective`) and a token by the text from it on.
-/

namespace TableQuery

open Grammar

/-! ## The text of a path -/

/-- All rules. -/
def Rule.all : List Rule :=
  [.display, .draw, .table, .dataset, .collection, .join, .spatialJoin, .union, .product, .projection,
    .selection, .onFields, .onPredicate, .pairList, .singlePair, .namePair, .predicate]

theorem Rule.mem_all (rule : Rule) : rule ∈ all := by
  cases rule <;> decide

theorem Rule.label_injective {rule other : Rule} (h : rule.label = other.label) : rule = other := by
  have hnodup : (all.map label).Nodup := by decide
  exact List.inj_on_of_nodup_map hnodup (mem_all rule) (mem_all other) h

theorem Rule.slash_notMem_label (rule : Rule) : '/' ∉ rule.label.toList := by
  cases rule <;> decide

/-- Texts that are cut at their last slash are cut in one way. -/
theorem eq_of_append_slash {above above' name name' : List Char} (hname : '/' ∉ name)
    (hname' : '/' ∉ name') (h : above ++ '/' :: name = above' ++ '/' :: name') :
    above = above' ∧ name = name' := by
  obtain ⟨_ | ⟨c, more⟩, habove, hrest⟩ | ⟨_ | ⟨c, more⟩, habove, hrest⟩ :=
    List.append_eq_append_iff.mp h
  · rw [List.append_nil] at habove
    exact ⟨habove.symm, (List.cons.inj hrest).2⟩
  · obtain ⟨_, rfl⟩ := List.cons.inj hrest
    simp at hname
  · rw [List.append_nil] at habove
    exact ⟨habove, (List.cons.inj hrest).2.symm⟩
  · obtain ⟨_, rfl⟩ := List.cons.inj hrest
    simp at hname'

namespace RulePath

variable {path other : RulePath}

theorem text_concat (hne : path ≠ []) (rule : Rule) :
    text (path ++ [rule]) = text path ++ "/" ++ rule.label := by
  rw [text, List.map_append, String.intercalate_append_of_ne_nil (by simpa using hne) (by simp)]
  simp [text]

theorem text_injective (hne : path ≠ []) (hne' : other ≠ []) (h : path.text = other.text) :
    path = other := by
  have hsplit : ∀ {path : RulePath}, path ≠ [] →
      List.splitOn '/' path.text.toList = path.map fun rule => rule.label.toList := by
    intro path hne
    rw [text, String.toList_intercalate, List.map_map]
    refine List.splitOn_intercalate '/' (fun name hmem => ?_) (by simpa using hne)
    obtain ⟨rule, _, rfl⟩ := List.mem_map.mp hmem
    exact rule.slash_notMem_label
  have hmap := (hsplit hne).symm.trans ((congrArg (List.splitOn '/' ∘ String.toList) h).trans
    (hsplit hne'))
  refine List.map_injective_iff.mpr (fun rule rule' hlabel => ?_) hmap
  exact Rule.label_injective (String.toList_inj.mp hlabel)

/-- Only a path of one rule is written without a slash. -/
theorem slash_mem_text_iff (hne : path ≠ []) : '/' ∈ path.text.toList ↔ path.length ≠ 1 := by
  obtain ⟨front, last, rfl⟩ := (List.eq_nil_or_concat' path).resolve_left hne
  by_cases hfront : front = []
  · subst hfront
    simpa [text] using last.slash_notMem_label
  · rw [text_concat hfront]
    simpa using hfront

/-- A path that is written with a rule behind a slash ends in this rule. -/
theorem exists_of_text_eq (hne : path ≠ []) {above : String} {rule : Rule}
    (h : path.text = above ++ "/" ++ rule.label) :
    ∃ front, path = front ++ [rule] ∧ front ≠ [] ∧ text front = above := by
  have hslash : '/' ∈ path.text.toList := by simp [h]
  obtain ⟨front, last, rfl⟩ := (List.eq_nil_or_concat' path).resolve_left hne
  have hfront : front ≠ [] := by
    rintro rfl
    exact (slash_mem_text_iff hne).mp hslash rfl
  rw [text_concat hfront] at h
  have hlist : (text front).toList ++ '/' :: last.label.toList =
      above.toList ++ '/' :: rule.label.toList := by
    simpa using congrArg String.toList h
  obtain ⟨habove, hlabel⟩ := eq_of_append_slash last.slash_notMem_label rule.slash_notMem_label hlist
  rw [Rule.label_injective (String.toList_inj.mp hlabel)]
  exact ⟨front, rfl, hfront, String.toList_inj.mp habove⟩

end RulePath

/-! ## The shortest text -/

namespace Trace

theorem foldl_shorter_eq_none_iff {texts : List String} :
    texts.foldl shorter none = none ↔ texts = [] := by
  cases texts using List.reverseRecOn with
  | nil => simp
  | append_singleton texts text =>
    rw [List.foldl_append, List.foldl_cons, List.foldl_nil]
    unfold shorter
    split
    · simp
    · split <;> simp

/-- Of texts one after the other, the first one of the shortest stays. -/
theorem exists_of_foldl_shorter {texts : List String} {rest : String}
    (h : texts.foldl shorter none = some rest) : ∃ front back, texts = front ++ rest :: back ∧
      (∀ text ∈ front, rest.utf8ByteSize < text.utf8ByteSize) ∧
      ∀ text ∈ back, rest.utf8ByteSize ≤ text.utf8ByteSize := by
  induction texts using List.reverseRecOn generalizing rest with
  | nil => cases h
  | append_singleton texts text ih =>
    rw [List.foldl_append, List.foldl_cons, List.foldl_nil] at h
    cases hbest : texts.foldl shorter none with
    | none =>
      rw [hbest, shorter] at h
      cases h
      exact ⟨[], [], by rw [foldl_shorter_eq_none_iff.mp hbest], nofun, nofun⟩
    | some best =>
      obtain ⟨front, back, rfl, hfront, hback⟩ := ih hbest
      rw [hbest, shorter] at h
      split at h
      next hlt =>
        cases h
        refine ⟨front ++ best :: back, [], rfl, fun other hother => ?_, nofun⟩
        obtain hother | hother := List.mem_append.mp hother
        · exact Nat.lt_trans hlt (hfront other hother)
        · obtain rfl | hother := List.mem_cons.mp hother
          · exact hlt
          · exact Nat.lt_of_lt_of_le hlt (hback other hother)
      next hle =>
        cases h
        refine ⟨front, back ++ [text], by simp, hfront, fun other hother => ?_⟩
        obtain hother | hother := List.mem_append.mp hother
        · exact hback other hother
        · rw [List.mem_singleton.mp hother]
          exact Nat.le_of_not_lt hle

theorem furthest?_eq_none_iff {entries : List TraceEntry} :
    furthest? entries = none ↔ ∀ entry ∈ entries, entry.after = none := by
  rw [furthest?, foldl_shorter_eq_none_iff, List.filterMap_eq_nil_iff]

/-- How far the parser got is told by the first one of the shortest texts that were left. -/
theorem exists_of_furthest? {entries : List TraceEntry} {rest : String}
    (h : furthest? entries = some rest) : ∃ front entry back, entries = front ++ entry :: back ∧
      entry.after = some rest ∧
      (∀ other ∈ front, ∀ text, other.after = some text → rest.utf8ByteSize < text.utf8ByteSize) ∧
      ∀ other ∈ back, ∀ text, other.after = some text → rest.utf8ByteSize ≤ text.utf8ByteSize := by
  obtain ⟨front, back, htexts, hfront, hback⟩ := exists_of_foldl_shorter h
  obtain ⟨older, more, rfl, rfl, hmore⟩ := List.filterMap_eq_append_iff.mp htexts
  obtain ⟨skipped, entry, later, rfl, hskipped, hentry, rfl⟩ := List.filterMap_eq_cons_iff.mp hmore
  refine ⟨older ++ skipped, entry, later, by simp, hentry, fun other hother text htext => ?_,
    fun other hother text htext => hback text (List.mem_filterMap.mpr ⟨other, hother, htext⟩)⟩
  obtain hother | hother := List.mem_append.mp hother
  · exact hfront text (List.mem_filterMap.mpr ⟨other, hother, htext⟩)
  · cases (hskipped other hother).symm.trans htext

end Trace

/-! ## Failures -/

/-- The text is what is left of the source from a token on, or from its end on. -/
def Source.IsRest (source : List Char) (tokens : List Token) (text : String) : Prop :=
  text = "" ∨ ∃ token ∈ tokens, text = String.ofList (dropBytes token.offset source)

theorem Source.isRest_textAt {source : List Char} {tokens here : List Token} (h : here <:+ tokens) :
    IsRest source tokens (String.ofList (textAt source here)) := by
  cases here with
  | nil => exact .inl rfl
  | cons token rest => exact .inr ⟨token, h.subset (List.mem_cons_self ..), rfl⟩

/-- What a failure shows of a source with these tokens is right. -/
structure ParseFailure.Sound (knows : String → Bool) (source : List Char) (tokens : List Token)
    (failure : ParseFailure) : Prop where
  /-- At the top there are the attempts for the three kinds of programs, and all failed. -/
  tops : (failure.trace.filter fun entry => '/' ∉ entry.path.toList).map
    (fun entry => (entry.path, entry.after)) =
      [("program:display", none), ("program:draw", none), ("program:table", none)]
  before_isRest : ∀ entry ∈ failure.trace, Source.IsRest source tokens entry.before
  after_isRest : ∀ entry ∈ failure.trace, ∀ rest, entry.after = some rest →
    Source.IsRest source tokens rest
  /-- An attempt that succeeded left less than it was given. -/
  after_shorter : ∀ entry ∈ failure.trace, ∀ rest, entry.after = some rest →
    rest.toList <:+ entry.before.toList ∧ rest.toList.length < entry.before.toList.length
  /-- The nearest attempt before one with the path that is shorter by a rule was given as much or more. -/
  nested : ∀ front entry back above (rule : Rule), failure.trace = front ++ entry :: back →
    entry.path = above ++ "/" ++ rule.label →
    ∃ older parent between, front = older ++ parent :: between ∧ parent.path = above ∧
      (∀ other ∈ between, other.path ≠ above) ∧ entry.before.toList <:+ parent.before.toList
  /-- A note tells of a word that is not the name of a dataset, where one was tried, or of what comes
  after a program, where this kind of program was tried. -/
  note_iff : ∀ entry ∈ failure.trace, ∀ note, entry.note = some note ↔
    (∃ above name offset rest, entry.path = above ++ "/" ++ Rule.dataset.label ∧ knows name = false ∧
      ⟨.word name, offset⟩ :: rest <:+ tokens ∧
      entry.before = String.ofList (Source.dropBytes offset source) ∧
      note = Note.text source (.unknownDataset name)) ∨
    ∃ program used rest, entry.path = program.rule.label ∧ IsProgram knows (lexemes used) program ∧
      tokens = used ++ rest ∧ rest ≠ [] ∧ note = Note.text source (.trailingInput rest)
  failed_of_note : ∀ entry ∈ failure.trace, entry.note ≠ none → entry.after = none
  /-- The message quotes the first one of the shortest texts that were left. -/
  message_eq : (∀ entry ∈ failure.trace, entry.after = none) ∧ failure.message = "could not parse query" ∨
    ∃ front entry back rest, failure.trace = front ++ entry :: back ∧ entry.after = some rest ∧
      (∀ other ∈ front, ∀ text, other.after = some text → rest.utf8ByteSize < text.utf8ByteSize) ∧
      (∀ other ∈ back, ∀ text, other.after = some text → rest.utf8ByteSize ≤ text.utf8ByteSize) ∧
      failure.message = if rest = "" then "unexpected end of query"
        else "could not parse query from \x60" ++ rest ++ "\x60"

section Recorded

variable {knows : String → Bool} {source : List Char} {tokens : List Token} {trace : List Attempt}
  {attempt : Attempt}

theorem Records.path_ne_nil (h : Records knows [] tokens trace) (hmem : attempt ∈ trace) :
    attempt.path ≠ [] :=
  List.ne_nil_of_length_pos (h.length_path_lt hmem)

/-- The attempts that are written without a slash are those at the top. -/
theorem Records.filter_entries (h : Records knows [] tokens trace) :
    (((trace.map (Attempt.entry source)).filter fun entry => '/' ∉ entry.path.toList).map
      fun entry => (entry.path, entry.after)) = (Parser.tops trace).map fun (path, _, after) =>
        (path.text, after.map fun rest => String.ofList (Source.textAt source rest)) := by
  rw [List.filter_map, Parser.tops, List.map_map, List.map_map]
  have hfilter : trace.filter ((fun entry => decide ('/' ∉ entry.path.toList)) ∘ Attempt.entry source) =
      trace.filter fun attempt => attempt.path.length = 1 := by
    refine List.filter_congr fun attempt hmem => ?_
    have hslash := RulePath.slash_mem_text_iff (h.path_ne_nil hmem)
    simp [Attempt.entry, hslash]
  rw [hfilter]
  rfl

/-- An attempt that succeeded left less than it was given. -/
theorem Attempt.Sound.later_of_after (hsound : attempt.Sound knows) (hsplits : Splits 0 source tokens)
    (hbefore : attempt.before <:+ tokens) {text : String}
    (htext : (attempt.entry source).after = some text) : Source.IsRest source tokens text ∧
      text.toList <:+ (attempt.entry source).before.toList ∧
      text.toList.length < (attempt.entry source).before.toList.length := by
  obtain ⟨rest, hrest, rfl⟩ := Option.map_eq_some_iff.mp htext
  obtain ⟨used, hused, hne⟩ := hsound.used_of_after rest hrest
  have hlater : rest <:+ attempt.before := ⟨used, hused.symm⟩
  have hless : rest ≠ attempt.before := by
    intro heq
    rw [← heq] at hused
    exact hne (List.self_eq_append_left.mp hused)
  simp only [Attempt.entry, String.toList_ofList]
  exact ⟨Source.isRest_textAt (hlater.trans hbefore), hsplits.textAt_suffix hbefore hlater,
    hsplits.length_textAt_lt hbefore hlater hless⟩

/-- Only the three kinds of programs are tried at the top, on all tokens. -/
theorem eq_of_mem_tops (htops : Parser.tops trace =
      [([.display], tokens, none), ([.draw], tokens, none), ([.table], tokens, none)])
    (hmem : attempt ∈ trace) {rule : Rule} (hpath : attempt.path = [rule]) :
    attempt.before = tokens ∧ rule ≠ .dataset := by
  have htop : (attempt.path, attempt.before, attempt.after) ∈ Parser.tops trace :=
    List.mem_map_of_mem (List.mem_filter.mpr ⟨hmem, by simp [hpath]⟩)
  rw [htops, hpath] at htop
  simp only [List.mem_cons, Prod.mk.injEq, List.cons.injEq, and_true, List.not_mem_nil,
    or_false] at htop
  obtain ⟨rfl, hbefore, _⟩ | ⟨rfl, hbefore, _⟩ | ⟨rfl, hbefore, _⟩ := htop <;> exact ⟨hbefore, nofun⟩

/-- An attempt inside another one is told by its path. -/
theorem Records.exists_parent_entry (h : Records knows [] tokens trace)
    (hsplits : Splits 0 source tokens) {front back : List TraceEntry} {entry : TraceEntry}
    {above : String} {rule : Rule}
    (htrace : trace.map (Attempt.entry source) = front ++ entry :: back)
    (hpath : entry.path = above ++ "/" ++ rule.label) :
    ∃ older parent between, front = older ++ parent :: between ∧ parent.path = above ∧
      (∀ other ∈ between, other.path ≠ above) ∧ entry.before.toList <:+ parent.before.toList := by
  obtain ⟨front, rest, rfl, rfl, hrest⟩ := List.map_eq_append_iff.mp htrace
  obtain ⟨attempt, back, rfl, rfl, rfl⟩ := List.map_eq_cons_iff.mp hrest
  have hmem : attempt ∈ front ++ attempt :: back := by simp
  obtain ⟨path, hattempt, hne, rfl⟩ := RulePath.exists_of_text_eq (h.path_ne_nil hmem) hpath
  obtain ⟨rfl, _⟩ | ⟨older, parent, between, rfl, rfl, hbetween, hsuffix⟩ :=
    h.exists_parent rfl hattempt
  · exact absurd rfl hne
  refine ⟨older.map (Attempt.entry source), parent.entry source, between.map (Attempt.entry source),
    by simp, rfl, ?_, ?_⟩
  · intro entry hentry htext
    obtain ⟨other, hother, rfl⟩ := List.mem_map.mp hentry
    have hother' : other ∈ older ++ parent :: between ++ attempt :: back := by simp [hother]
    exact hbetween other hother (RulePath.text_injective (h.path_ne_nil hother') hne htext)
  · have hparent : parent ∈ older ++ parent :: between ++ attempt :: back := by simp
    obtain ⟨_, _, _, hbefore, _⟩ := h.exists_rule hparent
    simpa [Attempt.entry] using hsplits.textAt_suffix hbefore hsuffix

/-- The notes that are shown are those there are to take. -/
theorem Records.note_entry_iff (h : Records knows [] tokens trace) (hsplits : Splits 0 source tokens)
    (htops : Parser.tops trace =
      [([.display], tokens, none), ([.draw], tokens, none), ([.table], tokens, none)])
    (hmem : attempt ∈ trace) {note : String} : (attempt.entry source).note = some note ↔
    (∃ above name offset rest, attempt.path.text = above ++ "/" ++ Rule.dataset.label ∧
      knows name = false ∧ ⟨.word name, offset⟩ :: rest <:+ tokens ∧
      (attempt.entry source).before = String.ofList (Source.dropBytes offset source) ∧
      note = Note.text source (.unknownDataset name)) ∨
    ∃ program used rest, attempt.path.text = program.rule.label ∧ IsProgram knows (lexemes used) program ∧
      tokens = used ++ rest ∧ rest ≠ [] ∧ note = Note.text source (.trailingInput rest) := by
  obtain ⟨_, _, _, hbefore, hsound⟩ := h.exists_rule hmem
  have hpath := h.path_ne_nil hmem
  constructor
  · intro hnote
    obtain ⟨note, hnote', rfl⟩ := Option.map_eq_some_iff.mp hnote
    have hnoted := (hsound.note_iff note).mp hnote'
    generalize hp : attempt.path = path, hb : attempt.before = before at hnoted
    cases hnoted with
    | @unknownDataset above name offset rest hunknown =>
      have habove : above ≠ [] := by
        rintro rfl
        exact (eq_of_mem_tops htops hmem hp).2 rfl
      rw [RulePath.text_concat habove]
      exact .inl ⟨_, name, offset, rest, rfl, hunknown, hb ▸ hbefore, by rw [Attempt.entry, hb]; rfl, rfl⟩
    | @trailingInput program used rest hprogram hne =>
      obtain ⟨htokens, _⟩ := eq_of_mem_tops htops hmem hp
      exact .inr ⟨program, used, rest, rfl, hprogram, htokens.symm.trans hb, hne, rfl⟩
  · rintro (⟨above, name, offset, rest, htext, hunknown, hsuffix, hrest, rfl⟩ |
      ⟨program, used, rest, htext, hprogram, rfl, hne, rfl⟩)
    · obtain ⟨front, hfront, _, _⟩ := RulePath.exists_of_text_eq hpath htext
      have hsame : attempt.before = ⟨.word name, offset⟩ :: rest :=
        hsplits.textAt_injective hbefore hsuffix (String.ofList_injective hrest)
      have hnote := (hsound.note_iff (.unknownDataset name)).mpr
        (by rw [hfront, hsame]; exact .unknownDataset hunknown)
      rw [Attempt.entry, hnote]
      rfl
    · have htop : attempt.path = [program.rule] :=
        RulePath.text_injective hpath (List.cons_ne_nil _ _) htext
      obtain ⟨htokens, _⟩ := eq_of_mem_tops htops hmem htop
      have hnote := (hsound.note_iff (.trailingInput rest)).mpr
        (by rw [htop, htokens]; exact .trailingInput hprogram hne)
      rw [Attempt.entry, hnote]
      rfl

end Recorded

/-- The message of a failure tells how far its attempts got. -/
theorem ParseFailure.message_of_cause {failure : ParseFailure}
    (h : failure.cause = .ofFurthest (Trace.furthest? failure.trace)) :
    (∀ entry ∈ failure.trace, entry.after = none) ∧ failure.message = "could not parse query" ∨
    ∃ front entry back rest, failure.trace = front ++ entry :: back ∧ entry.after = some rest ∧
      (∀ other ∈ front, ∀ text, other.after = some text → rest.utf8ByteSize < text.utf8ByteSize) ∧
      (∀ other ∈ back, ∀ text, other.after = some text → rest.utf8ByteSize ≤ text.utf8ByteSize) ∧
      failure.message = if rest = "" then "unexpected end of query"
        else "could not parse query from \x60" ++ rest ++ "\x60" := by
  rw [message, h]
  cases hfurthest : Trace.furthest? failure.trace with
  | none => exact .inl ⟨Trace.furthest?_eq_none_iff.mp hfurthest, rfl⟩
  | some rest =>
    obtain ⟨front, entry, back, hentries, hafter, hfront, hback⟩ := Trace.exists_of_furthest? hfurthest
    refine .inr ⟨front, entry, back, rest, hentries, hafter, hfront, hback, ?_⟩
    rw [ParseCause.ofFurthest]
    split <;> rfl

/-- What a failed parse of a source that has tokens tells is right. -/
theorem parse_failure_sound (knows : String → Bool) {source : String} {tokens : List Token}
    {failure : ParseFailure} (htokens : tokenize source.toList = .ok tokens)
    (h : parse knows source = .error failure) : failure.Sound knows source.toList tokens := by
  have hsplits := tokenize_eq_ok_iff.mp htokens
  obtain ⟨hnone, htrace, hcause⟩ := program_of_parse_eq_error htokens h
  obtain ⟨hrecords, htops⟩ := Parser.records_program_of_none hnone
  generalize (Parser.program knows tokens).trace = trace at hrecords htops htrace
  have hattempt : ∀ entry ∈ failure.trace, ∃ attempt ∈ trace,
      attempt.entry source.toList = entry ∧ attempt.before <:+ tokens ∧ attempt.Sound knows := by
    rw [htrace]
    intro entry hentry
    obtain ⟨attempt, hmem, rfl⟩ := List.mem_map.mp hentry
    obtain ⟨_, _, _, hbefore, hsound⟩ := hrecords.exists_rule hmem
    exact ⟨attempt, hmem, rfl, hbefore, hsound⟩
  refine ⟨?_, ?_, ?_, ?_, ?_, ?_, ?_, ParseFailure.message_of_cause hcause⟩
  · rw [htrace, hrecords.filter_entries, htops]
    rfl
  · intro entry hentry
    obtain ⟨attempt, _, rfl, hbefore, _⟩ := hattempt entry hentry
    exact Source.isRest_textAt hbefore
  · intro entry hentry text htext
    obtain ⟨attempt, _, rfl, hbefore, hsound⟩ := hattempt entry hentry
    exact (hsound.later_of_after hsplits hbefore htext).1
  · intro entry hentry text htext
    obtain ⟨attempt, _, rfl, hbefore, hsound⟩ := hattempt entry hentry
    exact (hsound.later_of_after hsplits hbefore htext).2
  · intro front entry back above rule hentries
    exact hrecords.exists_parent_entry hsplits (htrace.symm.trans hentries)
  · intro entry hentry note
    obtain ⟨attempt, hmem, rfl, _⟩ := hattempt entry hentry
    exact hrecords.note_entry_iff hsplits htops hmem
  · intro entry hentry hnote
    obtain ⟨attempt, _, rfl, _, hsound⟩ := hattempt entry hentry
    obtain ⟨note, hnote⟩ := Option.ne_none_iff_exists'.mp (mt (congrArg (Option.map _)) hnote)
    have hafter := hsound.failed_of_noted note ((hsound.note_iff note).mp hnote)
    rw [Attempt.entry, hafter]
    rfl

/-- A program that draws a dataset and goes on after that. -/
theorem parse_failure_sound_of_trailing_input :
    ∃ tokens failure, tokenize "draw(a) é.b".toList = .ok tokens ∧
      parse (· == "a") "draw(a) é.b" = .error failure ∧
      failure.Sound (· == "a") "draw(a) é.b".toList tokens ∧
      failure.message = "could not parse query from \x60) é.b\x60" ∧
      failure.trace.filterMap TraceEntry.note =
        ["trailing input \x60é.b\x60", "unknown dataset \x60draw\x60"] := by
  have htokens : (tokenize "draw(a) é.b".toList).isOk = true := by decide +kernel
  have hfailure : (match parse (· == "a") "draw(a) é.b" with
      | .ok _ => none
      | .error failure => some (failure.message, failure.trace.filterMap TraceEntry.note)) =
        some ("could not parse query from \x60) é.b\x60",
          ["trailing input \x60é.b\x60", "unknown dataset \x60draw\x60"]) := by decide +kernel
  cases htokenize : tokenize "draw(a) é.b".toList with
  | error fault =>
    rw [htokenize] at htokens
    cases htokens
  | ok tokens =>
    split at hfailure
    next => cases hfailure
    next failure heq =>
      obtain ⟨hmessage, hnotes⟩ := Prod.mk.inj (Option.some.inj hfailure)
      exact ⟨tokens, failure, rfl, heq, parse_failure_sound _ htokenize heq, hmessage, hnotes⟩

end TableQuery
