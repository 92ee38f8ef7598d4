import Mathlib.Algebra.GroupWithZero.Nat
import TableQuery.Proofs.Query.Lexeme
import TableQuery.Proofs.Query.Trace
import TableQuery.Server.Response

/-!
# The lines of a trace

A response about a source that could not be parsed has the lines of the text of the trace.  The text ends
each attempt with a line feed, but it also has those of the source, which are quoted as they are.  There
are as many lines as attempts and line feeds inside them (`Trace.length_lines_text`).  So there is one line for
each attempt exactly if no line feed follows where the first token starts (`traceLines_eq_iff`); then the
lines are the attempts as they are shown.

A carriage return is no problem, as an attempt does not end in one.
-/

namespace TableQuery

/-! ## Lines -/

namespace Text

theorem length_splitOn (mark : Char) (text : List Char) :
    (text.splitOn mark).length = text.count mark + 1 := by
  induction text with
  | nil => rfl
  | cons c rest ih =>
    rw [List.splitOn_cons_eq_if_modifyHead]
    split
    next h => rw [List.length_cons, ih, eq_of_beq h, List.count_cons_self]
    next h => rw [List.length_modifyHead, ih, List.count_cons_of_ne (by simpa using h)]

theorem closedLines_append {parts more : List (List Char)} (hmore : more ≠ []) :
    closedLines (parts ++ more) = parts.map withoutReturn ++ closedLines more := by
  induction parts with
  | nil => rfl
  | cons part parts ih =>
    rw [List.cons_append, List.map_cons, List.cons_append, ← ih]
    cases hrest : parts ++ more with
    | nil => exact absurd (List.append_eq_nil_iff.mp hrest).2 hmore
    | cons next rest => rfl

/-- A text that a line feed ends is on lines of its own. -/
theorem lines_append (text rest : List Char) : lines (text ++ '\n' :: rest) =
    (text.splitOn '\n').map withoutReturn ++ lines rest := by
  rw [lines, List.splitOn_append_cons_self, closedLines_append (List.splitOn_ne_nil _ _)]
  rfl

end Text

open Text

namespace TraceEntry

/-- An entry ends in a bracket. -/
theorem exists_line_eq (entry : TraceEntry) :
    ∃ front, entry.line = front ++ ">" ∨ entry.line = front ++ ")" := by
  rw [line]
  cases entry.note with
  | some note => exact ⟨_, .inr String.append_assoc.symm⟩
  | none =>
    rw [String.append_empty]
    cases entry.after with
    | some rest => exact ⟨_, .inl String.append_assoc.symm⟩
    | none => exact ⟨_, .inl (String.append_empty ..)⟩

theorem withoutReturn_line (entry : TraceEntry) :
    withoutReturn entry.line.toList = entry.line.toList := by
  obtain ⟨front, hline | hline⟩ := entry.exists_line_eq <;> simp [withoutReturn, hline]

/-- The line feeds of an entry are those of the texts it is made of. -/
theorem feed_mem_line_iff (entry : TraceEntry) : '\n' ∈ entry.line.toList ↔
    '\n' ∈ entry.path.toList ∨ '\n' ∈ entry.before.toList ∨
      (∃ rest, entry.after = some rest ∧ '\n' ∈ rest.toList) ∨
      ∃ note, entry.note = some note ∧ '\n' ∈ note.toList := by
  obtain ⟨path, before, after, note⟩ := entry
  cases after <;> cases note <;> simp [line]

end TraceEntry

/-! ## The lines of a trace -/

namespace Trace

theorem lines_text (entries : List TraceEntry) : lines (text entries).toList =
    entries.flatMap fun entry => (entry.line.toList.splitOn '\n').map withoutReturn := by
  induction entries with
  | nil => rfl
  | cons entry entries ih =>
    have htext : (text (entry :: entries)).toList =
        entry.line.toList ++ '\n' :: (text entries).toList := by
      simp [text, String.toList_join]
    rw [htext, lines_append, ih, List.flatMap_cons]

/-- There are as many lines as entries and line feeds inside them. -/
theorem length_lines_text (entries : List TraceEntry) : (lines (text entries).toList).length =
    entries.length + (entries.map fun entry => entry.line.toList.count '\n').sum := by
  rw [lines_text]
  induction entries with
  | nil => rfl
  | cons entry entries ih =>
    rw [List.flatMap_cons, List.length_append, ih, List.length_map, length_splitOn, List.length_cons,
      List.map_cons, List.sum_cons]
    omega

theorem lines_text_of_notMem {entries : List TraceEntry}
    (h : ∀ entry ∈ entries, '\n' ∉ entry.line.toList) :
    lines (text entries).toList = entries.map fun entry => entry.line.toList := by
  rw [lines_text]
  induction entries with
  | nil => rfl
  | cons entry entries ih =>
    obtain ⟨hentry, hentries⟩ := List.forall_mem_cons.mp h
    rw [List.flatMap_cons, ih hentries, List.splitOn_eq_singleton hentry, List.map_singleton,
      entry.withoutReturn_line]
    rfl

theorem length_lines_text_eq_iff {entries : List TraceEntry} :
    (lines (text entries).toList).length = entries.length ↔
      ∀ entry ∈ entries, '\n' ∉ entry.line.toList := by
  rw [length_lines_text]
  simp [List.sum_eq_zero_iff_forall_eq_nat, List.count_eq_zero]

end Trace

/-! ## Line feeds in a trace -/

/-- No line feed of the source follows where its first token starts. -/
def Source.IsOneLine (source : List Char) : Prop :=
  ∀ tokens, tokenize source = .ok tokens → '\n' ∉ textAt source tokens

theorem Rule.feed_notMem_label (rule : Rule) : '\n' ∉ rule.label.toList := by
  cases rule <;> decide

theorem RulePath.feed_notMem_text (path : RulePath) : '\n' ∉ path.text.toList := by
  induction path using List.reverseRecOn with
  | nil => simp [text]
  | append_singleton front rule ih =>
    by_cases hfront : front = []
    · subst hfront
      simpa [text] using rule.feed_notMem_label
    · rw [text_concat hfront]
      simp [ih, rule.feed_notMem_label]

theorem feed_notMem_of_isWord {name : String} (h : isWord name = true) : '\n' ∉ name.toList := by
  have hfeed : Lexer.continuesWord '\n' = false := Lexer.continuesWord_of_isBlank (by decide)
  obtain ⟨first, more, hname, hfirst, hmore⟩ := Lexer.exists_cons_of_isWord h
  rw [hname]
  rintro (_ | ⟨_, hmem⟩)
  · cases hfeed.symm.trans (Lexer.continuesWord_of_startsWord hfirst)
  · cases hfeed.symm.trans (hmore _ hmem)

/-- The line feeds of a note are those of the text that it quotes. -/
theorem feed_mem_of_quoted {front text : String} (hfront : '\n' ∉ front.toList)
    (h : '\n' ∈ (front ++ text ++ "\x60").toList) : '\n' ∈ text.toList := by
  rw [String.toList_append, String.toList_append, List.mem_append, List.mem_append] at h
  obtain (h | h) | h := h
  · exact absurd h hfront
  · exact h
  · exact absurd h (by decide)

/-- An attempt quotes the source from the first token on, and nothing else that has line feeds. -/
theorem Records.feed_notMem_line {knows : String → Bool} {source : List Char} {tokens : List Token}
    {trace : List Attempt} {attempt : Attempt} (h : Records knows [] tokens trace)
    (htokens : tokenize source = .ok tokens) (hfeed : '\n' ∉ Source.textAt source tokens)
    (hmem : attempt ∈ trace) : '\n' ∉ (attempt.entry source).line.toList := by
  have hsplits := tokenize_eq_ok_iff.mp htokens
  have hrest : ∀ {here}, here <:+ tokens → '\n' ∉ Source.textAt source here := fun hhere hmem =>
    hfeed ((hsplits.textAt_suffix List.suffix_rfl hhere).subset hmem)
  obtain ⟨_, _, _, hbefore, hsound⟩ := h.exists_rule hmem
  rw [TraceEntry.feed_mem_line_iff]
  rintro (hpath | hbefore' | ⟨text, hafter, htext⟩ | ⟨text, hnote, htext⟩)
  · exact attempt.path.feed_notMem_text hpath
  · exact hrest hbefore (by simpa [Attempt.entry] using hbefore')
  · obtain ⟨rest, hleft, rfl⟩ := Option.map_eq_some_iff.mp hafter
    obtain ⟨used, hused, _⟩ := hsound.used_of_after rest hleft
    exact hrest (List.IsSuffix.trans ⟨used, hused.symm⟩ hbefore) (by simpa using htext)
  · obtain ⟨note, hfound, rfl⟩ := Option.map_eq_some_iff.mp hnote
    have hnoted := (hsound.note_iff note).mp hfound
    generalize attempt.path = path, attempt.before = before at hnoted hbefore
    cases hnoted with
    | @unknownDataset above name offset rest hunknown =>
      have hword : isWord name = true :=
        Lexer.legible_of_tokensFrom htokens (.word name)
          (List.mem_map_of_mem (hbefore.subset (List.mem_cons_self ..)))
      exact feed_notMem_of_isWord hword (feed_mem_of_quoted (by decide) htext)
    | @trailingInput program used rest hprogram hne =>
      have hmem := feed_mem_of_quoted (by decide) htext
      exact hrest (List.IsSuffix.trans (List.suffix_append ..) hbefore) (by simpa using hmem)

/-- The trace of a failed parse starts with the whole of the source from its first token on. -/
theorem feed_notMem_trace_iff {knows : String → Bool} {source : String} {failure : ParseFailure}
    (h : parse knows source = .error failure) :
    (∀ entry ∈ failure.trace, '\n' ∉ entry.line.toList) ↔ Source.IsOneLine source.toList := by
  cases htokens : tokenize source.toList with
  | error fault =>
    rw [parse, htokens] at h
    cases h
    refine ⟨fun _ tokens heq => ?_, fun _ => List.forall_mem_nil _⟩
    cases htokens.symm.trans heq
  | ok tokens =>
    obtain ⟨hnone, htrace, _⟩ := program_of_parse_eq_error htokens h
    obtain ⟨hrecords, htops⟩ := Parser.records_program_of_none hnone
    rw [htrace]
    constructor
    · intro hlines tokens' heq
      cases htokens.symm.trans heq
      have htop : (([.display], tokens, none) : RulePath × List Token × Option (List Token)) ∈
          Parser.tops (Parser.program knows tokens).trace := by simp [htops]
      obtain ⟨attempt, hmem, hattempt⟩ := List.mem_map.mp htop
      have hbefore : attempt.before = tokens := (Prod.mk.inj (Prod.mk.inj hattempt).2).1
      intro hfeed
      refine hlines _ (List.mem_map_of_mem (List.mem_filter.mp hmem).1) ?_
      rw [TraceEntry.feed_mem_line_iff]
      exact .inr (.inl (by simpa [Attempt.entry, hbefore] using hfeed))
    · intro hone entry hentry
      obtain ⟨attempt, hmem, rfl⟩ := List.mem_map.mp hentry
      exact hrecords.feed_notMem_line htokens (hone tokens htokens) hmem

/-- A failed parse is shown as one line for each attempt exactly if the source is one line from its first
token on. -/
theorem traceLines_eq_iff (knows : String → Bool) (explain : String → String) {source : String}
    {failure : ParseFailure} (h : parse knows source = .error failure) :
    ∃ lines, (QueryFault.parse failure).traceLines? = some lines ∧
      ((QueryFault.parse failure).toJson explain).field? "trace" = some (.array (lines.map .string)) ∧
      lines.length =
        failure.trace.length + (failure.trace.map fun entry => entry.line.toList.count '\n').sum ∧
      (lines.length = failure.trace.length ↔ Source.IsOneLine source.toList) ∧
      (lines = failure.trace.map TraceEntry.line ↔ Source.IsOneLine source.toList) := by
  refine ⟨_, rfl, rfl, ?_, ?_, ?_⟩
  · rw [List.length_map, Trace.length_lines_text]
  · rw [List.length_map, Trace.length_lines_text_eq_iff, feed_notMem_trace_iff h]
  · rw [← feed_notMem_trace_iff h]
    constructor
    · intro hlines
      rw [← Trace.length_lines_text_eq_iff]
      simpa using congrArg List.length hlines
    · intro hfeeds
      rw [Trace.lines_text_of_notMem hfeeds, List.map_map]
      simp [Function.comp_def]

/-- White space in front of the first token is not shown. -/
theorem traceLines_eq_iff_of_leading_feed :
    ∃ failure lines, parse (fun _ => true) "\na b" = .error failure ∧
      (QueryFault.parse failure).traceLines? = some lines ∧
      lines = failure.trace.map TraceEntry.line ∧ lines.length = 11 := by
  have hfailure : (match parse (fun _ => true) "\na b" with
      | .ok _ => 0
      | .error failure => failure.trace.length) = 11 := by decide +kernel
  have hone : Source.IsOneLine "\na b".toList := by
    have hfeed : (match tokenize "\na b".toList with
        | .ok tokens => decide ('\n' ∈ Source.textAt "\na b".toList tokens)
        | .error _ => false) = false := by decide +kernel
    intro tokens htokens
    rw [htokens] at hfeed
    exact of_decide_eq_false hfeed
  split at hfailure
  next => cases hfailure
  next failure heq =>
    obtain ⟨lines, hlines, _, _, hlength, hsame⟩ := traceLines_eq_iff _ (fun _ => "") heq
    exact ⟨failure, lines, heq, hlines, hsame.mpr hone, (hlength.mpr hone).trans hfailure⟩

/-- A line feed between two tokens is shown, and attempts go over more than one line. -/
theorem traceLines_break_at_feed :
    ∃ failure lines, parse (fun _ => false) "a\nb" = .error failure ∧
      (QueryFault.parse failure).traceLines? = some lines ∧ failure.trace.length = 11 ∧
      failure.trace.length < lines.length ∧ lines ≠ failure.trace.map TraceEntry.line := by
  have hfailure : (match parse (fun _ => false) "a\nb" with
      | .ok _ => 0
      | .error failure => failure.trace.length) = 11 := by decide +kernel
  have htokens : tokenize "a\nb".toList = .ok [⟨.word "a", 0⟩, ⟨.word "b", 2⟩] := by decide +kernel
  have hfeed : ¬Source.IsOneLine "a\nb".toList := fun hone =>
    hone [⟨.word "a", 0⟩, ⟨.word "b", 2⟩] htokens (by decide)
  split at hfailure
  next => cases hfailure
  next failure heq =>
    have hlength := Trace.length_lines_text failure.trace
    have hne := mt (Trace.length_lines_text_eq_iff.trans (feed_notMem_trace_iff heq)).mp hfeed
    have hlt : failure.trace.length < (lines (Trace.text failure.trace).toList).length := by omega
    refine ⟨failure, _, heq, rfl, hfailure, by rwa [List.length_map], fun hlines => hne ?_⟩
    simpa using congrArg List.length hlines

end TableQuery
