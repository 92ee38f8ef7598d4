import TableQuery.Proofs.Json.Reader
import TableQuery.Proofs.Operator.Failure
import TableQuery.Proofs.Operator.Tuple
import TableQuery.Query.Basic

/-!
# What a run prints

A run prints a line for each row in front of the first fault and then stops.  The text of the lines can be
taken apart again: at the line feeds it falls into the lines, and each line is read as the row that it shows
(`Query.run_prints_rows`), whatever texts the row is made of.  There are no control characters in a line, and
a key is shown as a number or as a text, which tells positions from names.

The reader of a line has to allow for the nesting of the tuple and for the object around it.
-/

namespace TableQuery

/-- The collections in memory whose values repeat no name. -/
def SettledInMemory (source : Collection) : Prop :=
  ∃ stored : Stored, source = stored.toCollection ∧ ∀ row ∈ stored.rows, row.2.Unrepeated

theorem SettledInMemory.inMemory {source : Collection} (h : SettledInMemory source) :
    InMemory source := by
  obtain ⟨stored, hsource, -⟩ := h
  exact ⟨stored, hsource⟩

theorem SettledInMemory.unrepeated {source : Collection} (h : SettledInMemory source) :
    RowsUnrepeated source.rows := by
  obtain ⟨stored, rfl, hrows⟩ := h
  rw [(Collection.Delivers.stored stored).rows_eq]
  exact fun key value hmem => hrows (key, value) (Stored.mem_outcomes.mp hmem)

/-! ## Lines -/

/-- The row that a line shows, if arrays and objects nest at most so deep in the line. -/
def Row.ofLine? (levels : Nat) (line : List Char) : Option Row :=
  match (Json.parseRaw? levels line).map Json.settled with
  | some (.object [("key", key), ("tuple", value)]) => (Key.ofJson? key).map fun key => (key, value)
  | _ => none

namespace Query

/-- The value that a line shows. -/
def shown (row : Row) : Json := .object [("key", row.1.toJson), ("tuple", row.2)]

theorem toList_line (row : Row) : (line row).toList = (shown row).toChars := String.toList_ofList

theorem nesting_toJson (key : Key) : key.toJson.nesting = 0 := by
  cases key <;> rfl

theorem nesting_shown (row : Row) : (shown row).nesting = row.2.nesting + 1 := by
  simp [shown, Json.nesting, Json.membersNesting, nesting_toJson]

theorem unrepeated_toJson (key : Key) : key.toJson.Unrepeated := by
  cases key with
  | index position => exact .number _
  | name text => exact .string text

theorem unrepeated_shown {row : Row} (h : row.2.Unrepeated) : (shown row).Unrepeated := by
  have hnames : ["key", "tuple"].Nodup := by decide
  refine .object hnames ?_
  simpa using ⟨unrepeated_toJson row.1, h⟩

/-- A line is read as the row that it shows. -/
theorem ofLine?_line {row : Row} {levels : Nat} (hvalue : row.2.Unrepeated)
    (hlevels : row.2.nesting < levels) : Row.ofLine? levels (line row).toList = some row := by
  have hread : Json.parseRaw? levels (shown row).toChars = some (shown row) := by
    refine Json.parseRaw?_toChars ?_
    rw [nesting_shown]
    exact hlevels
  rw [Row.ofLine?, toList_line, hread, Option.map_some, (unrepeated_shown hvalue).settled_eq]
  simp [shown, Key.ofJson?_toJson]

theorem feed_notMem_line (row : Row) : '\n' ∉ (line row).toList := by
  rw [toList_line]
  exact fun hfeed => Json.not_isControl_of_mem_toChars _ _ hfeed (by decide)

/-! ## Printing -/

/-- What is written for some rows. -/
def printout (rows : List Row) : List Char := rows.flatMap fun row => (line row).toList ++ ['\n']

/-- What is written falls into the lines. -/
theorem splitOn_printout (rows : List Row) :
    (printout rows).splitOn '\n' = rows.map (fun row => (line row).toList) ++ [[]] := by
  induction rows with
  | nil => rfl
  | cons row rest ih =>
    have hcons : printout (row :: rest) = (line row).toList ++ '\n' :: printout rest := by
      simp [printout]
    rw [hcons, List.splitOn_append_cons_self_of_not_mem (feed_notMem_line row), ih]
    rfl

/-- The lines are read as the rows. -/
theorem mapM_ofLine?_line {rows : List Row} {levels : Nat} (hrows : ∀ row ∈ rows, row.2.Unrepeated)
    (hlevels : ∀ row ∈ rows, row.2.nesting < levels) :
    (rows.map fun row => (line row).toList).mapM (Row.ofLine? levels) = some rows := by
  induction rows with
  | nil => rfl
  | cons row rest ih =>
    obtain ⟨hrow, hrest⟩ := List.forall_mem_cons.mp hrows
    obtain ⟨hlevel, hrestLevels⟩ := List.forall_mem_cons.mp hlevels
    rw [List.map_cons, List.mapM_cons, ofLine?_line hrow hlevel, ih hrest hrestLevels]
    rfl

variable {σ : Type} {sink : σ → String → Except String σ} {output : σ → String}

/-- A writer that does not fail puts each line behind its output. -/
def NeverFails (sink : σ → String → Except String σ) (output : σ → String) : Prop :=
  ∀ state line, ∃ next, sink state line = .ok next ∧ output next = output state ++ line ++ "\n"

/-- Rows are written one after the other, and then the run goes on. -/
theorem exists_read_rows (hsink : NeverFails sink output) (rows : List Row)
    (rest : List (Except Fault Row)) (written : Nat) (state : σ) :
    ∃ next, (output next).toList = (output state).toList ++ printout rows ∧
      (Run.ofRows (rows.map .ok ++ rest)).read (writeRow sink)
          (fun (written, state) => (state, .ok written)) (written, state) =
        (Run.ofRows rest).read (writeRow sink) (fun (written, state) => (state, .ok written))
          (written + rows.length, next) := by
  induction rows generalizing written state with
  | nil => exact ⟨state, by simp [printout], rfl⟩
  | cons row others ih =>
    obtain ⟨after, hafter, houtput⟩ := hsink state (line row)
    obtain ⟨next, hnext, hread⟩ := ih (written + 1) after
    refine ⟨next, ?_, ?_⟩
    · rw [hnext, houtput]
      simp [printout]
    · have hwritten : written + 1 + others.length = written + (row :: others).length := by
        rw [List.length_cons]
        omega
      rw [List.map_cons, List.cons_append, Run.ofRows, Run.read, writeRow, hafter, ← hwritten]
      exact hread

/-- The rows in front of the first fault, and what comes behind them. -/
theorem exists_rows_append (outcomes : List (Except Fault Row)) :
    ∃ (rows : List Row) (rest : List (Except Fault Row)), outcomes = rows.map .ok ++ rest ∧
      (rest = [] ∨ ∃ fault later, rest = .error fault :: later) := by
  induction outcomes with
  | nil => exact ⟨[], [], rfl, .inl rfl⟩
  | cons outcome others ih =>
    cases outcome with
    | error fault => exact ⟨[], .error fault :: others, rfl, .inr ⟨fault, others, rfl⟩⟩
    | ok row =>
      obtain ⟨rows, rest, rfl, hrest⟩ := ih
      exact ⟨row :: rows, rest, rfl, hrest⟩

/-- A run reads the rows of its collection. -/
theorem run_eq_read {query : Query} {tree : Operator} (hquery : query.operator = .ok tree)
    {outcomes : List (Except Fault Row)}
    (hitems : (tree.collection.items .none).map Run.rows = .ok outcomes) (state : σ) :
    query.run sink state = (Run.ofRows outcomes).read (writeRow sink)
      (fun (written, state) => (state, .ok written)) (0, state) := by
  obtain ⟨run, hrun, rfl⟩ := map_eq_ok_iff.mp hitems
  rw [Query.run, hquery]
  simp only [hrun]
  exact (Run.read_ofRows_rows ..).symm

/-- A run writes one line for each row in front of the first fault, and nothing behind.  Its output falls
into these lines at the line feeds, and the lines are read as exactly these rows, in order, by a reader
that allows for their nesting.  It gives the number of lines if there is no fault, and else the first
fault. -/
theorem run_prints_rows {query : Query} {tree : Operator} (hquery : query.operator = .ok tree)
    (htree : tree.Built SettledInMemory) (hsink : NeverFails sink output) {start : σ}
    (hstart : output start = "") :
    ∃ (rows : List Row) (rest : List (Except Fault Row)) (final : σ) (result : Except QueryFault Nat)
        (lines : List (List Char)),
      (tree.collection.items .none).map Run.rows = .ok (rows.map .ok ++ rest) ∧
        query.run sink start = (final, result) ∧
        (rest = [] ∧ result = .ok rows.length ∨
          ∃ fault later, rest = .error fault :: later ∧ result = .error (.algebra fault)) ∧
        (output final).toList.splitOn '\n' = lines ++ [[]] ∧ lines.length = rows.length ∧
        ∀ levels, (∀ row ∈ rows, row.2.nesting < levels) →
          lines.mapM (Row.ofLine? levels) = some rows := by
  have hdelivers := htree.delivers fun _ hleaf => hleaf.inMemory.delivers
  have hunrepeated := htree.unrepeated fun _ hleaf => hleaf.unrepeated
  obtain ⟨rows, rest, hrows, hrest⟩ := exists_rows_append tree.rows
  obtain ⟨final, hfinal, hread⟩ := exists_read_rows hsink rows rest 0 start
  have hrun : query.run sink start = _ := run_eq_read hquery hdelivers.items start
  rw [hrows, hread, Nat.zero_add] at hrun
  rw [hstart, String.toList_empty, List.nil_append] at hfinal
  have hsettled : ∀ row ∈ rows, row.2.Unrepeated := by
    intro row hrow
    refine hunrepeated row.1 row.2 ?_
    rw [hrows]
    exact List.mem_append_left _ (List.mem_map_of_mem hrow)
  have hends : ∃ result, (Run.ofRows rest).read (writeRow sink)
        (fun (written, state) => (state, .ok written)) (rows.length, final) = (final, result) ∧
      (rest = [] ∧ result = .ok rows.length ∨
        ∃ fault later, rest = .error fault :: later ∧ result = .error (.algebra fault)) := by
    obtain rfl | ⟨fault, later, rfl⟩ := hrest
    · exact ⟨_, rfl, .inl ⟨rfl, rfl⟩⟩
    · exact ⟨_, rfl, .inr ⟨fault, later, rfl, rfl⟩⟩
  obtain ⟨result, hend, hresult⟩ := hends
  refine ⟨rows, rest, final, result, rows.map fun row => (line row).toList, ?_, hrun.trans hend, hresult,
    ?_, List.length_map .., fun levels => mapM_ofLine?_line hsettled⟩
  · rw [← hrows]
    exact hdelivers.items
  · rw [hfinal, splitOn_printout]

/-- Writes a line behind a text. -/
def appendLine (text line : String) : Except String String := .ok (text ++ line ++ "\n")

/-- Each of two rows is paired with one that has a field and with one that lacks it. -/
def labeledAmounts : Operator := .product .labels .projectedAmounts

/-- A fault stands between the rows, and their keys pair a name with a position. -/
theorem run_prints_rows_before_fault :
    (table labeledAmounts).operator = .ok labeledAmounts ∧ labeledAmounts.Built SettledInMemory ∧
      NeverFails appendLine id ∧
      ∃ output lines,
        (table labeledAmounts).run appendLine "" = (output, .error (.algebra (.missingField "x"))) ∧
        output.toList.splitOn '\n' = lines ++ [[]] ∧
        lines.mapM (Row.ofLine? 127) =
          some [(.name "[\"a\",0]", .object [("y", .string "1.0"), ("x", .string "1")])] := by
  have hlabels : Operator.labels.Built SettledInMemory := .leaf ⟨_, rfl, by decide⟩
  have hamounts : Operator.amounts.Built SettledInMemory := .leaf ⟨_, rfl, by decide⟩
  have hbuilt : labeledAmounts.Built SettledInMemory :=
    .cross hlabels (.project hamounts (Operator.project_eq_ok_iff.mpr ⟨rfl, rfl⟩))
      (Operator.cross_eq_ok_iff.mpr ⟨rfl, rfl, rfl⟩)
  have hwrites : NeverFails appendLine id := fun _ _ => ⟨_, rfl, rfl⟩
  have hoperator : (table labeledAmounts).operator = .ok labeledAmounts := rfl
  have hstart : id "" = "" := rfl
  obtain ⟨rows, rest, output, result, lines, hitems, hrun, hends, hlines, -, hread⟩ :=
    run_prints_rows hoperator hbuilt hwrites hstart
  have hconcrete : (labeledAmounts.collection.items .none).map Run.rows =
      .ok (.ok (.name "[\"a\",0]", .object [("y", .string "1.0"), ("x", .string "1")]) ::
        .error (.missingField "x") ::
        .ok (.name "[\"b\",0]", .object [("y", .null), ("x", .string "1")]) ::
        [.error (.missingField "x")]) := rfl
  have hrows := Except.ok.inj (hitems.symm.trans hconcrete)
  match rows, hrows with
  | [], hrows =>
    obtain ⟨rfl, -⟩ | ⟨fault, later, rfl, -⟩ := hends
    · cases hrows
    · cases hrows
  | [row], hrows =>
    obtain ⟨hrow, hrest⟩ := List.cons.inj hrows
    cases hrow
    obtain ⟨rfl, -⟩ | ⟨fault, later, rfl, rfl⟩ := hends
    · cases hrest
    · cases hrest
      exact ⟨rfl, hbuilt, hwrites, output, lines, hrun, hlines, hread 127 (by decide)⟩
  | row :: other :: more, hrows => cases (List.cons.inj (List.cons.inj hrows).2).1

end Query

end TableQuery
