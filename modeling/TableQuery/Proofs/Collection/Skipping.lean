import TableQuery.Collection.Run

/-!
# Skipping rows

Skipping leaves out leading rows and no fault.  It takes one outcome at a time off the front and counts the
rows among them (`dropRows_ok`, `dropRows_error`).  Whether an outcome stays depends on its position alone: a
fault stays, and a row stays if enough rows stand before it (`stays`).  What is left are the outcomes at these
positions, in their order (`map_some_dropRows`).

One skip after another is a skip of the sum (`skipRows_skipRows`).  That holds of runs and not only of
their rows, so the sources are read alike too.
-/

namespace TableQuery

namespace Run

/-! ## Rows and faults -/

/-- The rows that are delivered, without the faults between them. -/
def delivered (outcomes : List (Except Fault Row)) : List Row := outcomes.filterMap Except.toOption

theorem mem_delivered {outcomes : List (Except Fault Row)} {row : Row} :
    row ∈ delivered outcomes ↔ .ok row ∈ outcomes := by
  induction outcomes with
  | nil => simp [delivered]
  | cons outcome rest ih =>
    rw [List.mem_cons, ← ih]
    cases outcome <;> simp [delivered, Except.toOption]

/-- The faults among rows. -/
def faults (outcomes : List (Except Fault Row)) : List Fault :=
  outcomes.filterMap fun
    | .ok _ => none
    | .error fault => some fault

theorem faults_error (fault : Fault) (rest : List (Except Fault Row)) :
    faults (.error fault :: rest) = fault :: faults rest := rfl

theorem length_faults_le {fewer outcomes : List (Except Fault Row)} (h : fewer.Sublist outcomes) :
    (faults fewer).length ≤ (faults outcomes).length :=
  (h.filterMap _).length_le

/-! ## One outcome at a time -/

@[simp] theorem dropRows_zero (outcomes : List (Except Fault Row)) :
    dropRows 0 outcomes = outcomes := by
  cases outcomes <;> rfl

theorem dropRows_nil (n : Nat) : dropRows n [] = [] := by
  cases n <;> rfl

theorem dropRows_ok (n : Nat) (row : Row) (rest : List (Except Fault Row)) :
    dropRows n (.ok row :: rest) = if n = 0 then .ok row :: rest else dropRows (n - 1) rest := by
  cases n <;> rfl

theorem dropRows_error (n : Nat) (fault : Fault) (rest : List (Except Fault Row)) :
    dropRows n (.error fault :: rest) = .error fault :: dropRows n rest := by
  cases n with
  | zero => rw [dropRows_zero, dropRows_zero]
  | succ n => rfl

theorem dropRows_sublist (n : Nat) (outcomes : List (Except Fault Row)) :
    (dropRows n outcomes).Sublist outcomes := by
  induction outcomes generalizing n with
  | nil => exact (dropRows_nil n).symm ▸ List.Sublist.refl []
  | cons outcome rest ih =>
    cases outcome with
    | ok row =>
      rw [dropRows_ok]
      split
      · exact List.Sublist.refl _
      · exact (ih (n - 1)).cons _
    | error fault =>
      rw [dropRows_error]
      exact (ih n).cons_cons _

/-- No fault is left out. -/
theorem faults_dropRows (n : Nat) (outcomes : List (Except Fault Row)) :
    faults (dropRows n outcomes) = faults outcomes := by
  induction outcomes generalizing n with
  | nil => rw [dropRows_nil]
  | cons outcome rest ih =>
    cases outcome with
    | ok row =>
      rw [dropRows_ok]
      split
      · rfl
      · exact ih (n - 1)
    | error fault => rw [dropRows_error, faults_error, ih, faults_error]

theorem delivered_dropRows (n : Nat) (outcomes : List (Except Fault Row)) :
    delivered (dropRows n outcomes) = (delivered outcomes).drop n := by
  induction outcomes generalizing n with
  | nil => rw [dropRows_nil, delivered, List.filterMap_nil, List.drop_nil]
  | cons outcome rest ih =>
    cases outcome with
    | ok row =>
      cases n with
      | zero => rw [dropRows_zero, List.drop_zero]
      | succ n => exact ih n
    | error fault =>
      rw [dropRows_error]
      exact ih n

/-- Without faults rows are dropped as from any list. -/
theorem dropRows_map_ok (n : Nat) (rows : List Row) :
    dropRows n (rows.map .ok) = (rows.drop n).map .ok := by
  induction rows generalizing n with
  | nil => rw [List.map_nil, List.drop_nil, dropRows_nil, List.map_nil]
  | cons row rows ih =>
    cases n with
    | zero => rfl
    | succ n => exact ih n

/-! ## The positions that stay -/

/-- Whether the outcome at a position stays when the given number of rows is skipped: a fault does, and a row
does if so many rows stand before it. -/
def stays (n : Nat) (outcomes : List (Except Fault Row)) (position : Nat) : Bool :=
  match outcomes[position]? with
  | some (.ok _) => n ≤ (delivered (outcomes.take position)).length
  | some (.error _) => true
  | none => false

/-- The positions that stay, in order. -/
def kept (n : Nat) (outcomes : List (Except Fault Row)) : List Nat :=
  (List.range outcomes.length).filter (stays n outcomes)

/-- A row counts for the outcomes behind it. -/
theorem stays_ok_succ (n : Nat) (row : Row) (rest : List (Except Fault Row)) (position : Nat) :
    stays n (.ok row :: rest) (position + 1) = stays (n - 1) rest position := by
  have hcount : (delivered ((.ok row :: rest).take (position + 1))).length =
      (delivered (rest.take position)).length + 1 := rfl
  simp only [stays, List.getElem?_cons_succ, hcount, Nat.sub_le_iff_le_add]

theorem stays_error_succ (n : Nat) (fault : Fault) (rest : List (Except Fault Row)) (position : Nat) :
    stays n (.error fault :: rest) (position + 1) = stays n rest position := by
  have hcount : delivered ((.error fault :: rest).take (position + 1)) = delivered (rest.take position) :=
    rfl
  simp only [stays, List.getElem?_cons_succ, hcount]

/-- The first outcome and those behind it. -/
theorem kept_cons {n m : Nat} {outcome : Except Fault Row} {rest : List (Except Fault Row)}
    (h : ∀ position, stays n (outcome :: rest) (position + 1) = stays m rest position) :
    kept n (outcome :: rest) =
      (if stays n (outcome :: rest) 0 then [0] else []) ++ (kept m rest).map Nat.succ := by
  have hbehind : stays n (outcome :: rest) ∘ Nat.succ = stays m rest := funext h
  rw [kept, List.length_cons, List.range_succ_eq_map, List.filter_cons, List.filter_map, hbehind, kept]
  split <;> rfl

/-- What skipping leaves are the outcomes at the positions that stay. -/
theorem map_some_dropRows (n : Nat) (outcomes : List (Except Fault Row)) :
    (dropRows n outcomes).map some = (kept n outcomes).map (outcomes[·]?) := by
  induction outcomes generalizing n with
  | nil => rw [dropRows_nil]; rfl
  | cons outcome rest ih =>
    have hbehind (m : Nat) : ((kept m rest).map Nat.succ).map ((outcome :: rest)[·]?) =
        (dropRows m rest).map some := by
      rw [ih, List.map_map]
      rfl
    cases outcome with
    | ok row =>
      have hfirst : stays n (.ok row :: rest) 0 = decide (n ≤ 0) := rfl
      rw [kept_cons (stays_ok_succ n row rest), List.map_append, hbehind, dropRows_ok, hfirst]
      by_cases hzero : n = 0
      · subst hzero
        simp
      · simp [hzero]
    | error fault =>
      have hfirst : stays n (.error fault :: rest) 0 = true := rfl
      rw [kept_cons (stays_error_succ n fault rest), List.map_append, hbehind, dropRows_error, hfirst]
      rfl

example (row : Row) (fault : Fault) : kept 1 [.error fault, .ok row, .error fault, .ok row] = [0, 2, 3] := rfl

/-! ## One skip after another -/

theorem skipRows_zero (run : Run) : run.skipRows 0 = run := by
  cases run <;> rfl

theorem skipRows_done (n : Nat) : skipRows n done = done := by
  cases n <;> rfl

theorem skipRows_later (n : Nat) (rest : Unit → Run) :
    skipRows n (later rest) = later fun _ => skipRows n (rest ()) := by
  cases n with
  | zero => simp only [skipRows_zero]
  | succ n => rfl

theorem skipRows_pull (n source : Nat) (rest : Unit → Run) :
    skipRows n (step (.pull source) rest) = step (.pull source) fun _ => skipRows n (rest ()) := by
  cases n with
  | zero => simp only [skipRows_zero]
  | succ n => rfl

theorem skipRows_error (n : Nat) (fault : Fault) (rest : Unit → Run) :
    skipRows n (step (.row (.error fault)) rest) =
      step (.row (.error fault)) fun _ => skipRows n (rest ()) := by
  cases n with
  | zero => simp only [skipRows_zero]
  | succ n => rfl

/-- Skipping twice is skipping once. -/
theorem skipRows_skipRows (run : Run) (a b : Nat) :
    (run.skipRows a).skipRows b = run.skipRows (a + b) := by
  induction run generalizing a with
  | done => simp only [skipRows_done]
  | step event rest ih =>
    match event with
    | .pull source => simp only [skipRows_pull, ih]
    | .row (.error fault) => simp only [skipRows_error, ih]
    | .row (.ok row) =>
      cases a with
      | zero => rw [skipRows_zero, Nat.zero_add]
      | succ a =>
        -- the first skip counts the row, and what it leaves there is no row for the second one
        rw [skipRows, skipRows_later, Nat.succ_add, skipRows]
        simp only [ih]
  | later rest ih => simp only [skipRows_later, ih]

/-- Skipping leaves out no fault, and of the rows the leading ones; what is left keeps its order.  One skip
after another is a skip of the sum. -/
theorem skipRows_composes (run : Run) (a b : Nat) :
    faults (run.skipRows a).rows = faults run.rows ∧
      delivered (run.skipRows a).rows = (delivered run.rows).drop a ∧
      (run.skipRows a).rows.map some = (kept a run.rows).map (run.rows[·]?) ∧
      (run.skipRows a).skipRows b = run.skipRows (a + b) := by
  rw [rows_skipRows]
  exact ⟨faults_dropRows a _, delivered_dropRows a _, map_some_dropRows a _, skipRows_skipRows run a b⟩

end Run

end TableQuery
