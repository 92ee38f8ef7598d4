import TableQuery.Predicate

/-!
# Runs

Reading a collection row by row is a *run*: the list of what happens, in order.  A row is delivered,
or a fault in its place, or a metered source yields one of its rows to whatever reads it.  A reader
that stops after some rows has seen a part of the run from its start, up to the last of these rows
(`Run.take`), so a run says for every reader how much of each source it costs.

A run is unfolded step by step.  What follows a step is not computed before it is asked for, so a reader
that stops early pays for no more than it has seen, however long the run is.  At some steps nothing
happens; they keep the work between two steps small where rows are dropped.

Operators turn runs into runs.  Most replace every row by the run of what it becomes
(`Run.concatMap`).  Discarding leading rows counts rows and lets faults through (`Run.skipRows`).

`Run.events` is the list of what happens, and `Run.rows` forgets the sources.  Both commute with the
operators: `events_concatMap`, `rows_concatMap`, `rows_skipRows`.  A reader of rows gives the same answer
for all runs with the same rows: `read_eq_of_rows_eq`.
-/

namespace TableQuery

/-- A row: its key and its value. -/
abbrev Row := Key × Json

/-- What happens while a collection is read. -/
inductive Event where
  /-- A metered source yields a row, or a fault in its place. -/
  | pull (source : Nat)
  /-- A row, or a fault in its place, is delivered. -/
  | row (outcome : Except Fault Row)

namespace Event

/-- What is delivered. -/
def outcome? : Event → Option (Except Fault Row)
  | pull _ => none
  | row outcome => some outcome

/-- The source that yields a row. -/
def source? : Event → Option Nat
  | pull source => some source
  | row _ => none

/-- The rows that are delivered. -/
def rows (events : List Event) : List (Except Fault Row) := events.filterMap outcome?

/-- The sources that yield rows, one entry for each row. -/
def pulls (events : List Event) : List Nat := events.filterMap source?

end Event

/-- The reading of a collection to its end. -/
inductive Run where
  | done
  /-- Something happens, and then the rest does. -/
  | step (event : Event) (rest : Unit → Run)
  /-- Nothing happens here, but the rest may hold something. -/
  | later (rest : Unit → Run)

namespace Run

/-- What happens, after what was seen already, the latest first. -/
def eventsAfter : Run → List Event → List Event
  | done, seen => seen.reverse
  | step event rest, seen => eventsAfter (rest ()) (event :: seen)
  | later rest, seen => eventsAfter (rest ()) seen

/-- What happens. -/
def events (run : Run) : List Event := run.eventsAfter []

/-- The rows delivered. -/
def rows (run : Run) : List (Except Fault Row) := Event.rows run.events

/-- The sources that yielded rows, one entry for each row. -/
def pulls (run : Run) : List Nat := Event.pulls run.events

/-- Reads rows one by one, until `next` has an answer or no rows are left. -/
def read {σ ρ : Type} (next : σ → Except Fault Row → ρ ⊕ σ) (finish : σ → ρ) : Run → σ → ρ
  | done, state => finish state
  | step (.pull _) rest, state => read next finish (rest ()) state
  | step (.row outcome) rest, state =>
    match next state outcome with
    | .inl answer => answer
    | .inr state => read next finish (rest ()) state
  | later rest, state => read next finish (rest ()) state

/-! ## Making runs -/

/-- The run that delivers the given rows. -/
def ofRows : List (Except Fault Row) → Run
  | [] => done
  | outcome :: rest => step (.row outcome) fun _ => ofRows rest

/-- The run that delivers one row. -/
def single (outcome : Except Fault Row) : Run := ofRows [outcome]

/-- One run and then another. -/
def append : Run → (Unit → Run) → Run
  | done, next => later next
  | step event rest, next => step event fun _ => append (rest ()) next
  | later rest, next => later fun _ => append (rest ()) next

/-- A run up to the given number of rows; to the end if there are fewer. -/
def take : Nat → Run → Run
  | 0, _ => done
  | _, done => done
  | n + 1, step (.pull source) rest => step (.pull source) fun _ => take (n + 1) (rest ())
  | n + 1, step (.row outcome) rest => step (.row outcome) fun _ => take n (rest ())
  | n + 1, later rest => later fun _ => take (n + 1) (rest ())

/-- Replaces every row by a run. -/
def concatMap (f : Except Fault Row → Run) : Run → Run
  | done => done
  | step (.pull source) rest => step (.pull source) fun _ => concatMap f (rest ())
  | step (.row outcome) rest => later fun _ => append (f outcome) fun _ => concatMap f (rest ())
  | later rest => later fun _ => concatMap f (rest ())

/-- Replaces or drops every row. -/
def filterMap (f : Except Fault Row → Option (Except Fault Row)) : Run → Run
  | done => done
  | step (.pull source) rest => step (.pull source) fun _ => filterMap f (rest ())
  | step (.row outcome) rest =>
    match f outcome with
    | some outcome => step (.row outcome) fun _ => filterMap f (rest ())
    | none => later fun _ => filterMap f (rest ())
  | later rest => later fun _ => filterMap f (rest ())

/-- Discards the given number of rows.  Faults are not counted and stay. -/
def skipRows : Nat → Run → Run
  | 0, run => run
  | _, done => done
  | n + 1, step (.row (.ok _)) rest => later fun _ => skipRows n (rest ())
  | n + 1, step event rest => step event fun _ => skipRows (n + 1) (rest ())
  | n + 1, later rest => later fun _ => skipRows (n + 1) (rest ())

/-- Lets a source yield every row. -/
def metered (source : Nat) : Run → Run
  | done => done
  | step (.pull other) rest => step (.pull other) fun _ => metered source (rest ())
  | step (.row outcome) rest =>
    step (.pull source) fun _ => step (.row outcome) fun _ => metered source (rest ())
  | later rest => later fun _ => metered source (rest ())

/-- Goes on from the first row as `onRow` says, or at the end as `onNone` says if there is no row. -/
def onFirst (onNone : Unit → Run) (onRow : Except Fault Row → (Unit → Run) → Run) : Run → Run
  | done => later onNone
  | step (.pull source) rest => step (.pull source) fun _ => onFirst onNone onRow (rest ())
  | step (.row outcome) rest => onRow outcome rest
  | later rest => later fun _ => onFirst onNone onRow (rest ())

/-! ## What happens in a run -/

theorem eventsAfter_eq (run : Run) (seen : List Event) :
    run.eventsAfter seen = seen.reverse ++ run.events := by
  induction run generalizing seen with
  | done => simp [eventsAfter, events]
  | step event rest ih =>
    show (rest ()).eventsAfter (event :: seen) = seen.reverse ++ (rest ()).eventsAfter [event]
    rw [ih (), ih () [event]]
    simp
  | later rest ih => exact ih () seen

@[simp] theorem events_done : done.events = [] := rfl

@[simp] theorem events_step (event : Event) (rest : Unit → Run) :
    (step event rest).events = event :: (rest ()).events := by
  simpa [events, eventsAfter] using eventsAfter_eq (rest ()) [event]

@[simp] theorem events_later (rest : Unit → Run) : (later rest).events = (rest ()).events := rfl

@[simp] theorem events_append (run : Run) (next : Unit → Run) :
    (run.append next).events = run.events ++ (next ()).events := by
  induction run with
  | done => simp [append]
  | step event rest ih => simp [append, ih]
  | later rest ih => simp [append, ih]

/-- What becomes of an event if rows are replaced by runs. -/
def expanded (f : Except Fault Row → Run) : Event → List Event
  | .pull source => [.pull source]
  | .row outcome => (f outcome).events

@[simp] theorem events_concatMap (f : Except Fault Row → Run) (run : Run) :
    (run.concatMap f).events = run.events.flatMap (expanded f) := by
  induction run with
  | done => rfl
  | step event rest ih => cases event <;> simp [concatMap, expanded, ih]
  | later rest ih => simp [concatMap, ih]

/-! ## The rows of a run -/

/-- Rows without the given number of leading ones; faults are not counted and stay. -/
def dropRows : Nat → List (Except Fault Row) → List (Except Fault Row)
  | 0, outcomes => outcomes
  | _, [] => []
  | n + 1, .ok _ :: rest => dropRows n rest
  | n + 1, .error fault :: rest => .error fault :: dropRows (n + 1) rest

@[simp] theorem rows_done : done.rows = [] := rfl

@[simp] theorem rows_pull (source : Nat) (rest : Unit → Run) :
    (step (.pull source) rest).rows = (rest ()).rows := by
  simp [rows, Event.rows, List.filterMap_cons, Event.outcome?]

@[simp] theorem rows_row (outcome : Except Fault Row) (rest : Unit → Run) :
    (step (.row outcome) rest).rows = outcome :: (rest ()).rows := by
  simp [rows, Event.rows, Event.outcome?]

@[simp] theorem rows_later (rest : Unit → Run) : (later rest).rows = (rest ()).rows := rfl

@[simp] theorem rows_ofRows (outcomes : List (Except Fault Row)) :
    (ofRows outcomes).rows = outcomes := by
  induction outcomes with
  | nil => rfl
  | cons outcome rest ih => simp [ofRows, ih]

@[simp] theorem rows_single (outcome : Except Fault Row) : (single outcome).rows = [outcome] :=
  rows_ofRows [outcome]

@[simp] theorem rows_append (run : Run) (next : Unit → Run) :
    (run.append next).rows = run.rows ++ (next ()).rows := by
  simp [rows, Event.rows]

@[simp] theorem rows_concatMap (f : Except Fault Row → Run) (run : Run) :
    (run.concatMap f).rows = run.rows.flatMap fun outcome => (f outcome).rows := by
  induction run with
  | done => rfl
  | step event rest ih => cases event <;> simp [concatMap, ih]
  | later rest ih => simp [concatMap, ih]

@[simp] theorem rows_filterMap (f : Except Fault Row → Option (Except Fault Row)) (run : Run) :
    (run.filterMap f).rows = run.rows.filterMap f := by
  induction run with
  | done => rfl
  | step event rest ih =>
    cases event with
    | pull source => simp [filterMap, ih]
    | row outcome => cases h : f outcome <;> simp [filterMap, h, ih]
  | later rest ih => simp [filterMap, ih]

@[simp] theorem rows_metered (source : Nat) (run : Run) : (run.metered source).rows = run.rows := by
  induction run with
  | done => rfl
  | step event rest ih => cases event <;> simp [metered, ih]
  | later rest ih => simp [metered, ih]

theorem rows_skipRows (n : Nat) (run : Run) : (run.skipRows n).rows = dropRows n run.rows := by
  induction run generalizing n with
  | done => cases n <;> rfl
  | step event rest ih =>
    cases n with
    | zero => simp [skipRows, dropRows]
    | succ n =>
      match event with
      | .pull _ => simp [skipRows, ih]
      | .row (.ok _) => simp [skipRows, dropRows, ih]
      | .row (.error _) => simp [skipRows, dropRows, ih]
  | later rest ih => cases n <;> simp [skipRows, dropRows, ih]

theorem rows_take (n : Nat) (run : Run) : (run.take n).rows = run.rows.take n := by
  induction run generalizing n with
  | done => cases n <;> rfl
  | step event rest ih =>
    cases n with
    | zero => simp [take]
    | succ n => cases event <;> simp [take, ih]
  | later rest ih => cases n <;> simp [take, ih]

theorem read_ofRows_rows {σ ρ : Type} (next : σ → Except Fault Row → ρ ⊕ σ) (finish : σ → ρ)
    (run : Run) (state : σ) : (ofRows run.rows).read next finish state = run.read next finish state := by
  induction run generalizing state with
  | done => rfl
  | step event rest ih =>
    cases event with
    | pull source => simpa [read] using ih () state
    | row outcome =>
      simp only [rows_row, ofRows, read]
      cases next state outcome with
      | inl answer => rfl
      | inr state => exact ih () state
  | later rest ih => simpa [read] using ih () state

/-- A reader depends on the rows alone. -/
theorem read_eq_of_rows_eq {σ ρ : Type} (next : σ → Except Fault Row → ρ ⊕ σ) (finish : σ → ρ)
    {a b : Run} (same : a.rows = b.rows) (state : σ) :
    a.read next finish state = b.read next finish state := by
  rw [← read_ofRows_rows, same, read_ofRows_rows]

end Run

/-! ## Lookups -/

/-- The outcome of a call that may read sources on the way. -/
structure Lookup (α : Type) where
  /-- The sources that yielded rows, one entry for each row. -/
  pulls : List Nat
  result : Except Fault α

namespace Lookup

instance : Monad Lookup where
  pure value := ⟨[], .ok value⟩
  bind first next :=
    match first.result with
    | .ok value => ⟨first.pulls ++ (next value).pulls, (next value).result⟩
    | .error fault => ⟨first.pulls, .error fault⟩

/-- A call that reads no source. -/
def ofExcept {α : Type} (result : Except Fault α) : Lookup α := ⟨[], result⟩

/-- Reads the first row of a run, if it has one. -/
def first (run : Run) : Lookup (Option (Except Fault Row)) :=
  let start := (run.take 1).events
  ⟨Event.pulls start, .ok (Event.rows start).head?⟩

@[simp] theorem result_first (run : Run) : (first run).result = .ok run.rows.head? := by
  have h : Event.rows (run.take 1).events = run.rows.take 1 := Run.rows_take 1 run
  cases rows : run.rows <;> simp [first, h, rows]

@[simp] theorem result_pure {α : Type} (value : α) : (pure value : Lookup α).result = .ok value := rfl

@[simp] theorem result_ofExcept {α : Type} (result : Except Fault α) :
    (ofExcept result).result = result := rfl

@[simp] theorem result_bind {α β : Type} (first : Lookup α) (next : α → Lookup β) :
    (first >>= next).result = first.result.bind fun value => (next value).result := by
  obtain ⟨pulls, result⟩ := first
  cases result <;> rfl

end Lookup

end TableQuery
