import TableQuery.Collection.Run

/-!
# How far a source has been read

A run says what it costs to read some of its rows: as many rows of a source as the source yields before
the last of them is delivered.  `Event.readings` lists this number for every row of a run, and it is what
a reader pays who stops after the row (`Run.getElem?_readings`).

The list of one run after another is that of the first and then that of the second, on top of all that
the first one costs (`Event.readings_append`).  Replacing rows does not change it.
-/

namespace TableQuery

namespace Event

/-- How many rows a source yields. -/
def yields (source : Nat) (events : List Event) : Nat := (pulls events).count source

/-- How many rows a source has yielded when a row is delivered, for each row. -/
def readings (source : Nat) : List Event → List Nat
  | [] => []
  | pull other :: rest => (readings source rest).map (· + if other = source then 1 else 0)
  | row _ :: rest => 0 :: readings source rest

@[simp] theorem rows_cons_pull (source : Nat) (rest : List Event) :
    rows (pull source :: rest) = rows rest :=
  List.filterMap_cons_none rfl

@[simp] theorem rows_cons_row (outcome : Except Fault Row) (rest : List Event) :
    rows (row outcome :: rest) = outcome :: rows rest :=
  List.filterMap_cons_some rfl

@[simp] theorem yields_nil (source : Nat) : yields source [] = 0 := rfl

@[simp] theorem yields_pull (source other : Nat) (rest : List Event) :
    yields source (pull other :: rest) = yields source rest + if other = source then 1 else 0 := by
  show (other :: pulls rest).count source = _
  rw [List.count_cons]
  simp only [beq_iff_eq]
  rfl

@[simp] theorem yields_row (source : Nat) (outcome : Except Fault Row) (rest : List Event) :
    yields source (row outcome :: rest) = yields source rest := rfl

@[simp] theorem yields_append (source : Nat) (before after : List Event) :
    yields source (before ++ after) = yields source before + yields source after := by
  rw [yields, pulls, List.filterMap_append, List.count_append]
  rfl

/-- What happens later costs all that was paid before. -/
theorem readings_append (source : Nat) (before after : List Event) :
    readings source (before ++ after) =
      readings source before ++ (readings source after).map (· + yields source before) := by
  induction before with
  | nil => simp [readings]
  | cons event rest ih =>
    cases event with
    | pull other =>
      simp only [List.cons_append, readings, ih, List.map_append, List.map_map, yields_pull]
      congr 2
      funext reading
      exact Nat.add_assoc ..
    | row outcome => simp [readings, ih]

theorem length_readings (source : Nat) (events : List Event) :
    (readings source events).length = (rows events).length := by
  induction events with
  | nil => rfl
  | cons event rest ih =>
    cases event with
    | pull other => simpa [readings] using ih
    | row outcome => simpa [readings] using ih

/-- Where a source yields nothing, every row is free. -/
theorem readings_of_yields_eq_zero {source : Nat} {events : List Event}
    (h : yields source events = 0) : readings source events = (rows events).map fun _ => 0 := by
  induction events with
  | nil => rfl
  | cons event rest ih =>
    cases event with
    | pull other =>
      rw [yields_pull] at h
      obtain ⟨hrest, hother⟩ := Nat.add_eq_zero_iff.mp h
      rw [readings, hother, ih hrest, rows_cons_pull, List.map_map]
      rfl
    | row outcome => rw [readings, ih h, rows_cons_row, List.map_cons]

end Event

namespace Run

open Event

/-- A reading is what the source yields to a reader who stops after the row. -/
theorem getElem?_readings (source : Nat) (run : Run) (n : Nat) :
    (readings source run.events)[n]? =
      run.rows[n]?.map fun _ => (run.take (n + 1)).pulls.count source := by
  induction run generalizing n with
  | done => rfl
  | step event rest ih =>
    cases event with
    | pull other =>
      have hpulls : (step (.pull other) rest |>.take (n + 1)).pulls.count source =
          ((rest ()).take (n + 1)).pulls.count source + if other = source then 1 else 0 := by
        rw [take, pulls, events_step]
        exact yields_pull ..
      rw [events_step, readings, List.getElem?_map, ih, rows_pull, Option.map_map, hpulls]
      rfl
    | row outcome =>
      have hpulls : (step (.row outcome) rest |>.take (n + 1)).pulls.count source =
          ((rest ()).take n).pulls.count source := by
        rw [take, pulls, events_step]
        exact yields_row ..
      rw [events_step, readings, rows_row, hpulls]
      cases n with
      | zero =>
        rw [take]
        rfl
      | succ n => rw [List.getElem?_cons_succ, List.getElem?_cons_succ, ih]
  | later rest ih => exact ih () n

/-- What a reader pays who stops after a row, if the readings are known. -/
theorem count_pulls_take {α : Type} {source : Nat} {run : Run} {origins : List α} {cost : α → Nat}
    (h : readings source run.events = origins.map cost) {n : Nat} {origin : α}
    (horigin : origins[n]? = some origin) :
    (run.take (n + 1)).pulls.count source = cost origin := by
  have hreading := getElem?_readings source run n
  rw [h, List.getElem?_map, horigin, Option.map_some] at hreading
  obtain ⟨_, _, hcount⟩ := Option.map_eq_some_iff.mp hreading.symm
  exact hcount

/-! ## Yielding rows -/

theorem events_ofRows (outcomes : List (Except Fault Row)) :
    (ofRows outcomes).events = outcomes.map .row := by
  induction outcomes with
  | nil => rfl
  | cons outcome rest ih => rw [ofRows, events_step, ih, List.map_cons]

/-- A run of rows that is metered yields each of them and delivers it. -/
theorem events_metered {run : Run} {outcomes : List (Except Fault Row)} (source : Nat)
    (h : run.events = outcomes.map .row) :
    (run.metered source).events = outcomes.flatMap fun outcome => [.pull source, .row outcome] := by
  induction run generalizing outcomes with
  | done =>
    cases outcomes with
    | nil => rfl
    | cons outcome rest => cases h
  | step event next ih =>
    rw [events_step] at h
    cases outcomes with
    | nil => cases h
    | cons outcome rest =>
      obtain ⟨rfl, hrest⟩ := List.cons.inj h
      rw [metered, events_step, events_step, ih () hrest]
      rfl
  | later next ih => exact ih () h

/-! ## Replacing and dropping rows -/

/-- What becomes of an event if rows are replaced or dropped. -/
def replaced (f : Except Fault Row → Option (Except Fault Row)) : Event → Option Event
  | .pull source => some (.pull source)
  | .row outcome => (f outcome).map .row

theorem events_filterMap (f : Except Fault Row → Option (Except Fault Row)) (run : Run) :
    (run.filterMap f).events = run.events.filterMap (replaced f) := by
  induction run with
  | done => rfl
  | step event rest ih =>
    cases event with
    | pull source => simp [filterMap, replaced, ih]
    | row outcome => cases h : f outcome <;> simp [filterMap, replaced, h, ih]
  | later rest ih => simp [filterMap, ih]

theorem events_onFirst_of_nil {run : Run} (h : run.rows = []) (onNone : Unit → Run)
    (onRow : Except Fault Row → (Unit → Run) → Run) :
    (run.onFirst onNone onRow).events = run.events ++ (onNone ()).events := by
  induction run with
  | done => rfl
  | step event rest ih =>
    cases event with
    | pull source =>
      rw [rows_pull] at h
      rw [onFirst, events_step, events_step, ih () h, List.cons_append]
    | row outcome =>
      rw [rows_row] at h
      cases h
  | later rest ih => exact ih () h

theorem events_onFirst_of_cons {run : Run} {first : Except Fault Row}
    {others : List (Except Fault Row)} (h : run.rows = first :: others) (onNone : Unit → Run)
    (onRow : Except Fault Row → (Unit → Run) → Run) :
    ∃ before rest, Event.rows before = [] ∧ run.events = before ++ .row first :: (rest ()).events ∧
      (run.onFirst onNone onRow).events = before ++ (onRow first rest).events := by
  induction run with
  | done => cases h
  | step event rest ih =>
    cases event with
    | pull source =>
      rw [rows_pull] at h
      obtain ⟨before, after, hbefore, hevents, hfirst⟩ := ih () h
      refine ⟨.pull source :: before, after, hbefore, ?_, ?_⟩
      · rw [events_step, hevents, List.cons_append]
      · rw [onFirst, events_step, hfirst, List.cons_append]
    | row outcome =>
      rw [rows_row] at h
      obtain ⟨rfl, _⟩ := List.cons.inj h
      exact ⟨[], rest, rfl, events_step .., rfl⟩
  | later rest ih => exact ih () h

end Run

end TableQuery
