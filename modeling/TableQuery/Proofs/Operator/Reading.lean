import Mathlib.Algebra.GroupWithZero.Nat
import TableQuery.Collection.Provider
import TableQuery.Proofs.Collection.Reading
import TableQuery.Proofs.Operator.NestedLoop

/-!
# Joins and products read no further than the rows taken

A leaf yields its rows one by one (`Collection.YieldsFrom`), and a join of two leaves reads them in a nested
loop: a row of the left leaf, then rows of the right one until no more are asked for.  `rowOrigins` says
for every row of the join which left row and which right row are behind it, with their positions.

A reader who stops after a row of the join has paid for the left leaf up to the left row behind it.  For
each left row before this one a difference has paid for the right leaf up to the first match, all other
joins for all of it; for the last left row they have paid up to the right row behind the row taken
(`Run.ReadsNoFurther`).  An inner join that looks at its first match, to see whether there is one, delivers
it next, so the look costs nothing.

The proof reads the numbers off the events: first for the rows that one left row becomes
(`readsRight_expandMatches`), then for the loop, by induction on the left rows (`map_readings_loopEvents`,
`readings_loopEvents`).
-/

namespace TableQuery

open Event

/-! ## Scans -/

section

variable {α : Type}

/-- A source yields rows one by one.  Those that are kept are delivered, as what is made of them. -/
def scanEvents (source : Nat) (keep : α → Bool) (made : α → Except Fault Row) (rows : List α) :
    List Event :=
  rows.flatMap fun row => .pull source :: if keep row then [.row (made row)] else []

/-- The rows that are kept, with their positions, counted from one. -/
def hits (keep : α → Bool) (rows : List α) : List (α × Nat) :=
  (rows.zipIdx 1).filter fun row => keep row.1

theorem map_fst_hits (keep : α → Bool) (rows : List α) :
    (hits keep rows).map Prod.fst = rows.filter keep := by
  conv_rhs => rw [← List.zipIdx_map_fst 1 rows, List.filter_map]
  rfl

variable {source : Nat} {keep : α → Bool} {made : α → Except Fault Row}

theorem scanEvents_cons (row : α) (rest : List α) :
    scanEvents source keep made (row :: rest) =
      .pull source :: ((if keep row then [Event.row (made row)] else []) ++
        scanEvents source keep made rest) := by
  rw [scanEvents, List.flatMap_cons, List.cons_append]
  rfl

theorem rows_scanEvents (rows : List α) :
    Event.rows (scanEvents source keep made rows) = (rows.filter keep).map made := by
  induction rows with
  | nil => rfl
  | cons row rest ih => cases h : keep row <;> simp [scanEvents_cons, h, ih]

theorem yields_scanEvents (rows : List α) :
    yields source (scanEvents source keep made rows) = rows.length := by
  induction rows with
  | nil => rfl
  | cons row rest ih =>
    rw [scanEvents_cons]
    cases keep row <;> simp [ih]

theorem yields_scanEvents_of_ne {other : Nat} (hne : source ≠ other) (rows : List α) :
    yields other (scanEvents source keep made rows) = 0 := by
  induction rows with
  | nil => rfl
  | cons row rest ih =>
    rw [scanEvents_cons]
    cases keep row <;> simp [ih, hne]

theorem map_readings_scanEvents (rows : List α) (start : Nat) :
    (readings source (scanEvents source keep made rows)).map (· + start) =
      ((rows.zipIdx (start + 1)).filter fun row => keep row.1).map Prod.snd := by
  induction rows generalizing start with
  | nil => rfl
  | cons row rest ih =>
    have hrest : (readings source (scanEvents source keep made rest)).map ((· + start) ∘ (· + 1)) =
        ((rest.zipIdx (start + 1 + 1)).filter fun row => keep row.1).map Prod.snd := by
      rw [← ih (start + 1)]
      refine List.map_congr_left fun reading _ => ?_
      show reading + 1 + start = reading + (start + 1)
      omega
    rw [scanEvents_cons, readings, if_pos rfl, List.map_map, List.zipIdx_cons]
    simp only [List.filter_cons]
    cases keep row with
    | false => exact hrest
    | true =>
      have hfirst : 0 + 1 + start = start + 1 := by omega
      exact congrArg₂ List.cons hfirst hrest

/-- A row that is kept costs the rows before it and itself. -/
theorem readings_scanEvents (rows : List α) :
    readings source (scanEvents source keep made rows) = (hits keep rows).map Prod.snd := by
  rw [hits, ← map_readings_scanEvents rows 0]
  exact (List.map_id _).symm

/-- Making something else of the rows costs nothing. -/
theorem scanEvents_map (f : Except Fault Row → Except Fault Row) (rows : List α) :
    (scanEvents source keep made rows).filterMap (Run.replaced fun outcome => some (f outcome)) =
      scanEvents source keep (fun row => f (made row)) rows := by
  induction rows with
  | nil => rfl
  | cons row rest ih =>
    rw [scanEvents_cons, scanEvents_cons, ← ih]
    cases keep row <;> simp [Run.replaced]

/-- Dropping rows saves nothing. -/
theorem scanEvents_filter (test : Except Fault Row → Bool) (rows : List α) :
    (scanEvents source keep made rows).filterMap
        (Run.replaced fun outcome => if test outcome then some outcome else none) =
      scanEvents source (fun row => keep row && test (made row)) made rows := by
  induction rows with
  | nil => rfl
  | cons row rest ih =>
    rw [scanEvents_cons, scanEvents_cons, ← ih]
    cases keep row with
    | false => rfl
    | true => cases h : test (made row) <;> simp [Run.replaced, h]

end

/-! ## The rows behind a row -/

namespace JoinType

/-- The right rows behind the rows that a left row becomes, given the rows that agree with it. -/
def partners (join : JoinType) (found : List ((Key × Tuple) × Nat)) :
    List (Option ((Key × Tuple) × Nat)) :=
  match join, found with
  | inner, found => found.map some
  | left, [] | diff, [] => [none]
  | left, found => found.map some
  | diff, _ :: _ => []

end JoinType

/-- The position of the first of the rows that agree; that of the last row if none does. -/
def firstMatch (size : Nat) : List ((Key × Tuple) × Nat) → Nat
  | [] => size
  | hit :: _ => hit.2

/-- How many of the right rows are read for a left row, given the rows that agree with it. -/
def JoinType.reads (join : JoinType) (size : Nat) (found : List ((Key × Tuple) × Nat)) : Nat :=
  if join = .diff then firstMatch size found else size

/-- The position of a right row; that of the last row if there is none. -/
def partnerPosition (size : Nat) (partner : Option ((Key × Tuple) × Nat)) : Nat :=
  (partner.map Prod.snd).getD size

/-- The rows behind a row of a join, with their positions, counted from one.  There is no right row
behind a left row that stands alone. -/
structure RowOrigin where
  left : (Key × Tuple) × Nat
  right : Option ((Key × Tuple) × Nat)
  deriving DecidableEq

/-- The row of a join that has the given rows behind it. -/
def RowOrigin.row (join : JoinType) (schema : MergedSchema) (origin : RowOrigin) : Row :=
  match origin.right with
  | none => (.pair origin.left.1.1 .empty, join.unmatched schema origin.left.1.2)
  | some other => (.pair origin.left.1.1 other.1.1,
      .object (schema.mergeTuples origin.left.1.2 (some other.1.2)))

/-- The rows behind each row of a join. -/
def rowOrigins (join : JoinType) (agree : Key × Tuple → Key × Tuple → Bool)
    (left right : List (Key × Tuple)) : List RowOrigin :=
  (left.zipIdx 1).flatMap fun row =>
    (join.partners (hits (agree row.1) right)).map fun partner => ⟨row, partner⟩

theorem map_row_partners (join : JoinType) (schema : MergedSchema) (row : (Key × Tuple) × Nat)
    (found : List ((Key × Tuple) × Nat)) :
    (join.partners found).map (fun partner => RowOrigin.row join schema ⟨row, partner⟩) =
      join.loopBody schema row.1 (found.map Prod.fst) := by
  match join, found with
  | .inner, [] => rfl
  | .inner, hit :: rest =>
    simp [JoinType.partners, JoinType.loopBody, JoinType.together, RowOrigin.row]
  | .left, [] => rfl
  | .left, hit :: rest =>
    simp [JoinType.partners, JoinType.loopBody, JoinType.together, RowOrigin.row]
  | .diff, [] => rfl
  | .diff, hit :: rest => rfl

/-- The rows of a join are those of the nested loop. -/
theorem map_row_rowOrigins (join : JoinType) (schema : MergedSchema)
    (agree : Key × Tuple → Key × Tuple → Bool) (left right : List (Key × Tuple)) :
    (rowOrigins join agree left right).map (RowOrigin.row join schema) =
      nestedLoop join schema agree left right := by
  have hloop := List.flatMap_map Prod.fst
    (fun row => join.loopBody schema row (right.filter (agree row))) (left.zipIdx 1)
  rw [List.zipIdx_map_fst] at hloop
  rw [rowOrigins, List.map_flatMap, nestedLoop, hloop]
  refine List.flatMap_congr fun row _ => ?_
  rw [List.map_map, ← map_fst_hits]
  exact map_row_partners join schema row _

/-! ## Reading for one left row -/

/-- How far a source is read for one left row, given the rows that agree with it. -/
structure ReadsRight (source size : Nat) (join : JoinType) (found : List ((Key × Tuple) × Nat))
    (events : List Event) : Prop where
  readings : readings source events = (join.partners found).map (partnerPosition size)
  yields : yields source events = join.reads size found
  /-- No other source is read. -/
  others : ∀ other, source ≠ other → Event.yields other events = 0

section

variable {source : Nat} {agree : Key × Tuple → Bool} {right : List (Key × Tuple)} {found : Run}

/-- Delivering all rows that agree, as whatever is made of them, reads all rows. -/
theorem readsRight_scanEvents (made : Key × Tuple → Except Fault Row) :
    ReadsRight source right.length .inner (hits agree right)
      (scanEvents source agree made right) where
  readings := by
    rw [readings_scanEvents, JoinType.partners, List.map_map]
    rfl
  yields := yields_scanEvents right
  others := fun _ hne => yields_scanEvents_of_ne hne right

/-- If no row agrees, what the left row becomes alone comes after all rows. -/
theorem ReadsRight.append_row {size : Nat} {join : JoinType} {events : List Event}
    (h : ReadsRight source size .inner [] events) (hjoin : join ≠ .inner)
    (outcome : Except Fault Row) : ReadsRight source size join [] (events ++ [.row outcome]) where
  readings := by
    have hyields : Event.yields source events = size := h.yields
    rw [readings_append, h.readings, hyields]
    cases join with
    | inner => exact absurd rfl hjoin
    | left | diff => simp [Event.readings, JoinType.partners, partnerPosition]
  yields := by
    rw [yields_append, h.yields]
    cases join <;> rfl
  others := by
    intro other hne
    rw [yields_append, h.others other hne]
    rfl

/-- Up to the first row that agrees, all rows before it are read, and itself. -/
theorem ReadsRight.before_row {size : Nat} {hit : (Key × Tuple) × Nat}
    {others : List ((Key × Tuple) × Nat)} {before after : List Event} {outcome : Except Fault Row}
    (h : ReadsRight source size .inner (hit :: others) (before ++ .row outcome :: after))
    (hbefore : Event.rows before = []) :
    ReadsRight source size .diff (hit :: others) before := by
  have hnone : Event.readings source before = [] := by
    rw [← List.length_eq_zero_iff, length_readings, hbefore]
    rfl
  refine ⟨hnone, ?_, fun other hne => ?_⟩
  · show Event.yields source before = hit.2
    have hreadings := h.readings
    rw [readings_append, hnone] at hreadings
    simpa [partnerPosition] using (List.cons.inj hreadings).1
  · have hall := h.others other hne
    rw [yields_append] at hall
    exact (Nat.add_eq_zero_iff.mp hall).1

/-- What happens while a source is searched for the rows that agree. -/
def foundEvents (source : Nat) (agree : Key × Tuple → Bool) (right : List (Key × Tuple)) : List Event :=
  scanEvents source agree (fun other => .ok (other.1, .object other.2)) right

theorem rows_found (hfound : found.events = foundEvents source agree right) :
    found.rows = tupleRows (right.filter agree) := by
  rw [Run.rows, hfound, foundEvents, rows_scanEvents]
  rfl

theorem events_scan (leftField rightField : String) (row : Key × Tuple)
    (hfound : found.events = foundEvents source (fun _ => true) right) :
    (found.scan rightField (row.2.valueOrNull leftField)).events =
      foundEvents source (agreeOn leftField rightField row) right := by
  rw [Run.scan, Run.events_filterMap, hfound, foundEvents, scanEvents_filter]
  rfl

/-- The rows that a left row becomes cost what the type of the join says. -/
theorem readsRight_expandMatches (join : JoinType) (schema : MergedSchema) (key : Key) (tuple : Tuple)
    (hfound : found.events = foundEvents source agree right) :
    ReadsRight source right.length join (hits agree right)
      (join.expandMatches schema key tuple found).events := by
  have hreads : ReadsRight source right.length .inner (hits agree right) found.events :=
    hfound ▸ readsRight_scanEvents _
  have hpairs : ReadsRight source right.length .inner (hits agree right)
      (found.filterMap fun other => some (schema.pairRow key tuple other)).events := by
    rw [Run.events_filterMap, hfound, foundEvents, scanEvents_map]
    exact readsRight_scanEvents _
  have hrows := rows_found hfound
  have hpairRows := rows_pairs schema key tuple found
  rw [← map_fst_hits] at hrows
  rw [hrows] at hpairRows
  cases join with
  | inner => exact hpairs
  | left =>
    rw [JoinType.expandMatches]
    cases hhits : hits agree right with
    | nil =>
      rw [hhits] at hpairs hpairRows
      rw [Run.events_onFirst_of_nil hpairRows]
      exact hpairs.append_row JoinType.noConfusion _
    | cons hit others =>
      rw [hhits] at hpairs hpairRows
      obtain ⟨before, rest, _, hevents, hfirst⟩ := Run.events_onFirst_of_cons hpairRows _ _
      rw [hfirst, Run.events_step, ← hevents]
      exact ⟨hpairs.readings, hpairs.yields, hpairs.others⟩
  | diff =>
    rw [JoinType.expandMatches]
    cases hhits : hits agree right with
    | nil =>
      rw [hhits] at hreads hrows
      rw [Run.events_onFirst_of_nil hrows]
      exact hreads.append_row JoinType.noConfusion _
    | cons hit others =>
      rw [hhits] at hreads hrows
      obtain ⟨before, rest, hbefore, hevents, hfirst⟩ := Run.events_onFirst_of_cons hrows _ _
      rw [hevents] at hreads
      rw [hfirst]
      show ReadsRight source right.length .diff (hit :: others) (before ++ Run.done.events)
      rw [Run.events_done, List.append_nil]
      exact hreads.before_row hbefore

end

/-! ## Reading for all left rows -/

section

variable {α β : Type} {source other : Nat} {block : α → List Event}

/-- A source yields rows one by one, and after each row something happens. -/
def loopEvents (source : Nat) (block : α → List Event) (rows : List α) : List Event :=
  rows.flatMap fun row => .pull source :: block row

theorem loopEvents_cons (row : α) (rest : List α) :
    loopEvents source block (row :: rest) =
      .pull source :: (block row ++ loopEvents source block rest) := by
  rw [loopEvents, List.flatMap_cons, List.cons_append]
  rfl

/-- The rows of one block cost as much of the outer source as there are blocks up to this one. -/
theorem map_readings_loopEvents (hblock : ∀ row, yields source (block row) = 0) (rows : List α)
    (start : Nat) :
    (readings source (loopEvents source block rows)).map (· + start) =
      (rows.zipIdx (start + 1)).flatMap fun row => (Event.rows (block row.1)).map fun _ => row.2 := by
  induction rows generalizing start with
  | nil => rfl
  | cons row rest ih =>
    rw [loopEvents_cons, readings, readings_append, readings_of_yields_eq_zero (hblock row), hblock row,
      List.zipIdx_cons, List.flatMap_cons, ← ih (start + 1)]
    simp [Nat.add_comm, Nat.add_left_comm]

/-- The rows of one block cost as much of the inner source as all blocks before it, and what they cost
in theirs. -/
theorem readings_loopEvents {partners : α → List β} {cost : β → Nat} {reads : α → Nat}
    (hne : other ≠ source) (hreadings : ∀ row, readings source (block row) = (partners row).map cost)
    (hreads : ∀ row, yields source (block row) = reads row) (rows : List α) (start : Nat) :
    readings source (loopEvents other block rows) =
      (rows.zipIdx start).flatMap fun row => (partners row.1).map fun partner =>
        ((rows.take (row.2 - start)).map reads).sum + cost partner := by
  induction rows generalizing start with
  | nil => rfl
  | cons row rest ih =>
    rw [loopEvents_cons, readings, readings_append, hreadings, hreads, ih (start + 1),
      List.zipIdx_cons, List.flatMap_cons]
    simp only [hne, if_false, Nat.add_zero, List.map_id', Nat.sub_self, List.take_zero, List.map_nil,
      List.sum_nil, Nat.zero_add, List.map_flatMap, List.map_map]
    congr 1
    refine List.flatMap_congr fun later hlater => List.map_congr_left fun partner _ => ?_
    obtain ⟨hle, _⟩ := List.mem_zipIdx hlater
    -- one block more stands before each later one
    rw [show later.2 - start = later.2 - (start + 1) + 1 by omega, List.take_succ_cons, List.map_cons,
      List.sum_cons]
    show _ + cost partner + reads row = _
    omega

end

/-! ## Reading a join -/

/-- A run delivers the rows of a join, and a reader who stops after any of them has read of both sources
what the rows behind it say. -/
structure Run.ReadsNoFurther (run : Run) (leftSource rightSource : Nat) (join : JoinType)
    (schema : MergedSchema) (agree : Key × Tuple → Key × Tuple → Bool)
    (left right : List (Key × Tuple)) : Prop where
  rows : run.rows = (rowOrigins join agree left right).map fun origin => .ok (origin.row join schema)
  /-- The left source is read up to the left row behind the row taken. -/
  leftPulls : ∀ n origin, (rowOrigins join agree left right)[n]? = some origin →
    (run.take (n + 1)).pulls.count leftSource = origin.left.2
  /-- The right source is read once for each left row before, and then up to the right row behind the row
  taken.  A difference stops at each first match. -/
  rightPulls : ∀ n origin, (rowOrigins join agree left right)[n]? = some origin →
    (run.take (n + 1)).pulls.count rightSource =
      if join = .diff then
        ((left.take origin.left.2).map fun row => firstMatch right.length (hits (agree row) right)).sum
      else (origin.left.2 - 1) * right.length + partnerPosition right.length origin.right

section

variable {leftSource rightSource : Nat} {join : JoinType} {schema : MergedSchema}
variable {agree : Key × Tuple → Key × Tuple → Bool} {left right : List (Key × Tuple)}

theorem mem_rowOrigins {origin : RowOrigin} (h : origin ∈ rowOrigins join agree left right) :
    ∃ i, origin.left.2 = i + 1 ∧ left[i]? = some origin.left.1 ∧
      origin.right ∈ join.partners (hits (agree origin.left.1) right) := by
  obtain ⟨row, hrow, hpartner⟩ := List.mem_flatMap.mp h
  obtain ⟨partner, hmem, rfl⟩ := List.mem_map.mp hpartner
  obtain ⟨hle, hget⟩ := List.mem_zipIdx_iff_le_and_getElem?_sub.mp hrow
  exact ⟨row.2 - 1, (Nat.sub_add_cancel hle).symm, hget, hmem⟩

/-- A row of a difference stands alone, after all right rows were read for it. -/
theorem partnerPosition_of_diff {size : Nat} {found : List ((Key × Tuple) × Nat)}
    {partner : Option ((Key × Tuple) × Nat)} (h : partner ∈ JoinType.diff.partners found) :
    partnerPosition size partner = firstMatch size found := by
  cases found with
  | nil =>
    rw [List.mem_singleton.mp h]
    rfl
  | cons hit others => cases h

/-- What the left rows before the one behind the row taken cost of the right source, and what this one
costs. -/
theorem sum_reads_add {origin : RowOrigin} (h : origin ∈ rowOrigins join agree left right) :
    ((left.take (origin.left.2 - 1)).map fun row =>
        join.reads right.length (hits (agree row) right)).sum +
        partnerPosition right.length origin.right =
      if join = .diff then
        ((left.take origin.left.2).map fun row => firstMatch right.length (hits (agree row) right)).sum
      else (origin.left.2 - 1) * right.length + partnerPosition right.length origin.right := by
  obtain ⟨i, hi, hget, hpartner⟩ := mem_rowOrigins h
  rw [hi, Nat.add_sub_cancel]
  by_cases hjoin : join = .diff
  · subst hjoin
    rw [List.take_add_one, hget, partnerPosition_of_diff hpartner]
    simp [JoinType.reads]
  · have hlength : (left.take i).length = i :=
      List.length_take_of_le (List.getElem?_eq_some_iff.mp hget).1.le
    simp only [JoinType.reads, if_neg hjoin, List.map_const', List.sum_replicate_nat, hlength]

section

variable {block : Key × Tuple → List Event}
variable (hreads : ∀ row, ReadsRight rightSource right.length join (hits (agree row) right) (block row))

include hreads

theorem readings_left (hne : leftSource ≠ rightSource) :
    readings leftSource (loopEvents leftSource block left) =
      (rowOrigins join agree left right).map fun origin => origin.left.2 := by
  have hblock := fun row => (hreads row).others leftSource hne.symm
  have hreadings := map_readings_loopEvents hblock left 0
  simp only [Nat.add_zero, List.map_id'] at hreadings
  rw [hreadings, rowOrigins, List.map_flatMap]
  refine List.flatMap_congr fun row _ => ?_
  -- a left row becomes as many rows as it has partners
  rw [List.map_map, List.map_const', ← length_readings rightSource, (hreads row.1).readings,
    List.length_map]
  exact List.map_const'.symm

theorem readings_right (hne : leftSource ≠ rightSource) :
    readings rightSource (loopEvents leftSource block left) =
      (rowOrigins join agree left right).map fun origin =>
        ((left.take (origin.left.2 - 1)).map fun row =>
          join.reads right.length (hits (agree row) right)).sum +
          partnerPosition right.length origin.right := by
  rw [readings_loopEvents hne (fun row => (hreads row).readings) (fun row => (hreads row).yields) left 1,
    rowOrigins, List.map_flatMap]
  simp only [List.map_map]
  rfl

end

theorem events_concatMap_found {leftRun : Run} (expand : Except Fault Row → Run)
    (hleft : leftRun.events = foundEvents leftSource (fun _ => true) left) :
    (leftRun.concatMap expand).events =
      loopEvents leftSource (fun row => (expand (.ok (row.1, .object row.2))).events) left := by
  rw [Run.events_concatMap, hleft, foundEvents, scanEvents, List.flatMap_assoc]
  refine List.flatMap_congr fun row _ => ?_
  simp [Run.expanded]

theorem rows_concatMap_found {leftRun : Run} {expand : Except Fault Row → Run}
    {found : Key × Tuple → Run}
    (hleft : leftRun.events = foundEvents leftSource (fun _ => true) left)
    (hexpand : ∀ row : Key × Tuple, expand (.ok (row.1, .object row.2)) =
      join.expandMatches schema row.1 row.2 (found row))
    (hfound : ∀ row, (found row).events = foundEvents rightSource (agree row) right) :
    (leftRun.concatMap expand).rows = (nestedLoop join schema agree left right).map .ok := by
  have hrows : ∀ row : Key × Tuple, (expand (.ok (row.1, .object row.2))).rows =
      (join.loopBody schema row (right.filter (agree row))).map .ok := by
    intro row
    rw [hexpand, rows_expandMatches, rows_found (hfound row)]
    exact matchRows_tupleRows join schema row _
  rw [Run.rows_concatMap, rows_found hleft, List.filter_true, tupleRows, List.flatMap_map]
  simp only [hrows]
  exact List.map_flatMap.symm

/-- Joining row by row what is found for each left row reads no further than the rows taken. -/
theorem readsNoFurther_concatMap {leftRun : Run} {expand : Except Fault Row → Run}
    {found : Key × Tuple → Run} (hne : leftSource ≠ rightSource)
    (hleft : leftRun.events = foundEvents leftSource (fun _ => true) left)
    (hexpand : ∀ row : Key × Tuple, expand (.ok (row.1, .object row.2)) =
      join.expandMatches schema row.1 row.2 (found row))
    (hfound : ∀ row, (found row).events = foundEvents rightSource (agree row) right) :
    (leftRun.concatMap expand).ReadsNoFurther leftSource rightSource join schema agree left right := by
  have hevents := events_concatMap_found expand hleft
  simp only [hexpand] at hevents
  have hreads := fun row : Key × Tuple =>
    readsRight_expandMatches join schema row.1 row.2 (hfound row)
  refine ⟨?_, ?_, ?_⟩
  · rw [rows_concatMap_found hleft hexpand hfound, ← map_row_rowOrigins, List.map_map]
    rfl
  · intro n origin horigin
    have hreadings : readings leftSource (leftRun.concatMap expand).events =
        (rowOrigins join agree left right).map fun origin => origin.left.2 :=
      hevents ▸ readings_left hreads hne
    exact Run.count_pulls_take hreadings horigin
  · intro n origin horigin
    rw [Run.count_pulls_take (hevents ▸ readings_right hreads hne) horigin]
    exact sum_reads_add (List.mem_of_getElem? horigin)

end

/-! ## Leaves -/

namespace Collection

/-- A leaf yields its rows one by one, none of them a fault, and is looked up by value with a scan. -/
structure YieldsFrom (leaf : Collection) (source : Nat) (tuples : List (Key × Tuple)) : Prop where
  items : (leaf.items .none).map Run.events = .ok (foundEvents source (fun _ => true) tuples)
  scans : leaf.itemsOnValue = scanOnValue leaf.items

/-- Metering makes a leaf of a collection that delivers tuples and reads no source itself. -/
theorem YieldsFrom.metered {inner : Collection} {tuples : List (Key × Tuple)} (source : Nat)
    (h : (inner.items .none).map Run.events = .ok ((tupleRows tuples).map .row)) :
    (inner.metered source).YieldsFrom source tuples where
  items := by
    obtain ⟨run, hrun, hevents⟩ := map_eq_ok_iff.mp h
    simp only [Collection.metered, hrun]
    refine congrArg Except.ok ((Run.events_metered source hevents).trans ?_)
    rw [tupleRows, List.flatMap_map]
    rfl
  scans := rfl

theorem events_items_stored (stored : Stored) :
    (stored.toCollection.items .none).map Run.events = .ok (stored.outcomes.map .row) := by
  refine congrArg Except.ok ?_
  show (stored.read.skipRows 0).events = _
  rw [Run.skipRows]
  exact Run.events_ofRows _

end Collection

namespace Operator

variable {left right : Collection} {leftSource rightSource : Nat}
variable {leftTuples rightTuples : List (Key × Tuple)}

/-- A reader who stops after a row of a product or a join of two leaves has read no further in either leaf
than that row requires. -/
theorem joins_read_no_further (hl : left.YieldsFrom leftSource leftTuples)
    (hr : right.YieldsFrom rightSource rightTuples) (hne : leftSource ≠ rightSource)
    (hleftKind : left.kind.hasTuples = true) (hrightKind : right.kind.hasTuples = true) :
    (∃ tree run, cross (.leaf left) (.leaf right) = .ok tree ∧
      tree.collection.items .none = .ok run ∧
      run.ReadsNoFurther leftSource rightSource .inner (mergedSchema (.leaf left) (.leaf right))
        (fun _ _ => true) leftTuples rightTuples) ∧
    ∀ join leftField rightField, ∃ tree run,
      joinOnFields join (.leaf left) leftField (.leaf right) rightField = .ok tree ∧
      tree.collection.items .none = .ok run ∧
      run.ReadsNoFurther leftSource rightSource join (mergedSchema (.leaf left) (.leaf right))
        (agreeOn leftField rightField) leftTuples rightTuples := by
  obtain ⟨leftRun, hleft, hleftEvents⟩ := map_eq_ok_iff.mp hl.items
  obtain ⟨rightRun, hright, hrightEvents⟩ := map_eq_ok_iff.mp hr.items
  have hkeyed : ∀ row : Key × Tuple, keyedTuple (.ok (row.1, .object row.2)) = .ok row := fun _ => rfl
  constructor
  · refine ⟨_, _, cross_eq_ok_iff.mpr ⟨hleftKind, hrightKind, rfl⟩,
      congrArg (Except.map _) hleft, ?_⟩
    refine readsNoFurther_concatMap hne hleftEvents (fun row => ?_) fun _ => hrightEvents
    simp only [hkeyed, collection, hright]
    rfl
  · intro join leftField rightField
    refine ⟨_, _, joinOnFields_eq_ok_iff.mpr ⟨hleftKind, hrightKind, rfl⟩,
      congrArg (Except.map _) hleft, ?_⟩
    show Run.ReadsNoFurther ((leftRun.concatMap _).skipRows 0) _ _ _ _ _ _ _
    rw [Run.skipRows]
    refine readsNoFurther_concatMap hne hleftEvents (fun row => ?_) fun row =>
      events_scan leftField rightField row hrightEvents
    simp only [hkeyed, collection, hr.scans, scanOnValue, hright]
    rfl

/-- Keyed tuples with a number in one field. -/
def numbered (field : String) (rows : List (String × Fin 10)) : List (Key × Tuple) :=
  rows.map fun row => (.name row.1, [(field, .number (.integer row.2 (by omega)))])

/-- The first and the last of these agree with rows of `rightNumbers`. -/
def leftNumbers : List (Key × Tuple) := numbered "f" [("a", 1), ("b", 5), ("c", 2)]

def rightNumbers : List (Key × Tuple) := numbered "g" [("p", 2), ("q", 1), ("r", 2)]

/-- Tuples as a metered leaf. -/
def meteredLeaf (id : String) (tuples : List (Key × Tuple)) (source : Nat) : Collection :=
  (Stored.ofTuples id [] tuples []).toCollection.metered source

/-- The one row of a difference is the second left row.  It costs two left rows, and of the right rows two
up to the match of the first left row and then all three. -/
theorem joins_read_no_further_of_metered :
    (meteredLeaf "left" leftNumbers 0).YieldsFrom 0 leftNumbers ∧
      (meteredLeaf "right" rightNumbers 1).YieldsFrom 1 rightNumbers ∧ 0 ≠ 1 ∧
      (meteredLeaf "left" leftNumbers 0).kind.hasTuples = true ∧
      (meteredLeaf "right" rightNumbers 1).kind.hasTuples = true ∧
      ∃ tree run,
        joinOnFields .diff (.leaf (meteredLeaf "left" leftNumbers 0)) "f"
            (.leaf (meteredLeaf "right" rightNumbers 1)) "g" = .ok tree ∧
          tree.collection.items .none = .ok run ∧
          (run.take 1).pulls.count 0 = 2 ∧ (run.take 1).pulls.count 1 = 5 := by
  have hl : (meteredLeaf "left" leftNumbers 0).YieldsFrom 0 leftNumbers :=
    .metered 0 (Collection.events_items_stored _)
  have hr : (meteredLeaf "right" rightNumbers 1).YieldsFrom 1 rightNumbers :=
    .metered 1 (Collection.events_items_stored _)
  obtain ⟨tree, run, hbuild, hitems, hreads⟩ :=
    (joins_read_no_further hl hr (by decide) rfl rfl).2 .diff "f" "g"
  have horigin : (rowOrigins .diff (agreeOn "f" "g") leftNumbers rightNumbers)[0]? =
      some ⟨((.name "b", [("f", .number (.integer 5 (by decide)))]), 2), none⟩ := by
    decide +kernel
  exact ⟨hl, hr, by decide, rfl, rfl, tree, run, hbuild, hitems, hreads.leftPulls 0 _ horigin,
    (hreads.rightPulls 0 _ horigin).trans (by decide +kernel)⟩

end Operator

end TableQuery
