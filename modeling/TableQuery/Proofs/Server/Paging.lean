import TableQuery.Proofs.Operator.Page
import TableQuery.Proofs.Query.Compile
import TableQuery.Server.Service

/-!
# Going through a result page by page

A page of a collection without faults is a segment of its rows, and it says whether rows follow the
segment (`Service.pageOf_eq`).  That holds for every tree and however the tree skips rows, since none
of its rows becomes a fault anywhere.

A `Service.Walk` asks for a page and then for the one behind it, as long as more follows.  Its pages
make up the result exactly if that has at most 2^64 rows (`Service.pages_tile_iff`).  A request counts
the rows before a page in 64 bits, and the last page may hold a single row.  Longer results have rows
that no request reaches (`Service.pages_do_not_end`).
-/

namespace TableQuery

/-! ## One page -/

namespace Page

/-- Reading a page, given how many rows it still takes and its rows so far, the latest first. -/
theorem read_ofRows (rows : List Row) (room : Nat) (seen : List Row) :
    (Run.ofRows (rows.map .ok)).read addRow (fun (_, rows) => .ok ⟨rows.reverse, false⟩) (room, seen) =
      .ok ⟨seen.reverse ++ rows.take room, decide (room < rows.length)⟩ := by
  induction rows generalizing room seen with
  | nil => simp [Run.ofRows, Run.read]
  | cons row rows ih =>
    cases room with
    | zero => simp [Run.ofRows, Run.read, addRow]
    | succ room => simp [Run.ofRows, Run.read, addRow, ih]

theorem ofRun_of_rows {run : Run} {rows : List Row} (h : run.rows = rows.map .ok) (limit : Nat) :
    ofRun limit run = .ok ⟨rows.take limit, decide (limit < rows.length)⟩ := by
  have hsame : run.rows = (Run.ofRows (rows.map .ok)).rows := by rw [h, Run.rows_ofRows]
  rw [ofRun, Run.read_eq_of_rows_eq addRow _ hsame]
  exact read_ofRows rows limit []

end Page

/-- A page of a tree without faults is a segment of its rows. -/
theorem Operator.Built.page_of_rows {tree : Operator} (h : Built InMemory tree) {rows : List Row}
    (hrows : tree.rows = rows.map .ok) (skip limit : Nat) :
    Page.ofCollection tree.collection skip limit =
      .ok ⟨(rows.drop skip).take limit, decide (limit < (rows.drop skip).length)⟩ := by
  have hfinish : ∀ row ∈ Run.leading skip tree.counted.rows, (tree.finish (.ok row)).isOk = true := by
    intro row hrow
    have hmem : .ok row ∈ tree.counted.rows := Run.mem_delivered.mp (List.mem_of_mem_take hrow)
    have hin : tree.finish (.ok row) ∈ rows.map .ok := by
      rw [← hrows, rows_eq_map_finish]
      exact List.mem_map_of_mem hmem
    obtain ⟨made, _, hmade⟩ := List.mem_map.mp hin
    rw [← hmade]
    rfl
  have hpage := h.rows_page skip
  rw [(Run.map_dropRows_eq_iff tree.finish_error skip _).mpr hfinish, ← rows_eq_map_finish, hrows,
    Run.dropRows_map_ok] at hpage
  obtain ⟨run, hrun, hleft⟩ := map_eq_ok_iff.mp hpage
  rw [Page.ofCollection, hrun]
  exact Page.ofRun_of_rows hleft limit

theorem Paging.limit_one (paging : Paging) : paging.limit (some 1) = 1 := by
  have hle : (1 : UInt64) ≤ max 1 paging.maxPageSize := by
    show 1 ≤ if 1 ≤ paging.maxPageSize then paging.maxPageSize else 1
    split
    · assumption
    · exact UInt64.le_refl 1
  show max 1 (if 1 ≤ max 1 paging.maxPageSize then 1 else _) = 1
  rw [if_pos hle]
  rfl

namespace Service

variable {service : Service} {source : String} {tree : Operator} {rows : List Row}

theorem built_of_collectionOf (h : service.collectionOf source = .ok tree) :
    Operator.Built InMemory tree := by
  rw [collectionOf] at h
  cases hcompile : compile service.registry.catalog source with
  | error fault =>
    rw [hcompile] at h
    cases h
  | ok query =>
    rw [hcompile] at h
    cases htree : query.operator with
    | error fault =>
      simp only [Except.bind, htree, Except.mapError] at h
      cases h
    | ok found =>
      simp only [Except.bind, htree, Except.mapError] at h
      cases h
      obtain ⟨table, _, hbuild⟩ := exists_build_of_compile hcompile htree
      refine (Table.builds_of_build hbuild).built fun dataset sectionName source hsource => ?_
      obtain ⟨stored, _, hstored⟩ := Registry.exists_section_of_collection hsource
      exact ⟨stored, hstored.symm⟩

theorem collectionOf_eq_ok {query : Query} (hcompile : compile service.registry.catalog source = .ok query)
    (htree : query.operator = .ok tree) : service.collectionOf source = .ok tree := by
  rw [collectionOf, hcompile]
  simp only [Except.bind, htree, Except.mapError]

/-- A page of a result without faults is a segment of its rows. -/
theorem pageOf_eq (hcollection : service.collectionOf source = .ok tree)
    (hrows : (tree.collection.items .none).map Run.rows = .ok (rows.map .ok)) (skip : UInt64)
    (requested : Option UInt64) :
    service.pageOf ⟨source, skip, requested⟩ =
      .ok (tree, ⟨(rows.drop skip.toNat).take (service.paging.limit requested).toNat,
        decide ((service.paging.limit requested).toNat < (rows.drop skip.toNat).length)⟩) := by
  have hbuilt := built_of_collectionOf hcollection
  have hitems := (hbuilt.delivers fun _ => InMemory.delivers).items
  have hpage := hbuilt.page_of_rows (Except.ok.inj (hitems.symm.trans hrows)) skip.toNat
    (service.paging.limit requested).toNat
  simp only [pageOf, hcollection, bind, Except.bind, hpage, Except.mapError]
  rfl

/-! ## All pages -/

/-- Pages that are asked for one after the other, each behind the rows of the pages before it, as long
as more follows. -/
inductive Walk (service : Service) (source : String) :
    (limits : Nat → Option UInt64) → (skip : UInt64) → List Page → Prop where
  | last {limits : Nat → Option UInt64} {skip : UInt64} {tree : Operator} {page : Page} :
      service.pageOf ⟨source, skip, limits 0⟩ = .ok (tree, page) → page.more = false →
      Walk service source limits skip [page]
  | next {limits : Nat → Option UInt64} {skip behind : UInt64} {tree : Operator} {page : Page}
      {pages : List Page} :
      service.pageOf ⟨source, skip, limits 0⟩ = .ok (tree, page) → page.more = true →
      behind.toNat = skip.toNat + page.rows.length →
      Walk service source (fun turn => limits (turn + 1)) behind pages →
      Walk service source limits skip (page :: pages)

/-- The requested limits say which pages come. -/
theorem Walk.unique {limits : Nat → Option UInt64} {skip : UInt64} {pages others : List Page}
    (h : Walk service source limits skip pages) (hother : Walk service source limits skip others) :
    others = pages := by
  induction h generalizing others with
  | last hpage hmore =>
    cases hother with
    | last hpage' _ =>
      cases hpage.symm.trans hpage'
      rfl
    | next hpage' hmore' _ _ =>
      cases hpage.symm.trans hpage'
      cases hmore.symm.trans hmore'
  | next hpage hmore hbehind _ ih =>
    cases hother with
    | last hpage' hmore' =>
      cases hpage.symm.trans hpage'
      cases hmore.symm.trans hmore'
    | next hpage' _ hbehind' hwalk' =>
      cases hpage.symm.trans hpage'
      cases UInt64.toNat_inj.mp (hbehind.trans hbehind'.symm)
      rw [ih hwalk']

/-- A walk ends with a page that nothing follows, and it has no other such page. -/
theorem Walk.more_eq {limits : Nat → Option UInt64} {skip : UInt64} {pages : List Page}
    (h : Walk service source limits skip pages) :
    ∃ front final, pages = front ++ [final] ∧ (∀ page ∈ front, page.more = true) ∧
      final.more = false := by
  induction h with
  | last _ hmore => exact ⟨[], _, rfl, List.forall_mem_nil _, hmore⟩
  | next _ hmore _ _ ih =>
    obtain ⟨front, final, rfl, hfront, hfinal⟩ := ih
    exact ⟨_ :: front, final, rfl, List.forall_mem_cons.mpr ⟨hmore, hfront⟩, hfinal⟩

/-- From any place in a result of at most 2^64 rows, the pages make up the rest.  The induction is on
the rows that are left, of which a page takes at least one. -/
theorem exists_walk (hcollection : service.collectionOf source = .ok tree)
    (hrows : (tree.collection.items .none).map Run.rows = .ok (rows.map .ok))
    (hsize : rows.length ≤ 2 ^ 64) (limits : Nat → Option UInt64) (skip : UInt64) :
    ∃ pages, Walk service source limits skip pages ∧
      pages.flatMap Page.rows = rows.drop skip.toNat := by
  induction hleft : (rows.drop skip.toNat).length using Nat.strongRecOn generalizing limits skip with
  | _ left ih =>
    have hpage := pageOf_eq hcollection hrows skip (limits 0)
    have hpositive : 1 ≤ (service.paging.limit (limits 0)).toNat :=
      UInt64.le_iff_toNat_le.mp (service.paging.one_le_limit (limits 0))
    generalize (service.paging.limit (limits 0)).toNat = limit at hpage hpositive
    by_cases hmore : limit < (rows.drop skip.toNat).length
    · have hlength := hmore
      rw [List.length_drop] at hlength hleft
      have hbehind : (UInt64.ofNat (skip.toNat + limit)).toNat = skip.toNat + limit :=
        UInt64.toNat_ofNat_of_lt' (show skip.toNat + limit < 2 ^ 64 by omega)
      have hrest : (rows.drop (UInt64.ofNat (skip.toNat + limit)).toNat).length < left := by
        rw [hbehind, List.length_drop]
        omega
      obtain ⟨pages, hwalk, hpages⟩ :=
        ih _ hrest (fun turn => limits (turn + 1)) (.ofNat (skip.toNat + limit)) rfl
      refine ⟨_, .next hpage (decide_eq_true hmore) ?_ hwalk, ?_⟩
      · rw [hbehind, List.length_take, Nat.min_eq_left (Nat.le_of_lt hmore)]
      · rw [List.flatMap_cons, hpages, hbehind, ← List.drop_drop, List.take_append_drop]
    · refine ⟨_, .last hpage (decide_eq_false hmore), ?_⟩
      rw [List.flatMap_singleton]
      exact List.take_of_length_le (Nat.le_of_not_lt hmore)

/-- A walk ends with a request. -/
theorem Walk.exists_last {limits : Nat → Option UInt64} {skip : UInt64} {pages : List Page}
    (h : Walk service source limits skip pages) : ∃ turn behind tree page,
      service.pageOf ⟨source, behind, limits turn⟩ = .ok (tree, page) ∧ page.more = false := by
  induction h with
  | last hpage hmore => exact ⟨0, _, _, _, hpage, hmore⟩
  | next _ _ _ _ ih =>
    obtain ⟨turn, behind, tree, page, hpage, hmore⟩ := ih
    exact ⟨turn + 1, behind, tree, page, hpage, hmore⟩

/-- A walk can end only if the limit of some page reaches the end from a number of 64 bits. -/
theorem Walk.length_lt (hcollection : service.collectionOf source = .ok tree)
    (hrows : (tree.collection.items .none).map Run.rows = .ok (rows.map .ok))
    {limits : Nat → Option UInt64} {skip : UInt64} {pages : List Page}
    (h : Walk service source limits skip pages) :
    ∃ turn, rows.length < 2 ^ 64 + (service.paging.limit (limits turn)).toNat := by
  obtain ⟨turn, behind, _, page, hpage, hmore⟩ := h.exists_last
  rw [pageOf_eq hcollection hrows] at hpage
  cases hpage
  have hend := of_decide_eq_false hmore
  rw [List.length_drop] at hend
  have hbehind := behind.toNat_lt
  exact ⟨turn, by omega⟩

/-- The pages come to an end and make up the result, whatever limits are requested, exactly for the
results of at most 2^64 rows.  Nothing follows the last page, and something follows each of the
others. -/
theorem pages_tile_iff (hcollection : service.collectionOf source = .ok tree)
    (hrows : (tree.collection.items .none).map Run.rows = .ok (rows.map .ok)) :
    (∀ limits, ∃ front final, Walk service source limits 0 (front ++ [final]) ∧
      (∀ others, Walk service source limits 0 others → others = front ++ [final]) ∧
      (front ++ [final]).flatMap Page.rows = rows ∧ (∀ page ∈ front, page.more = true) ∧
      final.more = false) ↔ rows.length ≤ 2 ^ 64 := by
  constructor
  · intro h
    obtain ⟨_, _, hwalk, _⟩ := h fun _ => some 1
    obtain ⟨_, hlength⟩ := hwalk.length_lt hcollection hrows
    rw [Paging.limit_one] at hlength
    exact Nat.le_of_lt_succ hlength
  · intro hsize limits
    obtain ⟨pages, hwalk, hpages⟩ := exists_walk hcollection hrows hsize limits 0
    obtain ⟨front, final, rfl, hfront, hfinal⟩ := hwalk.more_eq
    exact ⟨front, final, hwalk, fun _ hother => hwalk.unique hother, hpages, hfront, hfinal⟩

/-- A section of empty rows. -/
def blanks (count : Nat) : Stored :=
  Stored.ofTuples "d.s" [] ((List.range count).map fun position => (.ofPosition position, [])) []

/-- The service of such a section. -/
def ofBlanks (count : Nat) (paging : Paging) : Service :=
  ⟨.ofSection (blanks count), paging, fun _ => "no pair of keys"⟩

/-- Pages of at most three of the four rows of a product. -/
theorem pages_tile_iff_of_product :
    ∃ tree rows, collectionOf (ofBlanks 2 ⟨2, 3⟩) "product(d.s,d.s)" = .ok tree ∧
      (tree.collection.items .none).map Run.rows = .ok (rows.map .ok) ∧ rows.length = 4 ∧
      ((∀ limits, ∃ front final,
        Walk (ofBlanks 2 ⟨2, 3⟩) "product(d.s,d.s)" limits 0 (front ++ [final]) ∧
        (∀ others, Walk (ofBlanks 2 ⟨2, 3⟩) "product(d.s,d.s)" limits 0 others →
          others = front ++ [final]) ∧
        (front ++ [final]).flatMap Page.rows = rows ∧ (∀ page ∈ front, page.more = true) ∧
        final.more = false) ↔ rows.length ≤ 2 ^ 64) := by
  have hcollection : collectionOf (ofBlanks 2 ⟨2, 3⟩) "product(d.s,d.s)" =
      .ok (.product (.leaf (blanks 2).toCollection) (.leaf (blanks 2).toCollection)) :=
    collectionOf_eq_ok (compile_eq_ok_iff.mpr
      ⟨.table (.product (.collection "d" "s") (.collection "d" "s")), by decide +kernel, rfl⟩) rfl
  have hrows : ((Operator.product (.leaf (blanks 2).toCollection)
      (.leaf (blanks 2).toCollection)).collection.items .none).map Run.rows =
        .ok ([(.name "[0,0]", .object []), (.name "[0,1]", .object []), (.name "[1,0]", .object []),
          (.name "[1,1]", .object [])].map .ok) := by
    decide +kernel
  exact ⟨_, _, hcollection, hrows, rfl, pages_tile_iff hcollection hrows⟩

/-! ## A result that is too long -/

/-- A tuple and its key as a row. -/
def tupleRow (row : Key × Tuple) : Row := (row.1, .object row.2)

theorem exists_productRows (schema : MergedSchema) (left right : List (Key × Tuple)) :
    ∃ made : List (Key × Tuple), made.length = left.length * right.length ∧
      productRows schema (left.map fun row => .ok (tupleRow row))
        (right.map fun row => .ok (tupleRow row)) = made.map fun row => .ok (tupleRow row) := by
  refine ⟨left.flatMap fun a => right.map fun b =>
    (.pair a.1 b.1, schema.mergeTuples a.2 (some b.2)), ?_, ?_⟩
  · simp [List.length_flatMap]
  · simp only [productRows, List.flatMap_map, List.map_flatMap, List.map_map]
    congr 1

/-- The product of a section with itself, so many times. -/
def powerTable : Nat → Table
  | 0 => .collection "d" "s"
  | times + 1 => .product (.collection "d" "s") (powerTable times)

/-- The tree that such a product builds. -/
def powerTree (stored : Stored) : Nat → Operator
  | 0 => .leaf stored.toCollection
  | times + 1 => .product (.leaf stored.toCollection) (powerTree stored times)

theorem legible_powerTable (stored : Stored) (times : Nat) :
    (powerTable times).Legible (Registry.ofSection stored).has := by
  have hsection : (Table.collection "d" "s").Legible (Registry.ofSection stored).has :=
    ⟨rfl, by decide +kernel, by decide +kernel⟩
  induction times with
  | zero => exact hsection
  | succ times ih => exact ⟨hsection, ih⟩

theorem build_powerTable (stored : Stored) (hkind : stored.kind.hasTuples = true) (times : Nat) :
    (powerTable times).build (Registry.ofSection stored).catalog = .ok (powerTree stored times) ∧
      (powerTree stored times).collection.kind.hasTuples = true := by
  have hsection : (Table.collection "d" "s").build (Registry.ofSection stored).catalog =
      .ok (.leaf stored.toCollection) := rfl
  induction times with
  | zero => exact ⟨hsection, hkind⟩
  | succ times ih =>
    have hcross : Operator.cross (.leaf stored.toCollection) (powerTree stored times) =
        .ok (powerTree stored (times + 1)) := Operator.cross_eq_ok_iff.mpr ⟨hkind, ih.2, rfl⟩
    exact ⟨bind_eq_ok_iff.mpr ⟨_, hsection, bind_eq_ok_iff.mpr ⟨_, ih.1, hcross⟩⟩, rfl⟩

theorem compile_powerTable (stored : Stored) (hkind : stored.kind.hasTuples = true) (times : Nat) :
    compile (Registry.ofSection stored).catalog (powerTable times).text =
      .ok (.table (powerTree stored times)) := by
  have hparse := parse_text_table (legible_powerTable stored times)
  have hbuild := (build_powerTable stored hkind times).1
  exact compile_eq_ok_iff.mpr ⟨_, hparse, bind_eq_ok_iff.mpr ⟨_, hbuild, rfl⟩⟩

theorem exists_rows_powerTree (count times : Nat) : ∃ made : List (Key × Tuple),
    made.length = count ^ (times + 1) ∧
      (powerTree (blanks count) times).rows = made.map fun row => .ok (tupleRow row) := by
  obtain ⟨left, hlength, hleft⟩ : ∃ left : List (Key × Tuple), left.length = count ∧
      (blanks count).toCollection.rows = left.map fun row => .ok (tupleRow row) := by
    refine ⟨(List.range count).map fun position => (.ofPosition position, []), by simp, ?_⟩
    rw [(Collection.Delivers.stored (blanks count)).rows_eq]
    exact List.map_map
  induction times with
  | zero => exact ⟨left, by rw [hlength, Nat.zero_add, Nat.pow_one], hleft⟩
  | succ times ih =>
    obtain ⟨right, hpower, hright⟩ := ih
    obtain ⟨made, hmade, hproduct⟩ := exists_productRows
      (Operator.mergedSchema (.leaf (blanks count).toCollection) (powerTree (blanks count) times)) left
      right
    refine ⟨made, by rw [hmade, hlength, hpower, ← Nat.pow_succ'], ?_⟩
    rw [← hproduct, ← hright, ← hleft]
    rfl

/-- The product of nine sections of 256 rows. -/
def longQuery : String :=
  "product(d.s,product(d.s,product(d.s,product(d.s,product(d.s,product(d.s,product(d.s,product(d.s,d.s))))))))"

/-- A result of 2^72 rows has pages without end: the rows from 2^64 on cannot be asked for, since no
request counts that far. -/
theorem pages_do_not_end :
    ∃ (tree : Operator) (rows : List Row),
      collectionOf (ofBlanks 256 {}) longQuery = .ok tree ∧
      (tree.collection.items .none).map Run.rows = .ok (rows.map .ok) ∧ rows.length = 2 ^ 72 ∧
      (∀ limits, ¬∃ pages, Walk (ofBlanks 256 {}) longQuery limits 0 pages) ∧
      PageParameters.ofPairs [("q", longQuery), ("skip", "18446744073709551616"), ("limit", "1")] =
        .error (.number .tooLarge) := by
  have htext : longQuery = (powerTable 8).text := by decide +kernel
  have hcollection : collectionOf (ofBlanks 256 {}) longQuery =
      .ok (powerTree (blanks 256) 8) := by
    rw [htext]
    exact collectionOf_eq_ok (compile_powerTable _ rfl 8) rfl
  obtain ⟨made, hpower, hmade⟩ := exists_rows_powerTree 256 8
  have hlength : made.length = 2 ^ 72 := hpower.trans (by decide)
  have hrows : ((powerTree (blanks 256) 8).collection.items .none).map Run.rows =
      .ok ((made.map tupleRow).map .ok) := by
    rw [((built_of_collectionOf hcollection).delivers fun _ => InMemory.delivers).items, hmade,
      List.map_map]
    rfl
  refine ⟨_, _, hcollection, hrows, by rw [List.length_map, hlength], ?_, rfl⟩
  rintro limits ⟨pages, hwalk⟩
  obtain ⟨turn, hshort⟩ := hwalk.length_lt hcollection hrows
  have hlimit := ((ofBlanks 256 {}).paging.limit (limits turn)).toNat_lt
  rw [List.length_map, hlength] at hshort
  omega

end Service

end TableQuery
