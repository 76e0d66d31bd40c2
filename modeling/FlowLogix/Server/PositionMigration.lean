/-
  Server/PositionMigration.lean --- the migration of the positions
  (backend/src/database/migrations/1785000000000-MigratePositionIdxToFractional.ts).

  Both directions add a column, fill it for one parent after the other in the order of
  its rows, and put it in the place of the old one.  A migration runs in one transaction
  and its first statement locks the table, so nothing else is written meanwhile.

  `replaceColumn_order` is why nothing moves: values that ascend along the old order make
  it the new one.

  Text sorts by the collation of its column; `collate` maps a text to what it sorts by.
-/
import FlowLogix.Foundation.PartitionedWrites
import FlowLogix.Foundation.SortByKey
import FlowLogix.Server.RebalanceOrder

set_option autoImplicit false

namespace FlowLogix.Server

open FlowLogix.Foundation FlowLogix.Ordering

/-! ## Tables -/

/-- A `double precision`: minus infinity, a number, infinity, and NaN, which sorts last. -/
abbrev DoublePrecision : Type := WithBot (WithTop (WithTop ℚ))

/-- A row number as a `double precision`.  It is exact: no table has 2^53 rows. -/
def DoublePrecision.ofNat (n : Nat) : DoublePrecision :=
  (((n : ℚ) : WithTop ℚ) : WithTop (WithTop ℚ))

/-- A row of `lists` or `cards`: its board or list is its parent. -/
structure PositionRow (Position : Type) where
  id : JsString
  parent : JsString
  position : Position
  createdAt : Int

/-- `lists` or `cards`. -/
structure PositionTable (Position : Type) where
  rows : List (PositionRow Position)
  /-- the primary key -/
  ids : (rows.map PositionRow.id).Nodup
  /-- a table has fewer than 2^32 pages, of at most 291 rows each -/
  size : rows.length < 2 ^ 41

variable {P Q S T : Type}

/-- The row with another position. -/
def PositionRow.withPosition (row : PositionRow P) (position : Q) : PositionRow Q where
  id := row.id
  parent := row.parent
  position := position
  createdAt := row.createdAt

namespace PositionTable

/-- The parents that have a row, `SELECT DISTINCT`. -/
def parents (table : PositionTable P) : List JsString :=
  (table.rows.map PositionRow.parent).dedup

/-- The rows of a parent. -/
def children (table : PositionTable P) (parent : JsString) : List (PositionRow P) :=
  table.rows.filter fun row => row.parent = parent

section

variable [LinearOrder S]

/-- What a row sorts by; its position sorts by `rank`. -/
def sortKey (rank : P → S) (row : PositionRow P) : S ×ₗ Int ×ₗ JsString :=
  toLex (rank row.position, toLex (row.createdAt, row.id))

/-- The rows of a parent, `ORDER BY position_idx ASC, created_at ASC, id ASC`. -/
def orderedRows (rank : P → S) (table : PositionTable P) (parent : JsString) :
    List (PositionRow P) :=
  sortByKey (sortKey rank) (table.children parent)

/-- Their ids. -/
def orderedIds (rank : P → S) (table : PositionTable P) (parent : JsString) : List JsString :=
  (table.orderedRows rank parent).map PositionRow.id

/-- The ids of a parent's rows, `ORDER BY position_idx ASC`. -/
def idsByPosition (rank : P → S) (table : PositionTable P) (parent : JsString) : List JsString :=
  (sortByKey (fun row => rank row.position) (table.children parent)).map PositionRow.id

end

/-- The rows with the values of a column that holds one for each. -/
def refilled (rows : List (PositionRow P)) (column : Dict JsString Q) : List (PositionRow Q) :=
  rows.filterMap fun row => (column.lookup row.id).map row.withPosition

theorem map_id_refilled (rows : List (PositionRow P)) (column : Dict JsString Q) :
    (refilled rows column).map PositionRow.id =
      (rows.filter fun row => (column.lookup row.id).isSome).map PositionRow.id := by
  unfold refilled
  induction rows with
  | nil => rfl
  | cons row rest ih =>
      cases h : column.lookup row.id with
      | none => simpa [h] using ih
      | some v => simpa [h, PositionRow.withPosition] using ih

/-- The column takes the place of the old one: `SET NOT NULL`, `DROP COLUMN` and
`RENAME COLUMN`. -/
def replaceColumn (table : PositionTable P) (column : Dict JsString Q) :
    Except Failure (PositionTable Q) :=
  if table.rows.all fun row => (column.lookup row.id).isSome then
    .ok
      { rows := refilled table.rows column
        ids := by
          rw [map_id_refilled]
          exact (List.filter_sublist.map _).nodup table.ids
        size := (List.length_filterMap_le _ _).trans_lt table.size }
  else .error .rejectedStatement

end PositionTable

/-! ## The code -/

namespace MigratePositionIdxToFractional

open PositionTable

/-- The loop body of `toFractional`: one parent's rows get evenly spaced keys. -/
def backfill (table : PositionTable DoublePrecision) (column : Dict JsString JsString)
    (parent : JsString) : Except Failure (Dict JsString JsString) := do
  let ids := table.orderedIds id parent
  if ids.length = 0 then return column
  let keys ← (base62.rebalance ids.length).mapError .error
  if keys.all fun key => charLength key ≤ 255 then return column.writeZip ids keys
  throw .rejectedStatement

/-- `toFractional`: double precision to key. -/
def toFractional (table : PositionTable DoublePrecision) :
    Except Failure (PositionTable JsString) := do
  let column ← table.parents.foldlM (backfill table) ∅
  table.replaceColumn column

/-- `row_number()` over a parent's rows. -/
def rowNumbers (n : Nat) : List DoublePrecision :=
  (List.range' 1 n).map DoublePrecision.ofNat

/-- `toNumeric`: key to double precision, by rank within the parent. -/
def toNumeric [LinearOrder T] (collate : JsString → T) (table : PositionTable JsString) :
    Except Failure (PositionTable DoublePrecision) :=
  table.replaceColumn (Dict.writePartitions (table.orderedIds collate)
    (fun parent => rowNumbers (table.orderedIds collate parent).length) table.parents ∅)

/-- The two tables the migration is about. -/
structure PositionTables (Position : Type) where
  lists : PositionTable Position
  cards : PositionTable Position

def up (tables : PositionTables DoublePrecision) : Except Failure (PositionTables JsString) := do
  let lists ← toFractional tables.lists
  let cards ← toFractional tables.cards
  return ⟨lists, cards⟩

def down [LinearOrder T] (collate : JsString → T) (tables : PositionTables JsString) :
    Except Failure (PositionTables DoublePrecision) := do
  let lists ← toNumeric collate tables.lists
  let cards ← toNumeric collate tables.cards
  return ⟨lists, cards⟩

end MigratePositionIdxToFractional

/-! ## The order of a parent -/

namespace PositionTable

variable {table : PositionTable P} {table' : PositionTable Q} {parent : JsString}
  {row row' : PositionRow P} {column : Dict JsString Q}

theorem mem_children :
    row ∈ table.children parent ↔ row ∈ table.rows ∧ row.parent = parent := by
  simp [children]

theorem eq_of_id (hrow : row ∈ table.rows) (hrow' : row' ∈ table.rows) (hid : row.id = row'.id) :
    row = row' :=
  List.inj_on_of_nodup_map table.ids hrow hrow' hid

theorem nodup_children (table : PositionTable P) (parent : JsString) :
    ((table.children parent).map PositionRow.id).Nodup :=
  (List.filter_sublist.map _).nodup table.ids

section

variable [LinearOrder S] {rank : P → S}

theorem mem_orderedRows : row ∈ table.orderedRows rank parent ↔
    row ∈ table.rows ∧ row.parent = parent := by
  rw [orderedRows, mem_sortByKey, mem_children]

theorem nodup_orderedIds (table : PositionTable P) (parent : JsString) :
    (table.orderedIds rank parent).Nodup :=
  ((sortByKey_perm _ _).map _).nodup_iff.mpr (table.nodup_children parent)

/-- A row has one parent. -/
theorem parent_unique {parent parent' id : JsString} (h : id ∈ table.orderedIds rank parent)
    (h' : id ∈ table.orderedIds rank parent') : parent = parent' := by
  obtain ⟨row, hrow, rfl⟩ := List.mem_map.mp h
  obtain ⟨row', hrow', hid⟩ := List.mem_map.mp h'
  obtain ⟨hmem, rfl⟩ := mem_orderedRows.mp hrow
  obtain ⟨hmem', rfl⟩ := mem_orderedRows.mp hrow'
  rw [eq_of_id hmem' hmem hid]

/-- A parent without rows is not read. -/
theorem orderedIds_eq_nil (rank : P → S) (h : parent ∉ table.parents) :
    table.orderedIds rank parent = [] := by
  rw [List.eq_nil_iff_forall_not_mem]
  intro id hid
  obtain ⟨row, hrow, -⟩ := List.mem_map.mp hid
  obtain ⟨hmem, rfl⟩ := mem_orderedRows.mp hrow
  exact h (List.mem_dedup.mpr (List.mem_map_of_mem hmem))

omit [LinearOrder S] in
/-- The id is part of the key, so no two rows tie. -/
theorem nodup_sortKey (rank : P → S) (table : PositionTable P) (parent : JsString) :
    ((table.children parent).map (sortKey rank)).Nodup := by
  refine List.Nodup.map_on (fun row hrow row' hrow' h => ?_)
    (List.Nodup.of_map _ (table.nodup_children parent))
  have hid : row.id = row'.id := congrArg (fun k => (ofLex (ofLex k).2).2) h
  exact eq_of_id (mem_children.mp hrow).1 (mem_children.mp hrow').1 hid

/-- A strictly ascending rank decides the order. -/
theorem orderedRows_eq {rows : List (PositionRow P)} (hperm : rows.Perm (table.children parent))
    (hrank : rows.Pairwise fun a b => rank a.position < rank b.position) :
    table.orderedRows rank parent = rows ∧
      sortByKey (fun row => rank row.position) (table.children parent) = rows := by
  constructor
  · refine sortByKey_eq_of_perm (nodup_sortKey rank table parent) hperm (hrank.imp fun h => ?_)
    exact (Prod.Lex.toLex_lt_toLex.mpr (Or.inl h)).le
  · refine sortByKey_eq_of_perm ?_ hperm (hrank.imp fun h => h.le)
    have hnodup : (rows.map fun row => rank row.position).Nodup :=
      List.pairwise_map.mpr (hrank.imp fun h => h.ne)
    exact ((hperm.map _).nodup_iff).mp hnodup

end

/-! ## The replaced column -/

/-- What both columns see of a row. -/
def PositionRow.kept (row : PositionRow P) : JsString × JsString × Int :=
  (row.id, row.parent, row.createdAt)

/-- The same rows but for their positions, in the same order. -/
structure SameOrder [LinearOrder S] [LinearOrder T] (rank : P → S) (rank' : Q → T)
    (table : PositionTable P) (table' : PositionTable Q) : Prop where
  rows : table'.rows.map PositionRow.kept = table.rows.map PositionRow.kept
  order : ∀ parent, table'.orderedIds rank' parent = table.orderedIds rank parent

theorem SameOrder.trans {R U : Type} [LinearOrder S] [LinearOrder T] [LinearOrder U]
    {rank : P → S} {rank' : Q → T} {rank'' : R → U} {table'' : PositionTable R}
    (h : SameOrder rank rank' table table') (h' : SameOrder rank' rank'' table' table'') :
    SameOrder rank rank'' table table'' where
  rows := h'.rows.trans h.rows
  order parent := (h'.order parent).trans (h.order parent)

theorem map_refilled {β : Type} {rows : List (PositionRow P)} {g : PositionRow P → β}
    {g' : PositionRow Q → β} (hg : ∀ row v, g' (row.withPosition v) = g row)
    (h : ∀ row ∈ rows, (column.lookup row.id).isSome = true) :
    (refilled rows column).map g' = rows.map g := by
  unfold refilled
  induction rows with
  | nil => rfl
  | cons row rest ih =>
      obtain ⟨hrow, hrest⟩ := List.forall_mem_cons.mp h
      obtain ⟨v, hv⟩ := Option.isSome_iff_exists.mp hrow
      rw [List.filterMap_cons_some (by rw [hv, Option.map_some]), List.map_cons, List.map_cons, hg,
        ih hrest]

theorem map_position_refilled (rows : List (PositionRow P)) (column : Dict JsString Q) :
    (refilled rows column).map PositionRow.position =
      ((rows.map PositionRow.id).map column.lookup).filterMap id := by
  rw [refilled, List.map_filterMap, List.map_map, List.filterMap_map]
  congr 1
  funext row
  change ((column.lookup row.id).map row.withPosition).map PositionRow.position =
    column.lookup row.id
  cases column.lookup row.id <;> rfl

theorem children_refilled (h : table'.rows = refilled table.rows column) (parent : JsString) :
    table'.children parent = refilled (table.children parent) column := by
  rw [children, children, h, refilled, refilled, List.filter_filterMap, List.filterMap_filter]
  congr 1
  funext row
  cases column.lookup row.id with
  | none => simp
  | some v => simp [PositionRow.withPosition, Option.filter]

theorem exists_replaceColumn (h : ∀ row ∈ table.rows, (column.lookup row.id).isSome = true) :
    ∃ table', table.replaceColumn column = .ok table' ∧
      table'.rows = refilled table.rows column :=
  ⟨_, if_pos (List.all_eq_true.mpr h), rfl⟩

section Written

variable [LinearOrder S] {rank : P → S} {values : JsString → List Q}

/-- The rows of a parent, in order, are given its values. -/
theorem map_lookup_written
    (hlength : ∀ parent, (values parent).length = (table.orderedIds rank parent).length)
    (parent : JsString) :
    (table.orderedIds rank parent).map
        (Dict.writePartitions (table.orderedIds rank) values table.parents ∅).lookup =
      (values parent).map some := by
  by_cases hparent : parent ∈ table.parents
  · exact Dict.map_lookup_writePartitions (table.nodup_orderedIds ·) hlength
      (fun _ _ _ => parent_unique) hparent ∅
  · have hids := orderedIds_eq_nil rank hparent
    have hvalues : values parent = [] :=
      List.eq_nil_of_length_eq_zero ((hlength parent).trans (by rw [hids, List.length_nil]))
    rw [hids, hvalues]
    rfl

/-- So no row is left without one. -/
theorem isSome_lookup_of_values
    (hcolumn : ∀ parent, (table.orderedIds rank parent).map column.lookup =
      (values parent).map some) {row : PositionRow P} (hrow : row ∈ table.rows) :
    (column.lookup row.id).isSome = true := by
  have hmem : row.id ∈ table.orderedIds rank row.parent :=
    List.mem_map_of_mem (mem_orderedRows.mpr ⟨hrow, rfl⟩)
  have hlookup : column.lookup row.id ∈ (values row.parent).map some :=
    hcolumn row.parent ▸ List.mem_map_of_mem hmem
  obtain ⟨v, -, hv⟩ := List.mem_map.mp hlookup
  exact Option.isSome_of_eq_some hv.symm

/-- The new positions of a parent's rows, in the old order. -/
theorem map_position_orderedRows {parent : JsString}
    (hcolumn : (table.orderedIds rank parent).map column.lookup = (values parent).map some) :
    (refilled (table.orderedRows rank parent) column).map PositionRow.position =
      values parent := by
  have hlookups : ((table.orderedRows rank parent).map PositionRow.id).map column.lookup =
      (values parent).map some := hcolumn
  rw [map_position_refilled, hlookups, List.filterMap_map]
  exact List.filterMap_some

end Written

/-- Values that ascend along the order of each parent keep it. -/
theorem replaceColumn_order [LinearOrder S] [LinearOrder T] {rank : P → S} {rank' : Q → T}
    {values : JsString → List Q}
    (hlength : ∀ parent, (values parent).length = (table.orderedIds rank parent).length)
    (hascending : ∀ parent, (values parent).Pairwise fun a b => rank' a < rank' b) :
    ∃ table', table.replaceColumn
        (Dict.writePartitions (table.orderedIds rank) values table.parents ∅) = .ok table' ∧
      SameOrder rank rank' table table' ∧
      ∀ parent, table'.idsByPosition rank' parent = table.orderedIds rank parent ∧
        (table'.orderedRows rank' parent).map PositionRow.position = values parent := by
  have hcolumn := map_lookup_written hlength
  generalize Dict.writePartitions (table.orderedIds rank) values table.parents ∅ = column at hcolumn
  have hfilled : ∀ row ∈ table.rows, (column.lookup row.id).isSome = true :=
    fun row hrow => isSome_lookup_of_values hcolumn hrow
  obtain ⟨table', hok, hrows⟩ := exists_replaceColumn hfilled
  refine ⟨table', hok, ?_⟩
  -- the new rows of a parent, in the old order
  have hids : ∀ parent, (refilled (table.orderedRows rank parent) column).map PositionRow.id =
      table.orderedIds rank parent :=
    fun parent => map_refilled (fun _ _ => rfl) fun row hrow =>
      hfilled row (mem_orderedRows.mp hrow).1
  have hpositions : ∀ parent, (refilled (table.orderedRows rank parent) column).map
      PositionRow.position = values parent :=
    fun parent => map_position_orderedRows (hcolumn parent)
  have hordered : ∀ parent, table'.orderedRows rank' parent =
        refilled (table.orderedRows rank parent) column ∧
      sortByKey (fun row => rank' row.position) (table'.children parent) =
        refilled (table.orderedRows rank parent) column := by
    intro parent
    refine orderedRows_eq ?_ ?_
    · rw [children_refilled hrows]
      exact (sortByKey_perm _ _).filterMap _
    · rw [← List.pairwise_map (f := PositionRow.position) (R := fun a b => rank' a < rank' b),
        hpositions]
      exact hascending parent
  refine ⟨⟨?_, fun parent => ?_⟩, fun parent => ⟨?_, ?_⟩⟩
  · rw [hrows]
    exact map_refilled (fun _ _ => rfl) hfilled
  · rw [orderedIds, (hordered parent).1, hids]
  · rw [idsByPosition, (hordered parent).2, hids]
  · rw [(hordered parent).1, hpositions]

end PositionTable

/-! ## Both directions -/

namespace MigratePositionIdxToFractional

open PositionTable

theorem DoublePrecision.ofNat_lt {m n : Nat} :
    DoublePrecision.ofNat m < DoublePrecision.ofNat n ↔ m < n := by
  rw [DoublePrecision.ofNat, DoublePrecision.ofNat, WithBot.coe_lt_coe, WithTop.coe_lt_coe,
    WithTop.coe_lt_coe, Nat.cast_lt]

theorem length_rowNumbers (n : Nat) : (rowNumbers n).length = n := by
  rw [rowNumbers, List.length_map, List.length_range']

theorem rowNumbers_ascending (n : Nat) : (rowNumbers n).Pairwise fun a b => id a < id b :=
  List.pairwise_map.mpr (List.Pairwise.imp DoublePrecision.ofNat_lt.mpr List.pairwise_lt_range')

/-- The keys of a parent with so many rows. -/
theorem exists_keys (table : PositionTable DoublePrecision) (parent : JsString) :
    ∃ keys, base62.rebalance (table.orderedIds id parent).length = .ok keys ∧
      keys.length = (table.orderedIds id parent).length ∧
      PositionRebalanceService.FreshKeys keys := by
  have hlength : (table.orderedIds id parent).length ≤ table.rows.length := by
    rw [orderedIds, List.length_map, orderedRows, (sortByKey_perm _ _).length_eq]
    exact List.length_filter_le _ _
  have hroom : 2 * ((table.orderedIds id parent).length + 1) ≤ 62 ^ 8 := by
    have hsize := table.size
    omega
  obtain ⟨keys, hkeys⟩ := exists_rebalancedKeys hroom
  exact ⟨keys, hkeys, PositionRebalanceService.freshKeys_of_rebalancedKeys hkeys⟩

theorem backfill_eq_ok {table : PositionTable DoublePrecision} {parent : JsString}
    {keys : List JsString} (hkeys : base62.rebalance (table.orderedIds id parent).length = .ok keys)
    (hfresh : PositionRebalanceService.FreshKeys keys) (column : Dict JsString JsString) :
    backfill table column parent = .ok (column.writeZip (table.orderedIds id parent) keys) := by
  have hfits : keys.all (fun key => charLength key ≤ 255) = true := by
    refine List.all_eq_true.mpr fun key hkey => decide_eq_true ?_
    have hshort := hfresh.short key hkey
    exact (charLength_le_length key).trans (by omega)
  unfold backfill
  dsimp only
  split
  · rename_i hnone
    rw [List.eq_nil_of_length_eq_zero hnone]
    rfl
  · rw [hkeys]
    exact if_pos hfits

/-- Columns that order valid keys like their code units. -/
def KeyCollation [LinearOrder T] (collate : JsString → T) : Prop :=
  ∀ a b, PositionService.isValid a = true → PositionService.isValid b = true → a < b →
    collate a < collate b

variable [LinearOrder T] {collate : JsString → T}

/-- What `toFractional` makes of a table. -/
structure Keyed (collate : JsString → T) (table : PositionTable DoublePrecision)
    (keyed : PositionTable JsString) : Prop where
  same : SameOrder id collate table keyed
  valid : ∀ row ∈ keyed.rows, PositionService.isValid row.position = true
  distinct : ∀ parent, ((keyed.children parent).map PositionRow.position).Nodup
  byKey : ∀ parent, keyed.idsByPosition collate parent = table.orderedIds id parent

/-- What `toNumeric` makes of a table. -/
structure Numbered (collate : JsString → T) (keyed : PositionTable JsString)
    (table : PositionTable DoublePrecision) : Prop where
  same : SameOrder collate id keyed table
  numbers : ∀ parent, (table.orderedRows id parent).map PositionRow.position =
    rowNumbers (keyed.orderedIds collate parent).length

theorem toFractional_ok (hcollate : KeyCollation collate)
    (table : PositionTable DoublePrecision) :
    ∃ keyed, toFractional table = .ok keyed ∧ Keyed collate table keyed := by
  choose keys hkeys hlength hfresh using exists_keys table
  have hloop : ∀ (parents : List JsString) (column : Dict JsString JsString),
      parents.foldlM (backfill table) column =
        .ok (Dict.writePartitions (table.orderedIds id) keys parents column) := by
    intro parents
    induction parents with
    | nil =>
        intro column
        rfl
    | cons parent rest ih =>
        intro column
        rw [List.foldlM_cons, backfill_eq_ok (hkeys parent) (hfresh parent)]
        exact ih _
  have hascending : ∀ parent, (keys parent).Pairwise fun a b => collate a < collate b := by
    intro parent
    refine (hfresh parent).ascending.imp_of_mem fun {a b} ha hb hlt => ?_
    exact hcollate a b ((hfresh parent).valid a ha) ((hfresh parent).valid b hb) hlt
  obtain ⟨keyed, hkeyed, hsame, hparents⟩ := replaceColumn_order hlength hascending
  have hpositions : ∀ parent, ((keyed.children parent).map PositionRow.position).Perm
      (keys parent) := by
    intro parent
    rw [← (hparents parent).2]
    exact ((sortByKey_perm _ _).map _).symm
  refine ⟨keyed, bind_eq_ok.mpr ⟨_, hloop table.parents ∅, hkeyed⟩, hsame, fun row hrow => ?_,
    fun parent => ?_, fun parent => (hparents parent).1⟩
  · have hmem : row.position ∈ (keyed.children row.parent).map PositionRow.position :=
      List.mem_map_of_mem (mem_children.mpr ⟨hrow, rfl⟩)
    exact (hfresh row.parent).valid _ ((hpositions row.parent).mem_iff.mp hmem)
  · rw [(hpositions parent).nodup_iff]
    exact (hfresh parent).ascending.imp fun h => h.ne

theorem toNumeric_ok (collate : JsString → T) (keyed : PositionTable JsString) :
    ∃ table, toNumeric collate keyed = .ok table ∧ Numbered collate keyed table := by
  obtain ⟨table, htable, hsame, hparents⟩ := replaceColumn_order
    (fun parent => length_rowNumbers (keyed.orderedIds collate parent).length)
    (fun parent => rowNumbers_ascending (keyed.orderedIds collate parent).length)
  exact ⟨table, htable, hsame, fun parent => (hparents parent).2⟩

theorem up_ok (hcollate : KeyCollation collate) (tables : PositionTables DoublePrecision) :
    ∃ keyed, up tables = .ok keyed ∧ Keyed collate tables.lists keyed.lists ∧
      Keyed collate tables.cards keyed.cards := by
  obtain ⟨lists, hlists, hkeyedLists⟩ := toFractional_ok hcollate tables.lists
  obtain ⟨cards, hcards, hkeyedCards⟩ := toFractional_ok hcollate tables.cards
  exact ⟨⟨lists, cards⟩, bind_eq_ok.mpr ⟨lists, hlists, bind_eq_ok.mpr ⟨cards, hcards, rfl⟩⟩,
    hkeyedLists, hkeyedCards⟩

theorem down_ok (collate : JsString → T) (keyed : PositionTables JsString) :
    ∃ tables, down collate keyed = .ok tables ∧ Numbered collate keyed.lists tables.lists ∧
      Numbered collate keyed.cards tables.cards := by
  obtain ⟨lists, hlists, hnumberedLists⟩ := toNumeric_ok collate keyed.lists
  obtain ⟨cards, hcards, hnumberedCards⟩ := toNumeric_ok collate keyed.cards
  exact ⟨⟨lists, cards⟩, bind_eq_ok.mpr ⟨lists, hlists, bind_eq_ok.mpr ⟨cards, hcards, rfl⟩⟩,
    hnumberedLists, hnumberedCards⟩

/-- **The migration keeps the order** of every parent's rows.  Upwards every row gets a valid
key, distinct within its parent, and the keys alone order the rows; downwards they are
numbered from 1 on; and down after up, as up after down, has them in the order they had. -/
theorem migration_keeps_order (hcollate : KeyCollation collate) :
    (∀ table, ∃ keyed numbered, toFractional table = .ok keyed ∧ Keyed collate table keyed ∧
        toNumeric collate keyed = .ok numbered ∧ Numbered collate keyed numbered ∧
        SameOrder id id table numbered) ∧
      (∀ keyed, ∃ numbered keyed', toNumeric collate keyed = .ok numbered ∧
        Numbered collate keyed numbered ∧ toFractional numbered = .ok keyed' ∧
        Keyed collate numbered keyed' ∧ SameOrder collate collate keyed keyed') ∧
      (∀ tables, ∃ keyed numbered, up tables = .ok keyed ∧ down collate keyed = .ok numbered ∧
        SameOrder id id tables.lists numbered.lists ∧
        SameOrder id id tables.cards numbered.cards) ∧
      ∀ keyed, ∃ numbered keyed', down collate keyed = .ok numbered ∧ up numbered = .ok keyed' ∧
        SameOrder collate collate keyed.lists keyed'.lists ∧
        SameOrder collate collate keyed.cards keyed'.cards := by
  refine ⟨fun table => ?_, fun keyed => ?_, fun tables => ?_, fun keyed => ?_⟩
  · obtain ⟨keyed, hup, hkeyed⟩ := toFractional_ok hcollate table
    obtain ⟨numbered, hdown, hnumbered⟩ := toNumeric_ok collate keyed
    exact ⟨keyed, numbered, hup, hkeyed, hdown, hnumbered, hkeyed.same.trans hnumbered.same⟩
  · obtain ⟨numbered, hdown, hnumbered⟩ := toNumeric_ok collate keyed
    obtain ⟨keyed', hup, hkeyed⟩ := toFractional_ok hcollate numbered
    exact ⟨numbered, keyed', hdown, hnumbered, hup, hkeyed, hnumbered.same.trans hkeyed.same⟩
  · obtain ⟨keyed, hup, hlists, hcards⟩ := up_ok hcollate tables
    obtain ⟨numbered, hdown, hlists', hcards'⟩ := down_ok collate keyed
    exact ⟨keyed, numbered, hup, hdown, hlists.same.trans hlists'.same,
      hcards.same.trans hcards'.same⟩
  · obtain ⟨numbered, hdown, hlists, hcards⟩ := down_ok collate keyed
    obtain ⟨keyed', hup, hlists', hcards'⟩ := up_ok hcollate numbered
    exact ⟨numbered, keyed', hdown, hup, hlists.same.trans hlists'.same,
      hcards.same.trans hcards'.same⟩

/-! ### Two rows at one position -/

/-- A list with two cards at position 1, the later one first. -/
def tied : PositionTable DoublePrecision where
  rows := [⟨js "c2", js "l1", .ofNat 1, 20⟩, ⟨js "c1", js "l1", .ofNat 1, 10⟩]
  ids := by decide
  size := by decide

/-- They stay in the order of their creation. -/
theorem tied_keeps_order :
    tied.orderedIds id (js "l1") = [js "c1", js "c2"] ∧
      ∃ keyed numbered, toFractional tied = .ok keyed ∧
        toNumeric (id : JsString → JsString) keyed = .ok numbered ∧
        numbered.orderedIds id (js "l1") = [js "c1", js "c2"] := by
  have hcollate : KeyCollation (id : JsString → JsString) := fun _ _ _ _ hlt => hlt
  have hordered : tied.orderedIds id (js "l1") = [js "c1", js "c2"] := by decide
  obtain ⟨keyed, numbered, hup, -, hdown, -, hsame⟩ := (migration_keeps_order hcollate).1 tied
  exact ⟨hordered, keyed, numbered, hup, hdown, (hsame.order _).trans hordered⟩

end MigratePositionIdxToFractional

end FlowLogix.Server
