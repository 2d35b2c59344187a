import TransDb.Coordinator.Coordinator
import TransDb.Core.InnerJoin
import TransDb.Sql.Database
import TransDb.Sql.Parser

/-!
# The join operators compute one join

Broadcast joins, shuffle joins and the nested loop, over one snapshot of the rows.

* `joinKey`, `joinedRow` — the value of the join column of a row, and two rows as one map.
* `nestedLoopJoin_eq`, `run_runBroadcastJoin`, `run_runShuffleJoin` — each operator in terms of
  `innerJoin`.
* `OnColumn`, `onceColumn` — an `ON` clause that names a column, and names only one.
* `Delivered` — requests whose strings are UTF-8 and that are not too long, with such answers.
* `joins_agree` — **all operators return the same rows**, up to their order.
* `join_keeps_rows` — **joined rows stay when rows are added.**
* `join_swap` — **when `ON x = y` and `ON y = x` are one join.**
-/

namespace TransDb.Sql

open List Storage Txn

/-! ## Names -/

theorem baseColName_qualified {table column : Bytes} (h : 46 ∉ column) :
    baseColName (qualified table column) = column := by
  have htake : (column.reverse ++ 46 :: table.reverse).takeWhile (· ≠ 46) = column.reverse := by
    rw [takeWhile_append_of_pos]
    · simp
    · intro c hc
      rw [mem_reverse] at hc
      exact decide_eq_true fun heq => h (heq ▸ hc)
  rw [baseColName, qualified, reverse_append, reverse_cons, append_assoc,
    singleton_append, htake, reverse_reverse]

theorem qualified_inj {t u c d : Bytes} (hc : 46 ∉ c) (hd : 46 ∉ d)
    (h : qualified t c = qualified u d) : t = u ∧ c = d := by
  have hcd : c = d := by
    have hbase := congrArg baseColName h
    rwa [baseColName_qualified hc, baseColName_qualified hd] at hbase
  subst hcd
  exact ⟨append_cancel_right h, rfl⟩

/-- The name of a column of the table, alone or after the name of the table. -/
def OnColumn (table : TableDef) (name : Bytes) : Prop :=
  ∃ c ∈ table.columns, name = c.name ∨ name = qualified table.name c.name

/-- Only one column of the table has this name. -/
def onceColumn (table : TableDef) (name : Bytes) : Bool :=
  (table.columns.map ColumnDef.name).count (baseColName name) = 1

variable {table : TableDef}

theorem plain_of_mem (h : plainNames table = true) {c : ColumnDef}
    (hc : c ∈ table.columns) : 46 ∉ c.name := by
  simpa using all_eq_true.mp h c hc

theorem OnColumn.baseColName {name : Bytes} (h : OnColumn table name)
    (hplain : plainNames table = true) : ∃ c ∈ table.columns, baseColName name = c.name := by
  obtain ⟨c, hc, rfl | rfl⟩ := h
  · exact ⟨c, hc, baseColName_of_plain (plain_of_mem hplain hc)⟩
  · exact ⟨c, hc, baseColName_qualified (plain_of_mem hplain hc)⟩

/-! ## Cells by name -/

/-- The names of the columns with the cells of a row. -/
def cellPairs (table : TableDef) (cells : List Bytes) : List (Bytes × Bytes) :=
  (table.columns.map ColumnDef.name).zip cells

theorem lookup_zip (names cells : List Bytes) (name : Bytes) :
    (names.zip cells).lookup name =
      (names.findIdx? fun n => decide (n = name)).bind fun i => cells[i]? := by
  induction names generalizing cells with
  | nil => rfl
  | cons n names ih =>
    cases cells with
    | nil => simp
    | cons cell cells =>
      rw [zip_cons_cons, lookup_cons, ih, findIdx?_cons]
      by_cases hn : n = name
      · simp [hn]
      · have hbeq : (name == n) = false := beq_eq_false_iff_ne.mpr (Ne.symm hn)
        simp only [hbeq, hn, decide_false, Bool.false_eq_true, if_false]
        cases names.findIdx? fun n => decide (n = name) <;> rfl

theorem findIdx?_names (table : TableDef) (name : Bytes) :
    (table.columns.map ColumnDef.name).findIdx? (fun n => decide (n = name)) =
      columnIndex table name := by
  rw [findIdx?_map]
  rfl

/-- The cell of the join column is that of the first column of its name. -/
theorem cellValueForJoinColumn_eq (table : TableDef) (cells : List Bytes) (name : Bytes) :
    cellValueForJoinColumn table cells name =
      ((cellPairs table cells).lookup (baseColName name)).getD [] := by
  rw [cellPairs, lookup_zip, findIdx?_names]
  rfl

/-- Where a key occurs once, it does not matter from where one looks. -/
theorem lookup_reverse {l : List (Bytes × Bytes)} {k : Bytes} (h : (l.map Prod.fst).count k ≤ 1) :
    l.reverse.lookup k = l.lookup k := by
  induction l with
  | nil => rfl
  | cons x l ih =>
    rw [map_cons, count_cons] at h
    rw [reverse_cons, lookup_append]
    by_cases hx : x.1 = k
    · -- the rest does not have the key
      have hzero : (l.map Prod.fst).count k = 0 := by simpa [hx] using h
      have hnone : l.reverse.lookup k = none := by
        refine lookup_eq_none_iff.mpr fun y hy => ?_
        rw [mem_reverse] at hy
        rw [bne_iff_ne]
        rintro rfl
        exact count_eq_zero.mp hzero (mem_map_of_mem hy)
      rw [hnone, Option.none_or, lookup_cons_eq, lookup_cons_eq, if_pos hx, if_pos hx]
    · have hle : (l.map Prod.fst).count k ≤ 1 := by simpa [hx] using h
      rw [ih hle, lookup_cons_eq, lookup_cons_eq, if_neg hx, if_neg hx]
      exact Option.or_none

/-- Looking up a name among the columns of a row, where it stands for the name `column`. -/
theorem lookup_rowColumns {cells : List Bytes} {name column : Bytes}
    (h : ∀ c ∈ table.columns, (c.name = name ∨ qualified table.name c.name = name) ↔
      c.name = column) :
    (rowColumns table cells).reverse.lookup name =
      (cellPairs table cells).reverse.lookup column := by
  have hall : ∀ x ∈ cellPairs table cells, (x.1 = name ∨ qualified table.name x.1 = name) ↔
      x.1 = column := by
    intro x hx
    obtain ⟨c, hc, hcx⟩ := mem_map.mp (of_mem_zip hx).1
    rw [← hcx]
    exact h c hc
  have hcols : rowColumns table cells = (cellPairs table cells).flatMap fun x =>
      [(x.1, x.2), (qualified table.name x.1, x.2)] := rfl
  rw [hcols]
  generalize cellPairs table cells = l at hall
  induction l with
  | nil => rfl
  | cons x l ih =>
    obtain ⟨hx, hl⟩ := forall_mem_cons.mp hall
    have hpair : [(x.1, x.2), (qualified table.name x.1, x.2)].reverse.lookup name =
        if x.1 = name ∨ qualified table.name x.1 = name then some x.2 else none := by
      have hrev : [(x.1, x.2), (qualified table.name x.1, x.2)].reverse =
          [(qualified table.name x.1, x.2), (x.1, x.2)] := rfl
      rw [hrev, lookup_cons_eq, lookup_cons_eq]
      by_cases h2 : qualified table.name x.1 = name
      · rw [if_pos h2, if_pos (.inr h2)]
      · by_cases h1 : x.1 = name
        · rw [if_neg h2, if_pos h1, if_pos (.inl h1)]
        · rw [if_neg h2, if_neg h1, if_neg (not_or.mpr ⟨h1, h2⟩)]
          rfl
    rw [flatMap_cons, reverse_append, lookup_append, ih hl, hpair]
    rw [reverse_cons, lookup_append, lookup_cons_eq]
    simp only [hx]
    rfl

/-! ## Two rows as one -/

section Joined

variable {other : TableDef} {cells : List Bytes} {name : Bytes}

theorem lookup_rowColumns_of_onColumn (hplain : plainNames table = true) (hon : OnColumn table name) :
    (rowColumns table cells).reverse.lookup name =
      (cellPairs table cells).reverse.lookup (baseColName name) := by
  obtain ⟨d, hd, hname⟩ := hon
  have hdot := plain_of_mem hplain hd
  refine lookup_rowColumns fun c hc => ?_
  have hcdot := plain_of_mem hplain hc
  rcases hname with rfl | rfl
  · rw [baseColName_of_plain hdot, or_iff_left (qualified_ne hdot)]
  · rw [baseColName_qualified hdot]
    constructor
    · rintro (h | h)
      · exact absurd h.symm (qualified_ne hcdot)
      · exact (qualified_inj hcdot hdot h).2
    · rintro h
      exact .inr (by rw [h])

/-- **The join column of a row**: the map has the cell that the hash joins use as the key. -/
theorem lookup_joinColumn (hplain : plainNames table = true) (hon : OnColumn table name)
    (honce : onceColumn table name = true) (hlen : cells.length = table.columns.length) :
    (rowColumns table cells).reverse.lookup name =
      some (cellValueForJoinColumn table cells name) := by
  have hfst : (cellPairs table cells).map Prod.fst = table.columns.map ColumnDef.name :=
    map_fst_zip (by simp [hlen])
  have hcount : ((cellPairs table cells).map Prod.fst).count (baseColName name) ≤ 1 := by
    rw [hfst]
    exact le_of_eq (of_decide_eq_true honce)
  rw [lookup_rowColumns_of_onColumn hplain hon, lookup_reverse hcount, cellValueForJoinColumn_eq]
  cases hlookup : (cellPairs table cells).lookup (baseColName name) with
  | some v => rfl
  | none =>
    -- the name is there, and so is a cell for it
    obtain ⟨c, hc, hbase⟩ := hon.baseColName hplain
    have hmem : baseColName name ∈ (cellPairs table cells).map Prod.fst := by
      rw [hfst, hbase]
      exact mem_map_of_mem hc
    obtain ⟨x, hx, hkey⟩ := mem_map.mp hmem
    have := lookup_eq_none_iff.mp hlookup x hx
    simp [hkey] at this

/-- The tables have no column name in common. -/
def columnsApart (table other : TableDef) : Bool :=
  table.columns.all fun c => other.columns.all fun d => c.name ≠ d.name

/-- A column of one table is not among those of the other. -/
theorem lookup_other (hplain : plainNames table = true) (hplain' : plainNames other = true)
    (hnames : table.name ≠ other.name) (hapart : columnsApart table other = true)
    (hon : OnColumn table name) : (rowColumns other cells).reverse.lookup name = none := by
  obtain ⟨c, hc, hname⟩ := hon
  have hcdot := plain_of_mem hplain hc
  refine lookup_eq_none_iff.mpr fun e he => bne_iff_ne.mpr ?_
  rw [mem_reverse] at he
  obtain ⟨x, hx, he⟩ := mem_flatMap.mp he
  obtain ⟨d, hd, hdx⟩ := mem_map.mp (of_mem_zip hx).1
  have hddot := plain_of_mem hplain' hd
  have hcd : c.name ≠ d.name := by
    simp only [columnsApart, all_eq_true, decide_eq_true_eq] at hapart
    exact hapart c hc d hd
  have hkey : e.1 = d.name ∨ e.1 = qualified other.name d.name := by
    rw [hdx]
    simp only [mem_cons, not_mem_nil, or_false] at he
    rcases he with rfl | rfl
    · exact .inl rfl
    · exact .inr rfl
  rcases hname with rfl | rfl <;> rcases hkey with h | h <;> rw [h]
  · exact hcd
  · exact (qualified_ne hcdot).symm
  · exact qualified_ne hddot
  · exact fun heq => hnames (qualified_inj hcdot hddot heq).1

theorem onColumn_of_lookup {v : Bytes}
    (h : (rowColumns table cells).reverse.lookup name = some v) : OnColumn table name := by
  obtain ⟨l₁, l₂, hl, -⟩ := lookup_eq_some_iff.mp h
  have hmem : (name, v) ∈ (rowColumns table cells).reverse := by
    rw [hl]
    simp
  obtain ⟨x, hx, he⟩ := mem_flatMap.mp (mem_reverse.mp hmem)
  obtain ⟨c, hc, hcx⟩ := mem_map.mp (of_mem_zip hx).1
  refine ⟨c, hc, ?_⟩
  rw [hcx]
  simp only [mem_cons, not_mem_nil, or_false, Prod.mk.injEq] at he
  exact he.imp And.left And.left

end Joined

/-- Two rows as one map. -/
def joinedRow (left right : TableDef) (leftCells rightCells : List Bytes) : RowMap :=
  assignAll .empty (rowColumns left leftCells ++ rowColumns right rightCells)

/-- Tables with different names and different columns, and an `ON` clause that names a column of
each.  The operators agree if, beside that, no column name has a dot and each name of the `ON`
clause is that of one column only. -/
structure Joinable (left right : TableDef) (join : JoinClause) : Prop where
  names : left.name ≠ right.name
  apart : columnsApart left right = true
  onLeft : OnColumn left join.leftColumn
  onRight : OnColumn right join.rightColumn
  plainLeft : plainNames left = true
  plainRight : plainNames right = true
  onceLeft : onceColumn left join.leftColumn = true
  onceRight : onceColumn right join.rightColumn = true

section Rows

variable {left right : TableDef} {join : JoinClause} {leftCells rightCells : List Bytes}

theorem find_joinedRow (name : Bytes) :
    (joinedRow left right leftCells rightCells).find name =
      ((rowColumns right rightCells).reverse.lookup name).or
        ((rowColumns left leftCells).reverse.lookup name) := by
  rw [joinedRow, find_assignAll, reverse_append, lookup_append, SortedMap.find_empty,
    Option.or_none]

/-- The order of the two rows does not matter, if they have no column in common. -/
theorem joinedRow_comm (hplain : plainNames left = true) (hplain' : plainNames right = true)
    (hnames : left.name ≠ right.name) (hapart : columnsApart left right = true) :
    joinedRow right left rightCells leftCells = joinedRow left right leftCells rightCells := by
  refine SortedMap.ext_find fun name => ?_
  rw [find_joinedRow, find_joinedRow]
  cases hl : (rowColumns left leftCells).reverse.lookup name with
  | none => simp
  | some v =>
    rw [lookup_other hplain hplain' hnames hapart (onColumn_of_lookup hl)]
    rfl

variable (h : Joinable left right join)
include h

theorem Joinable.find_left (hlen : leftCells.length = left.columns.length) :
    (joinedRow left right leftCells rightCells).find join.leftColumn =
      some (cellValueForJoinColumn left leftCells join.leftColumn) := by
  rw [find_joinedRow, lookup_other h.plainLeft h.plainRight h.names h.apart h.onLeft,
    lookup_joinColumn h.plainLeft h.onLeft h.onceLeft hlen]
  rfl

theorem Joinable.find_right (hlen : rightCells.length = right.columns.length) :
    (joinedRow left right leftCells rightCells).find join.rightColumn =
      some (cellValueForJoinColumn right rightCells join.rightColumn) := by
  rw [find_joinedRow, lookup_joinColumn h.plainRight h.onRight h.onceRight hlen]
  rfl

end Rows

/-! ## The nested loop -/

/-- Every row decodes to as many cells as the table has columns. -/
def WellFormed (table : TableDef) (rows : List (Bytes × Bytes)) : Prop :=
  ∀ e ∈ rows, (deserializeRow e.2).length = table.columns.length

theorem WellFormed.filter {rows : List (Bytes × Bytes)} (h : WellFormed table rows)
    (p : Bytes × Bytes → Bool) : WellFormed table (rows.filter p) :=
  fun e he => h e (mem_of_mem_filter he)

/-- The value of the join column of a stored row. -/
def joinKey (table : TableDef) (column : Bytes) (row : Bytes × Bytes) : Bytes :=
  cellValueForJoinColumn table (deserializeRow row.2) column

theorem payloadOf_eq (table : TableDef) (column : Bytes) :
    payloadOf table column = fun row => ⟨row.2, joinKey table column row⟩ := by
  funext row
  rw [payloadOf, deserializeStoredRow_eq, joinKey]

/-- Two stored rows as one map. -/
def joinStored (left right : TableDef) (l r : Bytes × Bytes) : RowMap :=
  joinedRow left right (deserializeRow l.2) (deserializeRow r.2)

section Operators

variable {left right : TableDef} {join : JoinClause} {leftRows rightRows : List (Bytes × Bytes)}

theorem assignAll_append (row : RowMap) (columns columns' : JoinOutputRow) :
    assignAll (assignAll row columns) columns' = assignAll row (columns ++ columns') := by
  rw [assignAll, assignAll, assignAll, foldl_append]

theorem joinRight_eq (h : Joinable left right join) {l : Bytes × Bytes}
    (hl : (deserializeRow l.2).length = left.columns.length) (hright : WellFormed right rightRows) :
    joinRight right join (assignAll .empty (rowColumns left (deserializeRow l.2))) rightRows =
      .ok ((rightRows.filter fun r => decide (joinKey right join.rightColumn r =
        joinKey left join.leftColumn l)).map (joinStored left right l)) := by
  induction rightRows with
  | nil => rfl
  | cons r rows ih =>
    obtain ⟨hr, hrows⟩ := forall_mem_cons.mp hright
    have hjoined : assignAll (assignAll .empty (rowColumns left (deserializeRow l.2)))
        (rowColumns right (deserializeRow r.2)) = joinStored left right l r :=
      assignAll_append _ _ _
    have hfindLeft : (joinStored left right l r).find join.leftColumn =
        some (joinKey left join.leftColumn l) := h.find_left hl
    have hfindRight : (joinStored left right l r).find join.rightColumn =
        some (joinKey right join.rightColumn r) := h.find_right hr
    rw [joinRight]
    simp only [hr, ne_eq, not_true_eq_false, if_false, ih hrows, hjoined, hfindLeft, hfindRight]
    by_cases hkey : joinKey left join.leftColumn l = joinKey right join.rightColumn r
    · simp only [filter_cons, hkey, decide_true, if_true, map_cons]
      rfl
    · simp only [filter_cons, hkey, Ne.symm hkey, decide_false, Bool.false_eq_true, if_false]
      rfl

/-- **The nested loop** is the inner join, the left table outside. -/
theorem nestedLoopJoin_eq (h : Joinable left right join) (hleft : WellFormed left leftRows)
    (hright : WellFormed right rightRows) :
    nestedLoopJoin left (some (right, join)) rightRows leftRows =
      .ok (innerJoin (joinKey left join.leftColumn) (joinKey right join.rightColumn)
        (joinStored left right) leftRows rightRows) := by
  induction leftRows with
  | nil => rfl
  | cons l rows ih =>
    obtain ⟨hl, hrows⟩ := forall_mem_cons.mp hleft
    rw [nestedLoopJoin]
    simp only [hl, ne_eq, not_true_eq_false, if_false, joinRight_eq h hl hright, ih hrows]
    rfl

/-! ## One shard -/

variable {n : ℕ} {buildCol data probeCol : Bytes} {build probe : TableDef}
    {buildRows : List (Bytes × Bytes)}

/-- The shard decodes a row as the coordinator does. -/
theorem decodeRow_eq (h : (deserializeRow data).length = n) (hn : n ≠ 0) :
    decodeRow data n = deserializeRow data := by
  rw [decodeRow_eq_ite, headerCount]
  refine if_pos ?_
  rw [deserializeRow] at h
  cases htake : takeLe 2 data with
  | none =>
    rw [htake] at h
    exact absurd h.symm hn
  | some x =>
    rw [htake] at h
    simp only at h
    cases hread : readCells x.1 x.2 with
    | none =>
      rw [hread] at h
      exact absurd h.symm hn
    | some cells =>
      rw [hread, Option.getD_some, (eq_of_readCells hread).1] at h
      rw [Option.map_some, h]

theorem OnColumn.columns_ne {name : Bytes} (h : OnColumn table name) :
    table.columns.length ≠ 0 := by
  obtain ⟨c, hc, -⟩ := h
  exact (length_pos_of_mem hc).ne'

/-- What a row of the table is to a shard. -/
theorem decodeRow_ne_nil {name : Bytes} (hon : OnColumn table name)
    (h : (deserializeRow data).length = table.columns.length) :
    decodeRow data table.columns.length = deserializeRow data ∧ deserializeRow data ≠ [] := by
  refine ⟨decodeRow_eq h hon.columns_ne, fun hnil => hon.columns_ne ?_⟩
  rw [← h, hnil]
  rfl

/-- The columns of a joined row as a shard returns them. -/
def emitStored (build probe : TableDef) (p b : Bytes × Bytes) : JoinOutputRow :=
  rowColumns build (deserializeRow b.2) ++ rowColumns probe (deserializeRow p.2)

/-- **The hash join of one shard**, the probe table outside. -/
theorem localHashJoin_eq (honBuild : OnColumn build buildCol) (honProbe : OnColumn probe probeCol)
    {probeRows : List (Bytes × Bytes)} (hbuild : WellFormed build buildRows)
    (hprobe : WellFormed probe probeRows) {req : DistributedJoinRequest}
    (hreq : req.buildColumnNames = build.columns.map ColumnDef.name ∧
      req.buildTableName = build.name ∧
      req.probeColumnNames = probe.columns.map ColumnDef.name ∧ req.probeTableName = probe.name) :
    localHashJoin (buildRows.map (payloadOf build buildCol)) (probeRows.map (payloadOf probe probeCol))
        req =
      innerJoin (joinKey probe probeCol) (joinKey build buildCol) (emitStored build probe) probeRows
        buildRows := by
  obtain ⟨hbn, hbt, hpn, hpt⟩ := hreq
  rw [localHashJoin, flatMap_map, innerJoin]
  refine flatMap_congr fun p hp => ?_
  obtain ⟨hdecode, hne⟩ := decodeRow_ne_nil honProbe (hprobe p hp)
  have hpayload : (payloadOf probe probeCol p).rowBytes = p.2 := rfl
  have hkey : (payloadOf probe probeCol p).joinKey = joinKey probe probeCol p := by
    rw [payloadOf_eq]
  have hfor : buildRowsFor (buildRows.map (payloadOf build buildCol)) (joinKey probe probeCol p) =
      (buildRows.filter fun b => decide (joinKey build buildCol b = joinKey probe probeCol p)).map
        Prod.snd := by
    rw [buildRowsFor, filter_map, map_map, payloadOf_eq]
    rfl
  simp only [hpayload, hkey, hpn, length_map, hdecode, hne, if_false, hfor, flatMap_map]
  refine Eq.trans (flatMap_congr fun b hb => ?_) map_eq_flatMap.symm
  obtain ⟨hdecode', hne'⟩ := decodeRow_ne_nil honBuild (hbuild b (mem_of_mem_filter hb))
  simp only [hbn, length_map, hdecode', hne', if_false, hbt, hpt]
  rfl

/-- A row of the probe table is probed with its key. -/
theorem probePayload_eq {txnId : UInt64} (hplain : plainNames probe = true)
    (hon : OnColumn probe probeCol) {p : Bytes × Bytes}
    (hp : (deserializeRow p.2).length = probe.columns.length) :
    probePayload (broadcastRequest txnId build probe buildCol probeCol buildRows) p =
      some (payloadOf probe probeCol p) := by
  obtain ⟨hdecode, hne⟩ := decodeRow_ne_nil hon hp
  obtain ⟨c, hc, hbase⟩ := hon.baseColName hplain
  have hnames : (broadcastRequest txnId build probe buildCol probeCol buildRows).probeColumnNames =
      probe.columns.map ColumnDef.name := rfl
  have hprobeCol : (broadcastRequest txnId build probe buildCol probeCol buildRows).probeJoinCol =
      probeCol := rfl
  -- the loop over the names ends at the first column of this name
  have hidx : columnIndex probe (baseColName probeCol) =
      some ((probe.columns.map ColumnDef.name).findIdx fun name => name = baseColName probeCol) := by
    rw [← findIdx?_names]
    refine findIdx?_eq_some_of_exists ⟨c.name, mem_map_of_mem hc, decide_eq_true hbase.symm⟩
  have hlt := (findIdx?_eq_some_iff_findIdx_eq.mp ((findIdx?_names _ _).trans hidx)).1
  rw [length_map, ← hp] at hlt
  have hget := getElem?_eq_getElem hlt
  rw [probePayload, hnames, hprobeCol, length_map, hdecode]
  simp only [hne, if_false, hget, Option.map_some]
  congr 2
  rw [cellValueForJoinColumn, deserializeStoredRow_eq, columnIndexByName, hidx, Option.bind_some, hget]
  rfl

/-! ## All shards -/

variable {cfg : ExecConfig} {db : Database}

theorem run_askShards (request : ℕ → DistributedJoinRequest) (shards : List ℕ) :
    db.run cfg.numShards (askShards request shards) =
      (some (shards.map fun shard =>
        (Database.serve cfg.numShards (.join shard (request shard)) db).1), db) := by
  induction shards with
  | nil => rfl
  | cons shard shards ih =>
    have hserve : (Database.serve cfg.numShards (.join shard (request shard)) db).2 = db := rfl
    rw [askShards, Database.run_call_bind, hserve, Database.run_bind_some ih]
    rfl

/-- Every shard gets its request, and its answer arrives. -/
def Delivered (numShards : ℕ) (db : Database) (request : ℕ → DistributedJoinRequest) : Prop :=
  ∀ shard < numShards, carried (request shard) (db.joinOn numShards shard (request shard)) = true

theorem mergeShardResponses_eq {resps : List DistributedJoinResponse}
    (h : ∀ resp ∈ resps, resp.ok = true) :
    mergeShardResponses resps =
      .ok (resps.flatMap fun resp => resp.rows.map (assignAll .empty)) := by
  induction resps with
  | nil => rfl
  | cons resp resps ih =>
    obtain ⟨hresp, hresps⟩ := forall_mem_cons.mp h
    rw [mergeShardResponses, ih hresps]
    simp only [hresp, Bool.not_true, Bool.false_eq_true, if_false]
    rfl

/-- The rows of all shards, if every shard answers. -/
theorem run_askAll {request : ℕ → DistributedJoinRequest} {rows : ℕ → List JoinOutputRow}
    (hsent : Delivered cfg.numShards db request)
    (h : ∀ shard, db.joinOn cfg.numShards shard (request shard) = ⟨true, .ok, "", rows shard⟩) :
    db.run cfg.numShards (do
        return mergeAnswers (← askShards request (List.range cfg.numShards))) =
      (some (.ok ((List.range cfg.numShards).flatMap fun shard =>
        (rows shard).map (assignAll .empty))), db) := by
  rw [Database.run_bind_some (run_askShards request _)]
  have hanswers : ((range cfg.numShards).map fun shard =>
      (Database.serve cfg.numShards (.join shard (request shard)) db).1) =
      (range cfg.numShards).map fun shard => (.ok, ⟨true, .ok, "", rows shard⟩) := by
    refine map_congr_left fun shard hshard => ?_
    have hcarried := hsent shard (mem_range.mp hshard)
    rw [h shard] at hcarried
    simp only [Database.serve, h shard, hcarried, if_true]
  have hfind : ((range cfg.numShards).map fun shard =>
      ((.ok, ⟨true, .ok, "", rows shard⟩) : Status × DistributedJoinResponse)).find?
        (fun a => !Status.isOk a.1) = none := by
    refine find?_eq_none.mpr fun a ha => ?_
    obtain ⟨shard, -, rfl⟩ := mem_map.mp ha
    simp [Status.isOk, Status.ok]
  rw [hanswers, mergeAnswers, hfind]
  simp only [map_map]
  rw [mergeShardResponses_eq, flatMap_map]
  · rfl
  · intro resp hresp
    obtain ⟨shard, -, rfl⟩ := mem_map.mp hresp
    rfl

theorem hashJoinKey_lt (key : Bytes) (hn : 0 < n) : hashJoinKey key n < n := by
  have hmax : max 1 n = n := max_eq_right hn
  rw [hashJoinKey, hmax]
  exact Nat.mod_lt _ hn

/-- The rows of a table. -/
abbrev tableRows (db : Database) (table : TableDef) : List (Bytes × Bytes) :=
  (db.rows table.tableId).entries

/-- **The broadcast join** is the inner join, up to the order of the rows. -/
theorem run_runBroadcastJoin {buildCol probeCol : Bytes}
    (honBuild : OnColumn build buildCol) (honProbe : OnColumn probe probeCol)
    (hplain : plainNames probe = true) (hbuild : WellFormed build (tableRows db build))
    (hprobe : WellFormed probe (tableRows db probe)) (hshards : 0 < cfg.numShards)
    {t : CoordTxnId} (hsent : Delivered cfg.numShards db fun _ =>
      broadcastRequest t build probe buildCol probeCol (tableRows db build)) :
    ∃ rows, db.run cfg.numShards (runBroadcastJoin cfg t build probe buildCol probeCol
        (tableRows db build)) = (some (.ok rows), db) ∧
      rows.Perm (innerJoin (joinKey probe probeCol) (joinKey build buildCol)
        (fun p b => joinStored build probe b p) (tableRows db probe) (tableRows db build)) := by
  set request := broadcastRequest t build probe buildCol probeCol (tableRows db build)
  have hanswer : ∀ shard, db.joinOn cfg.numShards shard request =
      ⟨true, .ok, "", innerJoin (joinKey probe probeCol) (joinKey build buildCol)
        (emitStored build probe)
        ((tableRows db probe).filter fun e => decide (hashJoinKey e.1 cfg.numShards = shard))
        (tableRows db build)⟩ := by
    intro shard
    have hwell : WellFormed probe (shardRows cfg.numShards shard (db.rows probe.tableId)) :=
      hprobe.filter _
    have hpayloads : (shardRows cfg.numShards shard (db.rows probe.tableId)).filterMap
        (probePayload request) =
        (shardRows cfg.numShards shard (db.rows probe.tableId)).map (payloadOf probe probeCol) := by
      rw [← filterMap_eq_map]
      exact filterMap_congr fun e he => probePayload_eq hplain honProbe (hwell e he)
    have hjoin : localHashJoin _ _ request = _ :=
      localHashJoin_eq honBuild honProbe hbuild hwell ⟨rfl, rfl, rfl, rfl⟩
    rw [← hpayloads] at hjoin
    exact congrArg (DistributedJoinResponse.mk true .ok "") hjoin
  refine ⟨_, run_askAll hsent hanswer, ?_⟩
  simp only [map_innerJoin]
  exact innerJoin_partition (fun e _ => hashJoinKey_lt e.1 hshards) _

/-- **The shuffle join** is the inner join, up to the order of the rows. -/
theorem run_runShuffleJoin {leftCol rightCol : Bytes} (honLeft : OnColumn left leftCol)
    (honRight : OnColumn right rightCol) (hleft : WellFormed left (tableRows db left))
    (hright : WellFormed right (tableRows db right)) (hshards : 0 < cfg.numShards)
    {t : CoordTxnId} (hsent : Delivered cfg.numShards db fun shard =>
      shuffleRequest cfg.numShards shard t left right leftCol rightCol (tableRows db left)
        (tableRows db right)) :
    ∃ rows, db.run cfg.numShards (runShuffleJoin cfg t left right leftCol rightCol
        (tableRows db left) (tableRows db right)) = (some (.ok rows), db) ∧
      rows.Perm (innerJoin (joinKey right rightCol) (joinKey left leftCol)
        (fun r l => joinStored left right l r) (tableRows db right) (tableRows db left)) := by
  set request := fun shard => shuffleRequest cfg.numShards shard t left right leftCol rightCol
    (tableRows db left) (tableRows db right)
  have hanswer : ∀ shard, db.joinOn cfg.numShards shard (request shard) =
      ⟨true, .ok, "", innerJoin (joinKey right rightCol) (joinKey left leftCol)
        (emitStored left right)
        ((tableRows db right).filter fun e =>
          decide (hashJoinKey (joinKey right rightCol e) cfg.numShards = shard))
        ((tableRows db left).filter fun e =>
          decide (hashJoinKey (joinKey left leftCol e) cfg.numShards = shard))⟩ := by
    intro shard
    have hrows : ∀ (table : TableDef) (column : Bytes) (rows : List (Bytes × Bytes)),
        rowsByShard cfg.numShards shard table column rows =
          (rows.filter fun e => decide (hashJoinKey (joinKey table column e) cfg.numShards =
            shard)).map (payloadOf table column) := by
      intro table column rows
      rw [rowsByShard, filter_map, payloadOf_eq]
      rfl
    have hjoin : localHashJoin _ _ (request shard) = _ :=
      localHashJoin_eq honLeft honRight
        (hleft.filter fun e => hashJoinKey (joinKey left leftCol e) cfg.numShards = shard)
        (hright.filter fun e => hashJoinKey (joinKey right rightCol e) cfg.numShards = shard)
        ⟨rfl, rfl, rfl, rfl⟩
    rw [← hrows, ← hrows] at hjoin
    exact congrArg (DistributedJoinResponse.mk true .ok "") hjoin
  refine ⟨_, run_askAll hsent hanswer, ?_⟩
  simp only [map_innerJoin]
  exact innerJoin_shuffle (fun key => hashJoinKey_lt key hshards) _ _

/-- The request of `ExecuteInnerJoin` to a shard. -/
def innerJoinRequest (numShards : ℕ) (db : Database) (t : CoordTxnId) (left right : TableDef)
    (join : JoinClause) (op : PhysicalOp) (shard : ℕ) : DistributedJoinRequest :=
  match resolveOp op (tableRows db left).length (tableRows db right).length with
  | .broadcast =>
    if (tableRows db left).length ≤ (tableRows db right).length then
      broadcastRequest t left right join.leftColumn join.rightColumn (tableRows db left)
    else broadcastRequest t right left join.rightColumn join.leftColumn (tableRows db right)
  | .shuffle => shuffleRequest numShards shard t left right join.leftColumn join.rightColumn
      (tableRows db left) (tableRows db right)

/-- `ExecuteInnerJoin` scans both tables and runs the operator that was chosen. -/
theorem run_executeInnerJoin_eq (t : CoordTxnId) (op : PhysicalOp) :
    db.run cfg.numShards (executeInnerJoin cfg t left right join op) =
      db.run cfg.numShards
        (match resolveOp op (tableRows db left).length (tableRows db right).length with
        | .broadcast =>
          if (tableRows db left).length ≤ (tableRows db right).length then
            runBroadcastJoin cfg t left right join.leftColumn join.rightColumn (tableRows db left)
          else
            runBroadcastJoin cfg t right left join.rightColumn join.leftColumn (tableRows db right)
        | .shuffle => runShuffleJoin cfg t left right join.leftColumn join.rightColumn
            (tableRows db left) (tableRows db right)) := by
  rw [tableRows, tableRows, ← scanned_all, ← scanned_all (db.rows right.tableId)]
  rfl

end Operators

/-- **All join operators compute the same inner join.**  Over one snapshot, with the rows of both
tables on the shards where `RouteShard` places them and all messages delivered, the broadcast
join with either side as its build side, the shuffle join and the nested loop return the same
rows, up to their order. -/
theorem joins_agree {cfg : ExecConfig} {db : Database} {left right : TableDef} {join : JoinClause}
    (h : Joinable left right join) (hleft : WellFormed left (tableRows db left))
    (hright : WellFormed right (tableRows db right)) (hshards : 2 ≤ cfg.numShards)
    {t : CoordTxnId}
    (hsentLeft : Delivered cfg.numShards db fun _ =>
      broadcastRequest t left right join.leftColumn join.rightColumn (tableRows db left))
    (hsentRight : Delivered cfg.numShards db fun _ =>
      broadcastRequest t right left join.rightColumn join.leftColumn (tableRows db right))
    (hsentBoth : Delivered cfg.numShards db fun shard =>
      shuffleRequest cfg.numShards shard t left right join.leftColumn join.rightColumn
        (tableRows db left) (tableRows db right)) :
    ∃ rows broadcastLeft broadcastRight shuffled,
      nestedLoopJoin left (some (right, join)) (tableRows db right) (tableRows db left) =
        .ok rows ∧
      db.run cfg.numShards (runBroadcastJoin cfg t left right join.leftColumn join.rightColumn
        (tableRows db left)) = (some (.ok broadcastLeft), db) ∧
      db.run cfg.numShards (runBroadcastJoin cfg t right left join.rightColumn join.leftColumn
        (tableRows db right)) = (some (.ok broadcastRight), db) ∧
      db.run cfg.numShards (runShuffleJoin cfg t left right join.leftColumn join.rightColumn
        (tableRows db left) (tableRows db right)) = (some (.ok shuffled), db) ∧
      broadcastLeft.Perm rows ∧ broadcastRight.Perm rows ∧ shuffled.Perm rows := by
  have hpos : 0 < cfg.numShards := by omega
  obtain ⟨rows₁, hrun₁, hperm₁⟩ :=
    run_runBroadcastJoin h.onLeft h.onRight h.plainRight hleft hright hpos hsentLeft
  obtain ⟨rows₂, hrun₂, hperm₂⟩ :=
    run_runBroadcastJoin h.onRight h.onLeft h.plainLeft hright hleft hpos hsentRight
  obtain ⟨rows₃, hrun₃, hperm₃⟩ :=
    run_runShuffleJoin h.onLeft h.onRight hleft hright hpos hsentBoth
  have hcomm : innerJoin (joinKey left join.leftColumn) (joinKey right join.rightColumn)
      (fun l r => joinStored right left r l) (tableRows db left) (tableRows db right) =
      innerJoin (joinKey left join.leftColumn) (joinKey right join.rightColumn)
        (joinStored left right) (tableRows db left) (tableRows db right) :=
    innerJoin_congr fun l _ r _ => joinedRow_comm h.plainLeft h.plainRight h.names h.apart
  refine ⟨_, rows₁, rows₂, rows₃, nestedLoopJoin_eq h hleft hright, hrun₁, hrun₂, hrun₃, ?_, ?_, ?_⟩
  · exact hperm₁.trans (innerJoin_swap _ _)
  · rw [← hcomm]
    exact hperm₂
  · exact hperm₃.trans (innerJoin_swap _ _)

/-! ## Tables made by statements -/

/-- Run SQL texts one after the other, each in a transaction of its own. -/
def runScript (cfg : ExecConfig) (db : Database) (script : List String) : Database :=
  script.foldl (fun db sql =>
    match parse cfg.double (ascii sql) with
    | .ok stmt => (db.run cfg.numShards (execute cfg stmt 0)).2
    | .error _ => db) db

/-- Two shards, and no floating-point number. -/
def twoShards : ExecConfig := ⟨noDoubles, 2, .auto⟩

/-- Orders of items. -/
def ordersTable : TableDef :=
  ⟨1, ascii "orders", [⟨ascii "id", .int⟩, ⟨ascii "item", .int⟩], ascii "id"⟩

/-- Items by their numbers. -/
def itemsTable : TableDef := ⟨2, ascii "items", [⟨ascii "number", .int⟩], ascii "number"⟩

/-- `JOIN items ON orders.item = number`. -/
def onItem : JoinClause := ⟨ascii "items", ascii "orders.item", ascii "number"⟩

/-- One order, and the item that it is for. -/
def shopDatabase : Database := runScript twoShards (.init .empty)
  ["CREATE TABLE orders (id INT PRIMARY KEY, item INT)",
    "CREATE TABLE items (number INT PRIMARY KEY)",
    "INSERT INTO orders (id, item) VALUES (1, 7)", "INSERT INTO items (number) VALUES (7)"]

theorem shop_joinable : Joinable ordersTable itemsTable onItem :=
  ⟨by decide +kernel, by decide +kernel,
    ⟨⟨ascii "item", .int⟩, by decide +kernel, by decide +kernel⟩,
    ⟨⟨ascii "number", .int⟩, by decide +kernel, by decide +kernel⟩, by decide +kernel,
    by decide +kernel, by decide +kernel, by decide +kernel⟩

theorem joins_agree_shop :
    ∃ rows broadcastLeft broadcastRight shuffled,
      nestedLoopJoin ordersTable (some (itemsTable, onItem)) (tableRows shopDatabase itemsTable)
        (tableRows shopDatabase ordersTable) = .ok rows ∧
      shopDatabase.run twoShards.numShards (runBroadcastJoin twoShards 1 ordersTable itemsTable
        onItem.leftColumn onItem.rightColumn (tableRows shopDatabase ordersTable)) =
          (some (.ok broadcastLeft), shopDatabase) ∧
      shopDatabase.run twoShards.numShards (runBroadcastJoin twoShards 1 itemsTable ordersTable
        onItem.rightColumn onItem.leftColumn (tableRows shopDatabase itemsTable)) =
          (some (.ok broadcastRight), shopDatabase) ∧
      shopDatabase.run twoShards.numShards (runShuffleJoin twoShards 1 ordersTable itemsTable
        onItem.leftColumn onItem.rightColumn (tableRows shopDatabase ordersTable)
        (tableRows shopDatabase itemsTable)) = (some (.ok shuffled), shopDatabase) ∧
      broadcastLeft.Perm rows ∧ broadcastRight.Perm rows ∧ shuffled.Perm rows := by
  have hrows : (∀ e ∈ tableRows shopDatabase ordersTable,
        (deserializeRow e.2).length = ordersTable.columns.length) ∧
      ∀ e ∈ tableRows shopDatabase itemsTable,
        (deserializeRow e.2).length = itemsTable.columns.length := by decide +kernel
  exact joins_agree shop_joinable hrows.1 hrows.2 (le_refl 2) (by unfold Delivered; decide +kernel)
    (by unfold Delivered; decide +kernel) (by unfold Delivered; decide +kernel)

/-- A table with two columns of one name. -/
def twiceTable : TableDef :=
  ⟨1, ascii "orders", [⟨ascii "id", .int⟩, ⟨ascii "item", .int⟩, ⟨ascii "item", .int⟩], ascii "id"⟩

/-- An order whose two columns `item` have different cells. -/
def twiceDatabase : Database := runScript twoShards (.init .empty)
  ["CREATE TABLE orders (id INT PRIMARY KEY, item INT, item INT)",
    "CREATE TABLE items (number INT PRIMARY KEY)",
    "INSERT INTO orders (id, item, item) VALUES (1, 8, 8)",
    "UPDATE orders SET item = 7 WHERE id = 1", "INSERT INTO items (number) VALUES (7)"]

/-- `UPDATE` changes the first of two columns of one name only.  The hash joins take that one,
the nested loop the other. -/
theorem nested_loop_misses_row :
    twiceDatabase.catalog.getTable (ascii "orders") = some twiceTable ∧
    twiceDatabase.catalog.getTable (ascii "items") = some itemsTable ∧
    (∀ e ∈ tableRows twiceDatabase twiceTable,
      (deserializeRow e.2).length = twiceTable.columns.length) ∧
    (∀ e ∈ tableRows twiceDatabase itemsTable,
      (deserializeRow e.2).length = itemsTable.columns.length) ∧
    (nestedLoopJoin twiceTable (some (itemsTable, onItem)) (tableRows twiceDatabase itemsTable)
      (tableRows twiceDatabase twiceTable)).toOption.map List.length = some 0 ∧
    (twiceDatabase.run twoShards.numShards (runBroadcastJoin twoShards 1 twiceTable itemsTable
      onItem.leftColumn onItem.rightColumn (tableRows twiceDatabase twiceTable))).1.map
        (fun rows => rows.toOption.map List.length) = some (some 1) ∧
    (twiceDatabase.run twoShards.numShards (runShuffleJoin twoShards 1 twiceTable itemsTable
      onItem.leftColumn onItem.rightColumn (tableRows twiceDatabase twiceTable)
      (tableRows twiceDatabase itemsTable))).1.map
        (fun rows => rows.toOption.map List.length) = some (some 1) := by
  decide +kernel

/-! ## More rows -/

/-- The rows of the left table are put over those of the right one. -/
def leftOver (op : PhysicalOp) (leftRows rightRows : ℕ) : Bool :=
  resolveOp op leftRows rightRows = .broadcast && decide (rightRows < leftRows)

section More

variable {cfg : ExecConfig} {db db' : Database} {left right : TableDef} {join : JoinClause}
  (honLeft : OnColumn left join.leftColumn) (honRight : OnColumn right join.rightColumn)
  (hplain : plainNames left = true) (hplain' : plainNames right = true)

include honLeft honRight hplain hplain'

/-- **`ExecuteInnerJoin`** returns the inner join; the operator decides whose columns come last. -/
theorem run_executeInnerJoin (hleft : WellFormed left (tableRows db left))
    (hright : WellFormed right (tableRows db right)) (hshards : 0 < cfg.numShards)
    {t : CoordTxnId} {op : PhysicalOp}
    (hsent : Delivered cfg.numShards db (innerJoinRequest cfg.numShards db t left right join op)) :
    ∃ rows, db.run cfg.numShards (executeInnerJoin cfg t left right join op) =
        (some (.ok rows), db) ∧
      rows.Perm (innerJoin (joinKey left join.leftColumn) (joinKey right join.rightColumn)
        (if leftOver op (tableRows db left).length (tableRows db right).length then
          fun l r => joinStored right left r l else joinStored left right)
        (tableRows db left) (tableRows db right)) := by
  unfold innerJoinRequest at hsent
  rw [run_executeInnerJoin_eq, leftOver]
  cases hop : resolveOp op (tableRows db left).length (tableRows db right).length with
  | broadcast =>
    simp only [hop] at hsent
    by_cases hle : (tableRows db left).length ≤ (tableRows db right).length
    · simp only [hle, if_true] at hsent
      obtain ⟨rows, hrun, hperm⟩ :=
        run_runBroadcastJoin honLeft honRight hplain' hleft hright hshards hsent
      refine ⟨rows, by simpa [hle] using hrun, ?_⟩
      simpa [not_lt.mpr hle] using hperm.trans (innerJoin_swap _ _)
    · simp only [hle, if_false] at hsent
      obtain ⟨rows, hrun, hperm⟩ :=
        run_runBroadcastJoin honRight honLeft hplain hright hleft hshards hsent
      exact ⟨rows, by simpa [hle] using hrun, by simpa [not_le.mp hle] using hperm⟩
  | shuffle =>
    simp only [hop] at hsent
    obtain ⟨rows, hrun, hperm⟩ := run_runShuffleJoin honLeft honRight hleft hright hshards hsent
    exact ⟨rows, hrun, hperm.trans (innerJoin_swap _ _)⟩

end More

/-- A second order makes the other table the one that is sent to the shards. -/
def biggerShop : Database :=
  runScript twoShards shopDatabase ["INSERT INTO orders (id, item) VALUES (2, 8)"]

/-- `ON y = x` for `ON x = y`. -/
def JoinClause.swap (join : JoinClause) : JoinClause :=
  { join with leftColumn := join.rightColumn, rightColumn := join.leftColumn }

theorem joinRight_swap (right : TableDef) (join : JoinClause) (base : RowMap)
    (rows : List (Bytes × Bytes)) :
    joinRight right join.swap base rows = joinRight right join base rows := by
  induction rows with
  | nil => rfl
  | cons row rows ih =>
    rw [joinRight, joinRight, ih]
    simp only [JoinClause.swap]
    split_ifs
    · rfl
    · congr 1
      funext rest
      cases hl : (assignAll base (rowColumns right (deserializeRow row.2))).find join.leftColumn <;>
        cases hr : (assignAll base (rowColumns right (deserializeRow row.2))).find join.rightColumn <;>
        simp only [eq_comm]

theorem nestedLoopJoin_swap (left right : TableDef) (join : JoinClause)
    (rightRows leftRows : List (Bytes × Bytes)) :
    nestedLoopJoin left (some (right, join.swap)) rightRows leftRows =
      nestedLoopJoin left (some (right, join)) rightRows leftRows := by
  induction leftRows with
  | nil => rfl
  | cons row rows ih => simp only [nestedLoopJoin, ih, joinRight_swap]

section SameName

variable {cfg : ExecConfig} {db : Database} {a b : Bytes} (h : baseColName a = baseColName b)
include h

theorem payloadOf_congr (table : TableDef) : payloadOf table a = payloadOf table b := by
  funext row
  simp only [payloadOf, cellValueForJoinColumn, columnIndexByName, h]

omit h in
theorem carried_swap (req : DistributedJoinRequest) (resp : DistributedJoinResponse) :
    carried { req with buildJoinCol := a, probeJoinCol := b } resp =
      carried { req with buildJoinCol := b, probeJoinCol := a } resp := by
  have hstrings : ∀ rest : List Bytes, (a :: b :: rest).all isUtf8 = (b :: a :: rest).all isUtf8 :=
    fun rest => Bool.and_left_comm _ _ _
  have hsize : textSize a + textSize b = textSize b + textSize a := Nat.add_comm _ _
  simp only [carried, DistributedJoinRequest.strings, DistributedJoinRequest.size, cons_append,
    hstrings, hsize]
  rfl

/-- The shards see of the join columns only their names without the tables. -/
theorem run_join_congr (t : CoordTxnId) (left right : TableDef)
    (leftRows rightRows : List (Bytes × Bytes)) :
    db.run cfg.numShards (runBroadcastJoin cfg t left right a b leftRows) =
        db.run cfg.numShards (runBroadcastJoin cfg t left right b a leftRows) ∧
      db.run cfg.numShards (runShuffleJoin cfg t left right a b leftRows rightRows) =
        db.run cfg.numShards (runShuffleJoin cfg t left right b a leftRows rightRows) := by
  have hask : ∀ {request request' : ℕ → DistributedJoinRequest},
      (∀ shard, db.joinOn cfg.numShards shard (request shard) =
        db.joinOn cfg.numShards shard (request' shard)) →
      (∀ shard resp, carried (request shard) resp = carried (request' shard) resp) →
      db.run cfg.numShards (do return mergeAnswers (← askShards request (range cfg.numShards))) =
        db.run cfg.numShards
          (do return mergeAnswers (← askShards request' (range cfg.numShards))) := by
    intro request request' hjoin hcarried
    rw [Database.run_bind_some (run_askShards _ _), Database.run_bind_some (run_askShards _ _)]
    simp only [Database.serve, hjoin, hcarried]
  refine ⟨hask (fun shard => ?_) fun shard resp => ?_, hask (fun shard => ?_) fun shard resp => ?_⟩
  · have hprobe : probePayload (broadcastRequest t left right a b leftRows) =
        probePayload (broadcastRequest t left right b a leftRows) := by
      have hcol : baseColName (broadcastRequest t left right a b leftRows).probeJoinCol =
          baseColName (broadcastRequest t left right b a leftRows).probeJoinCol := h.symm
      funext row
      rw [probePayload, probePayload, hcol]
      rfl
    have hbuild : (broadcastRequest t left right a b leftRows).broadcastBuildRows =
        (broadcastRequest t left right b a leftRows).broadcastBuildRows := by
      rw [broadcastRequest, broadcastRequest, payloadOf_congr h]
    simp only [Database.joinOn, runDistributedJoin, hprobe, hbuild]
    rfl
  · rw [broadcastRequest, broadcastRequest, payloadOf_congr h]
    exact carried_swap (broadcastRequest t left right b b leftRows) resp
  · simp only [Database.joinOn, shuffleRequest, rowsByShard, payloadOf_congr h]
    rfl
  · simp only [shuffleRequest, rowsByShard, payloadOf_congr h]
    exact carried_swap
      (shuffleRequest cfg.numShards shard t left right b b leftRows rightRows) resp

end SameName

/-- **The nested loop returns the same rows for `ON x = y` and `ON y = x`, and so do the
distributed operators if `x` and `y` have the same name in their tables.** -/
theorem join_swap (cfg : ExecConfig) (db : Database) (t : CoordTxnId) (left right : TableDef)
    (join : JoinClause) (op : PhysicalOp) (leftRows rightRows : List (Bytes × Bytes)) :
    nestedLoopJoin left (some (right, join.swap)) rightRows leftRows =
      nestedLoopJoin left (some (right, join)) rightRows leftRows ∧
    (baseColName join.leftColumn = baseColName join.rightColumn →
      db.run cfg.numShards (executeInnerJoin cfg t left right join.swap op) =
        db.run cfg.numShards (executeInnerJoin cfg t left right join op)) := by
  refine ⟨nestedLoopJoin_swap .., fun h => ?_⟩
  rw [run_executeInnerJoin_eq, run_executeInnerJoin_eq]
  cases resolveOp op (tableRows db left).length (tableRows db right).length with
  | broadcast =>
    simp only [JoinClause.swap]
    split_ifs
    · exact (run_join_congr h t left right _ []).1.symm
    · exact (run_join_congr h t right left _ []).1
  | shuffle => exact (run_join_congr h t left right _ _).2.symm

/-- Bills for items, two of them for the item of the order. -/
def billsTable : TableDef :=
  ⟨3, ascii "bills", [⟨ascii "number", .int⟩, ⟨ascii "item", .int⟩], ascii "number"⟩

/-- A shop with bills. -/
def billsShop : Database := runScript twoShards shopDatabase
  ["CREATE TABLE bills (number INT PRIMARY KEY, item INT)",
    "INSERT INTO bills (number, item) VALUES (1, 7)",
    "INSERT INTO bills (number, item) VALUES (2, 8)",
    "INSERT INTO bills (number, item) VALUES (3, 7)"]

/-- Two tables whose join columns have one name, with two rows to return. -/
theorem join_swap_bills :
    let join : JoinClause := ⟨ascii "bills", ascii "orders.item", ascii "bills.item"⟩
    billsShop.run twoShards.numShards
        (executeInnerJoin twoShards 1 ordersTable billsTable join.swap .shuffle) =
      billsShop.run twoShards.numShards
        (executeInnerJoin twoShards 1 ordersTable billsTable join .shuffle) ∧
    (billsShop.run twoShards.numShards
        (executeInnerJoin twoShards 1 ordersTable billsTable join .shuffle)).1.map
      (fun rows => rows.toOption.map List.length) = some (some 2) := by
  intro join
  exact ⟨(join_swap twoShards billsShop 1 ordersTable billsTable join .shuffle [] []).2
    (by decide +kernel), by decide +kernel⟩

/-- With the columns the other way round neither table has the column that is looked up in it:
the broadcast join loses the row. -/
theorem swapped_on_loses_row :
    let join : JoinClause := ⟨ascii "items", ascii "orders.item", ascii "items.number"⟩
    let count := fun (join : JoinClause) =>
      (shopDatabase.run twoShards.numShards (executeInnerJoin twoShards 1 ordersTable itemsTable
        join .broadcast)).1.map (fun rows => rows.toOption.map List.length)
    count join = some (some 1) ∧ count join.swap = some (some 0) := by
  decide +kernel

end TransDb.Sql
