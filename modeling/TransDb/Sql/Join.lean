import TransDb.Sql.Rows
import TransDb.Txn.Manager

/-!
# Distributed joins

The messages of a distributed join, the join of one shard
(`src/shard/distributed_join_handler.cpp`), and what the coordinator does with the answers
(`src/coordinator/distributed_join.cpp`).

* `RowMap` — a row as a map from the names of its columns to cells.
* `DistributedJoinRequest`, `DistributedJoinResponse` — the messages; `carried` — those that
  arrive.
* `localHashJoin`, `runDistributedJoin` — the shard.
* `broadcastRequest`, `shuffleRequest`, `mergeShardResponses` — the coordinator.
* `nestedLoopJoin` — the join of a coordinator with one shard.
* `find_assignAll` — in a row that was assigned column by column, the last value counts.
-/

namespace TransDb.Sql

open Storage Txn

/-- A row by the names of its columns. -/
abbrev RowMap := SortedMap Bytes Bytes

/-- `table.column`. -/
def qualified (table column : Bytes) : Bytes := table ++ 46 :: column

theorem qualified_ne {table name column : Bytes} (h : 46 ∉ name) : qualified table column ≠ name := by
  rintro rfl
  exact h (by simp [qualified])

/-! ## Messages -/

/-- How the shards join. -/
inductive JoinPhysicalOp where
  | broadcast
  | shuffle
  deriving DecidableEq

/-- A row with the value by which it is joined. -/
structure JoinRowPayload where
  rowBytes : Bytes
  joinKey : Bytes
  deriving DecidableEq

/-- What a shard is asked to join. -/
structure DistributedJoinRequest where
  raftTxnId : UInt64
  op : JoinPhysicalOp
  buildTableId : TableId
  probeTableId : TableId
  buildJoinCol : Bytes
  probeJoinCol : Bytes
  buildTableName : Bytes
  probeTableName : Bytes
  buildColumnNames : List Bytes
  probeColumnNames : List Bytes
  broadcastBuildRows : List JoinRowPayload
  shuffleBuildRows : List JoinRowPayload
  shuffleProbeRows : List JoinRowPayload
  deriving DecidableEq

/-- The columns of a joined row, in the order in which they were added. -/
abbrev JoinOutputRow := List (Bytes × Bytes)

/-- The joined rows of a shard. -/
structure DistributedJoinResponse where
  ok : Bool
  errorCode : StatusCode
  errorMessage : String
  rows : List JoinOutputRow
  deriving DecidableEq

/-! ## Messages on the wire

`proto/shard.proto` has the names and the values of columns as `string`: a message in which one
of them is not UTF-8 is refused where it arrives.  gRPC refuses a message of more than 4 MiB. -/

/-- The bytes of a number as a varint. -/
def varintSize (n : ℕ) : ℕ := n.log2 / 7 + 1

/-- A field of this length, with its tag. -/
def delimitedSize (length : ℕ) : ℕ := 1 + varintSize length + length

/-- A number; zero is left out. -/
def numberSize (n : ℕ) : ℕ := if n = 0 then 0 else 1 + varintSize n

/-- A text; the empty one is left out. -/
def textSize (text : Bytes) : ℕ := if text = [] then 0 else delimitedSize text.length

/-- Its size on the wire. -/
def JoinRowPayload.size (row : JoinRowPayload) : ℕ :=
  delimitedSize (textSize row.rowBytes + textSize row.joinKey)

namespace DistributedJoinRequest

/-- The rows that are sent along. -/
def payloads (req : DistributedJoinRequest) : List JoinRowPayload :=
  req.broadcastBuildRows ++ req.shuffleBuildRows ++ req.shuffleProbeRows

/-- The fields of type `string`. -/
def strings (req : DistributedJoinRequest) : List Bytes :=
  [req.buildJoinCol, req.probeJoinCol, req.buildTableName, req.probeTableName] ++
    req.buildColumnNames ++ req.probeColumnNames ++ req.payloads.map JoinRowPayload.joinKey

/-- Its size on the wire. -/
def size (req : DistributedJoinRequest) : ℕ :=
  numberSize req.raftTxnId.toNat + numberSize (if req.op = .broadcast then 0 else 1) +
    numberSize req.buildTableId.toNat + numberSize req.probeTableId.toNat +
    (textSize req.buildJoinCol + textSize req.probeJoinCol) + textSize req.buildTableName +
    textSize req.probeTableName +
    ((req.buildColumnNames ++ req.probeColumnNames).map fun name => delimitedSize name.length).sum +
    (req.payloads.map JoinRowPayload.size).sum

end DistributedJoinRequest

namespace DistributedJoinResponse

/-- The fields of type `string`; the texts of errors are ASCII. -/
def strings (resp : DistributedJoinResponse) : List Bytes :=
  resp.rows.flatten.flatMap fun c => [c.1, c.2]

/-- Its size on the wire. -/
def size (resp : DistributedJoinResponse) : ℕ :=
  numberSize resp.ok.toNat + (if resp.errorCode = .ok then 0 else 2) +
    textSize (ascii resp.errorMessage) +
    (resp.rows.map fun row => delimitedSize
      (row.map fun c => delimitedSize (textSize c.1 + textSize c.2)).sum).sum

end DistributedJoinResponse

/-- Whether the request and its answer arrive. -/
def carried (req : DistributedJoinRequest) (resp : DistributedJoinResponse) : Bool :=
  req.strings.all isUtf8 && resp.strings.all isUtf8 &&
    decide (req.size ≤ 4 * 1024 * 1024) && decide (resp.size ≤ 4 * 1024 * 1024)

/-! ## Columns of a join -/

/-- `ColumnIndexByName`. -/
def columnIndexByName (table : TableDef) (name : Bytes) : Option ℕ :=
  columnIndex table (baseColName name)

/-- `CellValueForJoinColumn`. -/
def cellValueForJoinColumn (table : TableDef) (cells : List Bytes) (joinColumn : Bytes) : Bytes :=
  ((columnIndexByName table joinColumn).bind fun i => cells[i]?).getD []

/-- FNV-1a over the key, as `RouteShard` computes it. -/
def hashJoinKey (key : Bytes) (numShards : ℕ) : ℕ :=
  (key.foldl (fun (h : UInt64) c => (h ^^^ c.toUInt64) * 1099511628211)
    14695981039346656037).toNat % max 1 numShards

/-! ## The shard -/

/-- The loop of `DecodeRow`. -/
def decodeCells : ℕ → List Bytes → Bytes → List Bytes
  | 0, cells, _ => cells
  | n + 1, cells, data =>
    if data.length < 4 then []
    else
      let len := leNat (data.take 4)
      let rest := data.drop 4
      if rest.length < len then [] else decodeCells n (cells ++ [rest.take len]) (rest.drop len)

/-- `DecodeRow`: no cells unless there are as many as the table has columns. -/
def decodeRow (bytes : Bytes) (columnCount : ℕ) : List Bytes :=
  if bytes.length < 2 then []
  else
    let n := leNat (bytes.take 2)
    if n ≠ columnCount then [] else decodeCells n [] (bytes.drop 2)

theorem decodeCells_eq (n : ℕ) (cells : List Bytes) (data : Bytes) :
    decodeCells n cells data = (readCells n data).elim [] (cells ++ ·) := by
  induction n generalizing cells data with
  | zero => simp [decodeCells, readCells]
  | succ n ih =>
    rw [decodeCells, readCells, takeLe]
    split_ifs with hlen
    · rfl
    · simp only
      split_ifs
      · rfl
      · rw [ih]
        cases readCells n ((data.drop 4).drop (leNat (data.take 4))) <;> simp

/-- The number of cells that a row says it has. -/
def headerCount (data : Bytes) : Option ℕ := (takeLe 2 data).map Prod.fst

/-- The shard decodes a row as the coordinator does, if it has the right number of cells. -/
theorem decodeRow_eq_ite (data : Bytes) (k : ℕ) :
    decodeRow data k = if headerCount data = some k then deserializeRow data else [] := by
  rw [decodeRow, headerCount, deserializeRow, takeLe]
  by_cases hlen : data.length < 2
  · simp [hlen]
  · by_cases hk : leNat (data.take 2) = k
    · simp only [hlen, hk, if_false, ne_eq, not_true_eq_false, decodeCells_eq, Option.map_some,
        if_true]
      cases readCells k (data.drop 2) <;> rfl
    · simp [hlen, hk]

/-- **The row format has one meaning**: the three decoders give back the cells of a row, no cells
for a row that was cut short, and the same for all bytes. -/
theorem row_format :
    (∀ (D : DoubleLib) (table : TableDef) (colNames : List Bytes) (values : List LiteralExpr),
      table.columns.length ≤ 65535 →
      (∀ c ∈ table.columns, (insertedCell D colNames values c.name).length < 2 ^ 32) →
      let row := serializeRow D table colNames values
      let cells := table.columns.map fun c => insertedCell D colNames values c.name
      (deserializeRow row = cells ∧ deserializeStoredRow row = cells ∧
        decodeRow row table.columns.length = cells) ∧
      ∀ data more, row = data ++ more → more ≠ [] → deserializeRow data = [] ∧
        deserializeStoredRow data = [] ∧ ∀ k, decodeRow data k = []) ∧
    ∀ data, deserializeStoredRow data = deserializeRow data ∧
      ∀ k, decodeRow data k = if headerCount data = some k then deserializeRow data else [] := by
  refine ⟨?_, fun data => ⟨deserializeStoredRow_eq data, decodeRow_eq_ite data⟩⟩
  intro D table colNames values hcount hcells row cells
  have hfits : Fits cells := by
    refine ⟨by simp only [cells, List.length_map]; omega, ?_⟩
    simpa [cells] using hcells
  have hrow : row = encodeCells cells.length cells := by simp [row, cells, serializeRow]
  have hread : deserializeRow row = cells := hrow ▸ deserializeRow_encodeCells hfits
  have hheader : headerCount row = some table.columns.length := by
    rw [headerCount, hrow, encodeCells, List.length_map,
      takeLe_of_lt (by norm_num; omega), Option.map_some]
  refine ⟨⟨hread, ?_, ?_⟩, ?_⟩
  · rw [deserializeStoredRow_eq, hread]
  · rw [decodeRow_eq_ite, if_pos hheader, hread]
  · intro data more hdata hmore
    have hcut := deserializeRow_of_cut hfits (hrow ▸ hdata) hmore
    refine ⟨hcut, ?_, fun k => ?_⟩
    · rw [deserializeStoredRow_eq, hcut]
    · rw [decodeRow_eq_ite, hcut, ite_self]

/-- A row of three cells of different lengths, one of them left out by the `INSERT`: read back
by all three decoders, and not at all when its last byte is missing. -/
theorem row_format_people :
    let people : TableDef := ⟨1, ascii "people",
      [⟨ascii "id", .bigint⟩, ⟨ascii "name", .varchar⟩, ⟨ascii "mail", .varchar⟩], ascii "id"⟩
    let row := serializeRow noDoubles people [ascii "name", ascii "id"]
      [.text (ascii "Ada"), .int 42]
    let cells := [ascii "42", ascii "Ada", []]
    deserializeRow row = cells ∧ deserializeStoredRow row = cells ∧ decodeRow row 3 = cells ∧
      deserializeRow row.dropLast = [] := by
  intro people row cells
  obtain ⟨⟨hread, hstored, hjoin⟩, hcut⟩ := row_format.1 noDoubles people
    [ascii "name", ascii "id"] [.text (ascii "Ada"), .int 42] (by decide) (by decide)
  exact ⟨hread, hstored, hjoin, (hcut row.dropLast [0] (by decide) (by decide)).1⟩

/-- The columns of one table in a joined row: each under its name and its qualified name. -/
def namedCells (tableName : Bytes) (names cells : List Bytes) : JoinOutputRow :=
  (names.zip cells).flatMap fun x => [(x.1, x.2), (qualified tableName x.1, x.2)]

/-- `EmitJoinedRow`. -/
def emitJoinedRow (buildNames : List Bytes) (buildTableName : Bytes) (buildCells : List Bytes)
    (probeNames : List Bytes) (probeTableName : Bytes) (probeCells : List Bytes) :
    JoinOutputRow :=
  namedCells buildTableName buildNames buildCells ++ namedCells probeTableName probeNames probeCells

/-- The rows that `build_map` has under a key, in their order. -/
def buildRowsFor (buildRows : List JoinRowPayload) (key : Bytes) : List Bytes :=
  (buildRows.filter fun row => row.joinKey = key).map JoinRowPayload.rowBytes

/-- `LocalHashJoin`. -/
def localHashJoin (buildRows probeRows : List JoinRowPayload) (req : DistributedJoinRequest) :
    List JoinOutputRow :=
  probeRows.flatMap fun probe =>
    let probeCells := decodeRow probe.rowBytes req.probeColumnNames.length
    if probeCells = [] then []
    else
      (buildRowsFor buildRows probe.joinKey).flatMap fun buildBytes =>
        let buildCells := decodeRow buildBytes req.buildColumnNames.length
        if buildCells = [] then []
        else
          [emitJoinedRow req.buildColumnNames req.buildTableName buildCells req.probeColumnNames
            req.probeTableName probeCells]

/-- A scanned row as a row to probe with, unless it has no cell for the join column. -/
def probePayload (req : DistributedJoinRequest) (row : Bytes × Bytes) : Option JoinRowPayload :=
  let cells := decodeRow row.2 req.probeColumnNames.length
  if cells = [] then none
  else
    let base := baseColName req.probeJoinCol
    let idx := req.probeColumnNames.findIdx fun name => name = base
    cells[idx]?.map fun key => ⟨row.2, key⟩

/-- A join that failed. -/
def DistributedJoinResponse.failed (code : StatusCode) (message : String) :
    DistributedJoinResponse := ⟨false, code, message, []⟩

/-- `RunDistributedJoin` with the rows of the probe table that the shard's transaction sees. -/
def runDistributedJoin (scan : TableId → Status × List (Bytes × Bytes)) (localTxnId : TxnId)
    (req : DistributedJoinRequest) : DistributedJoinResponse :=
  if localTxnId = 0 then .failed .invalidArgument "txn not active"
  else
    match req.op with
    | .broadcast =>
      let (st, rows) := scan req.probeTableId
      if st.code ≠ .ok then .failed st.code st.message
      else
        ⟨true, .ok, "",
          localHashJoin req.broadcastBuildRows (rows.filterMap (probePayload req)) req⟩
    | .shuffle =>
      ⟨true, .ok, "", localHashJoin req.shuffleBuildRows req.shuffleProbeRows req⟩

/-! ## The coordinator -/

/-- The join that is asked for. -/
inductive PhysicalOp where
  | auto
  | broadcast
  | shuffle
  deriving DecidableEq

/-- `kBroadcastRowThreshold`. -/
def broadcastRowThreshold : ℕ := 128

/-- The join that is made. -/
def resolveOp (requested : PhysicalOp) (leftRows rightRows : ℕ) : JoinPhysicalOp :=
  match requested with
  | .broadcast => .broadcast
  | .shuffle => .shuffle
  | .auto => if min leftRows rightRows ≤ broadcastRowThreshold then .broadcast else .shuffle

/-- A row with the value of its join column. -/
def payloadOf (table : TableDef) (joinCol : Bytes) (row : Bytes × Bytes) : JoinRowPayload :=
  ⟨row.2, cellValueForJoinColumn table (deserializeStoredRow row.2) joinCol⟩

/-- The fields that both kinds of request have. -/
def joinRequest (txnId : UInt64) (op : JoinPhysicalOp) (build probe : TableDef)
    (buildJoinCol probeJoinCol : Bytes) : DistributedJoinRequest where
  raftTxnId := txnId
  op := op
  buildTableId := build.tableId
  probeTableId := probe.tableId
  buildJoinCol := buildJoinCol
  probeJoinCol := probeJoinCol
  buildTableName := build.name
  probeTableName := probe.name
  buildColumnNames := build.columns.map ColumnDef.name
  probeColumnNames := probe.columns.map ColumnDef.name
  broadcastBuildRows := []
  shuffleBuildRows := []
  shuffleProbeRows := []

/-- The request of `RunBroadcastJoin` to every shard. -/
def broadcastRequest (txnId : UInt64) (build probe : TableDef) (buildJoinCol probeJoinCol : Bytes)
    (buildRows : List (Bytes × Bytes)) : DistributedJoinRequest :=
  { joinRequest txnId .broadcast build probe buildJoinCol probeJoinCol with
    broadcastBuildRows := buildRows.map (payloadOf build buildJoinCol) }

/-- The rows of `left_by_shard` and `right_by_shard` for one shard. -/
def rowsByShard (numShards shard : ℕ) (table : TableDef) (joinCol : Bytes)
    (rows : List (Bytes × Bytes)) : List JoinRowPayload :=
  (rows.map (payloadOf table joinCol)).filter fun row => hashJoinKey row.joinKey numShards = shard

/-- The request of `RunShuffleJoin` to one shard. -/
def shuffleRequest (numShards shard : ℕ) (txnId : UInt64) (left right : TableDef)
    (leftJoinCol rightJoinCol : Bytes) (leftRows rightRows : List (Bytes × Bytes)) :
    DistributedJoinRequest :=
  { joinRequest txnId .shuffle left right leftJoinCol rightJoinCol with
    shuffleBuildRows := rowsByShard numShards shard left leftJoinCol leftRows
    shuffleProbeRows := rowsByShard numShards shard right rightJoinCol rightRows }

/-- Assign the columns one after the other. -/
def assignAll (row : RowMap) (columns : JoinOutputRow) : RowMap :=
  columns.foldl (fun m c => m.insert c.1 c.2) row

theorem lookup_cons_eq (k : Bytes) (x : Bytes × Bytes) (l : List (Bytes × Bytes)) :
    (x :: l).lookup k = if x.1 = k then some x.2 else l.lookup k := by
  obtain ⟨a, v⟩ := x
  rw [List.lookup_cons]
  by_cases ha : a = k
  · rw [if_pos ha, ha, BEq.rfl]
  · rw [if_neg ha, beq_eq_false_iff_ne.mpr (Ne.symm ha)]

/-- **The last value that is assigned to a column counts.** -/
theorem find_assignAll (row : RowMap) (columns : JoinOutputRow) (name : Bytes) :
    (assignAll row columns).find name = (columns.reverse.lookup name).or (row.find name) := by
  induction columns generalizing row with
  | nil => rfl
  | cons c columns ih =>
    have hstep : assignAll row (c :: columns) = assignAll (row.insert c.1 c.2) columns := rfl
    rw [hstep, ih, List.reverse_cons, List.lookup_append, lookup_cons_eq, SortedMap.find_insert]
    by_cases hc : c.1 = name
    · cases columns.reverse.lookup name <;> simp [hc]
    · cases columns.reverse.lookup name <;> simp [hc, Ne.symm hc]

/-- `MergeShardResponses`. -/
def mergeShardResponses : List DistributedJoinResponse → Except Status (List RowMap)
  | [] => .ok []
  | resp :: resps =>
    if !resp.ok then .error ⟨resp.errorCode, resp.errorMessage⟩
    else do
      let rows ← mergeShardResponses resps
      return resp.rows.map (assignAll .empty) ++ rows

/-! ## One shard -/

/-- The columns of a row of a table. -/
def rowColumns (table : TableDef) (cells : List Bytes) : JoinOutputRow :=
  namedCells table.name (table.columns.map ColumnDef.name) cells

/-- A row that cannot be read. -/
def corruptRow (side : String) : Status := ⟨.invalidArgument, "corrupt " ++ side ++ " row"⟩

/-- The rows of the right table that go with a row of the left one. -/
def joinRight (right : TableDef) (join : JoinClause) (base : RowMap) :
    List (Bytes × Bytes) → Except Status (List RowMap)
  | [] => .ok []
  | row :: rows =>
    let cells := deserializeRow row.2
    if cells.length ≠ right.columns.length then .error (corruptRow "right")
    else do
      let rest ← joinRight right join base rows
      let joined := assignAll base (rowColumns right cells)
      match joined.find join.leftColumn, joined.find join.rightColumn with
      | some l, some r => return if l = r then joined :: rest else rest
      | _, _ => return rest

/-- The loops of `ExecSelect` over the rows of one table or of two. -/
def nestedLoopJoin (left : TableDef) (right : Option (TableDef × JoinClause))
    (rightRows : List (Bytes × Bytes)) : List (Bytes × Bytes) → Except Status (List RowMap)
  | [] => .ok []
  | row :: rows =>
    let cells := deserializeRow row.2
    if cells.length ≠ left.columns.length then .error (corruptRow "left")
    else do
      let base := assignAll .empty (rowColumns left cells)
      let first ← match right with
        | none => pure [base]
        | some (right, join) => joinRight right join base rightRows
      let rest ← nestedLoopJoin left right rightRows rows
      return first ++ rest

end TransDb.Sql
