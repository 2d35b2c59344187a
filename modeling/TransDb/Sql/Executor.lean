import TransDb.Core.Program
import TransDb.Sql.Join
import TransDb.Sql.KeyRange

/-!
# The executor

`Executor` (`src/coordinator/executor.cpp`) and the planner of distributed joins
(`src/coordinator/distributed_join.cpp`), as programs that call the catalog and the
coordinator.

* `Call` — the calls; `Exec` — code that makes them and may throw.
* `bracket` — a statement in the client's transaction or in one of its own.
* `execInsert`, `execSelect`, `execUpdate`, `execDelete`, … — the statements.
* `execute` — `Executor::Execute`.
-/

namespace TransDb.Sql

open Storage Txn

/-- A transaction id of the coordinator; 0 stands for none. -/
abbrev CoordTxnId := UInt64

/-! ## Calls -/

/-- What the executor asks of the catalog, the coordinator and the C++ library. -/
inductive Call where
  | getTable (name : Bytes)
  | createTable (name : Bytes) (columns : List ColumnDef) (primaryKey : Bytes)
  | begin
  | commit (t : CoordTxnId)
  | abort (t : CoordTxnId)
  | read (t : CoordTxnId) (table : TableId) (key : Bytes)
  | write (t : CoordTxnId) (table : TableId) (key value : Bytes)
  | delete (t : CoordTxnId) (table : TableId) (key : Bytes)
  | scan (t : CoordTxnId) (table : TableId) (start stop : Bytes) (endUnbounded : Bool)
  /-- `DistributedJoinOnShard`. -/
  | join (shard : ℕ) (req : DistributedJoinRequest)
  /-- `std::sort` by a column; rows with equal cells stay in no particular order. -/
  | sort (column : Bytes) (desc : Bool) (rows : List RowMap)

abbrev Call.Answer : Call → Type
  | .getTable _ => Option TableDef
  | .createTable _ _ _ => TableId
  | .begin => CoordTxnId
  | .commit _ => Status
  | .abort _ => Status
  | .read _ _ _ => Status × Bytes
  | .write _ _ _ _ => Status
  | .delete _ _ _ => Status
  | .scan _ _ _ _ _ => Status × List (Bytes × Bytes)
  | .join _ _ => Status × DistributedJoinResponse
  | .sort _ _ _ => List RowMap

/-- Code of the executor; `none` is an exception that nobody catches. -/
abbrev Exec := OptionT (Program Call Call.Answer)

/-- Makes a call. -/
def call (c : Call) : Exec c.Answer := OptionT.lift (Program.request c)

/-- Where an exception may come from. -/
def orThrow {α : Type} (a : Option α) : Exec α := OptionT.mk (.ret a)

/-- What the executor depends on. -/
structure ExecConfig where
  double : DoubleLib
  numShards : ℕ
  /-- The environment variable `TRANS_DB_JOIN_PHYSICAL`. -/
  joinPhysical : PhysicalOp

/-! ## Results -/

/-- What a statement returns. -/
structure ExecResult where
  ok : Bool
  error : String
  columns : List Bytes
  rows : List (List Bytes)
  affectedRows : ℕ
  commandTag : String
  deriving DecidableEq

namespace ExecResult

/-- Success, without rows. -/
def init : ExecResult := ⟨true, "", [], [], 0, ""⟩

/-- An error. -/
def failed (res : ExecResult) (error : String) : ExecResult := { res with ok := false, error := error }

/-- With a command tag. -/
def tagged (res : ExecResult) (tag : String) : ExecResult := { res with commandTag := tag }

end ExecResult

/-- The result, and the transaction. -/
structure ExecOutput where
  result : ExecResult
  txnId : CoordTxnId
  deriving DecidableEq

/-- A statement that fails before it begins a transaction. -/
def refused (error : String) (txnId : CoordTxnId) : Exec ExecOutput :=
  pure ⟨ExecResult.init.failed error, txnId⟩

/-- `ok()`. -/
def Status.isOk (st : Status) : Bool := st.code = .ok

/-- What a failed body leaves: the tag for no row where the source has one, or the error. -/
def failure (noRow : Option String) (st : Status) (res : ExecResult) : ExecResult :=
  match noRow with
  | some tag => if st.code = .notFound then res.tagged tag else res.failed st.message
  | none => res.failed st.message

/-- A statement in the transaction of the client, or in one of its own, which is committed if
the body succeeds and aborted if not.  `done` is what success adds to the result. -/
def bracket (noRow : Option String) (done : ExecResult → ExecResult) (txnId : CoordTxnId)
    (body : CoordTxnId → Exec (Status × ExecResult)) : Exec ExecOutput := do
  if txnId ≠ 0 then
    let (st, res) ← body txnId
    return ⟨if Status.isOk st then done res else failure noRow st res, txnId⟩
  else
    let t ← call .begin
    let (st, res) ← body t
    if Status.isOk st then
      let c ← call (.commit t)
      return ⟨if Status.isOk c then done res else res.failed c.message, 0⟩
    else
      let _ ← call (.abort t)
      return ⟨failure noRow st res, 0⟩

/-! ## Statements that write -/

/-- `ExecCreateTable`. -/
def execCreateTable (stmt : CreateTableStmt) (txnId : CoordTxnId) : Exec ExecOutput := do
  let tid ← call (.createTable stmt.tableName stmt.columns stmt.primaryKey)
  if tid = 0 then refused "create table failed (exists or invalid primary key)" txnId
  else return ⟨ExecResult.init.tagged "CREATE TABLE", txnId⟩

/-- One row is written. -/
def affected (tag : String) (res : ExecResult) : ExecResult :=
  { res with affectedRows := 1, commandTag := tag }

/-- `ExecInsert`. -/
def execInsert (cfg : ExecConfig) (stmt : InsertStmt) (txnId : CoordTxnId) : Exec ExecOutput := do
  match ← call (.getTable stmt.tableName) with
  | none => refused "unknown table" txnId
  | some table =>
    if table.columns.any fun c => c.name ∉ stmt.columns then
      refused "INSERT must specify all columns" txnId
    else
      let row := serializeRow cfg.double table stmt.columns stmt.values
      match (stmt.columns.zip stmt.values).lookup table.primaryKey with
      | none => refused "primary key column missing in INSERT" txnId
      | some value =>
        match findColumn table table.primaryKey with
        | none => refused "table missing primary key column" txnId
        | some _ =>
          let pk := literalToString cfg.double value
          bracket none (affected "INSERT 0 1") txnId fun t => do
            let st ← call (.write t table.tableId pk row)
            return (st, .init)

/-- The conditions on columns other than the primary key, over the cells of a row. -/
inductive Checked where
  | unknownColumn
  | mismatch
  | passed
  deriving DecidableEq

/-- Checks the conditions. -/
def checkConditions (D : DoubleLib) (table : TableDef) (cells : List Bytes) :
    WhereClause → Checked
  | [] => .passed
  | ex :: exs =>
    if ex.column = table.primaryKey then checkConditions D table cells exs
    else
      match columnIndex table ex.column with
      | none => .unknownColumn
      | some i =>
        if compareCell D (cells.getD i []) ex.op ex.value
            ((table.columns[i]?.map ColumnDef.type).getD .varchar) then
          checkConditions D table cells exs
        else .mismatch

/-- `UPDATE` and `DELETE` read their row and check it. -/
def readRow (cfg : ExecConfig) (table : TableDef) (key : Bytes) (filter : WhereClause)
    (t : CoordTxnId) (change : List Bytes → Exec Status) : Exec (Status × ExecResult) := do
  let (st, data) ← call (.read t table.tableId key)
  if !Status.isOk st then return (st, .init)
  let cells := deserializeRow data
  if cells.length ≠ table.columns.length then
    return (⟨.invalidArgument, "corrupt row"⟩, .init)
  match checkConditions cfg.double table cells filter with
  | .unknownColumn => return (⟨.invalidArgument, "unknown column in WHERE"⟩, .init)
  | .mismatch => return (⟨.notFound, "filter mismatch"⟩, .init)
  | .passed => return (← change cells, .init)

/-- The new cell of an arithmetic assignment; the outer option is an exception. -/
def arithCell (D : DoubleLib) (type : ColumnType) (cur : Bytes) (ax : ArithExpr) : Option Bytes :=
  match type with
  | .float => do
    let base ← (D.stod cur).map Prod.fst
    let opd ← literalToDouble D ax.operand
    return D.print (match ax.op with | .add => D.add base opd | .sub => D.sub base opd)
  | _ => do
    let base ← stoll cur
    let opd ← literalToInt64 D ax.operand
    return decimalInt (match ax.op with | .add => base + opd | .sub => base - opd).toInt

/-- The cells after the assignments, or an error; the outer option is an exception. -/
def assignCells (D : DoubleLib) (table : TableDef) :
    List Bytes → List Assignment → Option (Except Status (List Bytes))
  | cells, [] => some (.ok cells)
  | cells, a :: rest =>
    match columnIndex table a.column with
    | none => some (.error ⟨.invalidArgument, "unknown SET column"⟩)
    | some i =>
      let type := (table.columns[i]?.map ColumnDef.type).getD .varchar
      match a.literal, a.arith with
      | some lit, _ => assignCells D table (cells.set i (literalToString D lit)) rest
      | none, some ax =>
        match arithCell D type (cells.getD i []) ax with
        | none => none
        | some cell => assignCells D table (cells.set i cell) rest
      | none, none => some (.error ⟨.invalidArgument, "bad assignment"⟩)

/-- `ExecUpdate`. -/
def execUpdate (cfg : ExecConfig) (stmt : UpdateStmt) (txnId : CoordTxnId) : Exec ExecOutput := do
  match ← call (.getTable stmt.tableName) with
  | none => refused "unknown table" txnId
  | some table =>
    match ← orThrow (extractPrimaryKey cfg.double stmt.filter table) with
    | none => refused "UPDATE requires point lookup on primary key" txnId
    | some pk =>
      bracket (some "UPDATE 0") (affected "UPDATE 1") txnId fun t =>
        readRow cfg table pk stmt.filter t fun cells => do
          match ← orThrow (assignCells cfg.double table cells stmt.assignments) with
          | .error st => return st
          | .ok cells =>
            call (.write t table.tableId pk (encodeCells table.columns.length cells))

/-- `ExecDelete`. -/
def execDelete (cfg : ExecConfig) (stmt : DeleteStmt) (txnId : CoordTxnId) : Exec ExecOutput := do
  match ← call (.getTable stmt.tableName) with
  | none => refused "unknown table" txnId
  | some table =>
    match ← orThrow (extractPrimaryKey cfg.double stmt.filter table) with
    | none => refused "DELETE requires point lookup on primary key" txnId
    | some pk =>
      bracket (some "DELETE 0") (affected "DELETE 1") txnId fun t =>
        readRow cfg table pk stmt.filter t fun _ => call (.delete t table.tableId pk)

/-! ## Joins of several shards -/

/-- The answers of all shards, which are asked at the same time. -/
def askShards (request : ℕ → DistributedJoinRequest) :
    List ℕ → Exec (List (Status × DistributedJoinResponse))
  | [] => pure []
  | shard :: shards => do
    let answer ← call (.join shard (request shard))
    let answers ← askShards request shards
    return answer :: answers

/-- The first call that failed, or all answers merged. -/
def mergeAnswers (answers : List (Status × DistributedJoinResponse)) : Except Status (List RowMap) :=
  match answers.find? fun a => !Status.isOk a.1 with
  | some a => .error a.1
  | none => mergeShardResponses (answers.map Prod.snd)

/-- `RunBroadcastJoin`. -/
def runBroadcastJoin (cfg : ExecConfig) (t : CoordTxnId) (build probe : TableDef)
    (buildJoinCol probeJoinCol : Bytes) (buildRows : List (Bytes × Bytes)) :
    Exec (Except Status (List RowMap)) := do
  let request := broadcastRequest t build probe buildJoinCol probeJoinCol buildRows
  return mergeAnswers (← askShards (fun _ => request) (List.range cfg.numShards))

/-- `RunShuffleJoin`. -/
def runShuffleJoin (cfg : ExecConfig) (t : CoordTxnId) (left right : TableDef)
    (leftJoinCol rightJoinCol : Bytes) (leftRows rightRows : List (Bytes × Bytes)) :
    Exec (Except Status (List RowMap)) := do
  let request := fun shard =>
    shuffleRequest cfg.numShards shard t left right leftJoinCol rightJoinCol leftRows rightRows
  return mergeAnswers (← askShards request (List.range cfg.numShards))

/-- All rows of a table. -/
def scanTable (t : CoordTxnId) (table : TableDef) : Exec (Status × List (Bytes × Bytes)) :=
  call (.scan t table.tableId [] [] true)

/-- `ExecuteInnerJoin`. -/
def executeInnerJoin (cfg : ExecConfig) (t : CoordTxnId) (left right : TableDef)
    (join : JoinClause) (op : PhysicalOp) : Exec (Except Status (List RowMap)) := do
  let (ls, leftRows) ← scanTable t left
  if !Status.isOk ls then return .error ls
  let (rs, rightRows) ← scanTable t right
  if !Status.isOk rs then return .error rs
  match resolveOp op leftRows.length rightRows.length with
  | .broadcast =>
    if leftRows.length ≤ rightRows.length then
      runBroadcastJoin cfg t left right join.leftColumn join.rightColumn leftRows
    else runBroadcastJoin cfg t right left join.rightColumn join.leftColumn rightRows
  | .shuffle =>
    runShuffleJoin cfg t left right join.leftColumn join.rightColumn leftRows rightRows

/-! ## The extended path of `SELECT` -/

/-- The rows before any clause is applied. -/
def sourceRows (cfg : ExecConfig) (t : CoordTxnId) (left : TableDef)
    (right : Option (TableDef × JoinClause)) : Exec (Except Status (List RowMap)) := do
  match right with
  | none =>
    let (st, rows) ← scanTable t left
    if !Status.isOk st then return .error st
    return nestedLoopJoin left none [] rows
  | some (table, join) =>
    if 1 < cfg.numShards then executeInnerJoin cfg t left table join cfg.joinPhysical
    else
      let (ls, leftRows) ← scanTable t left
      if !Status.isOk ls then return .error ls
      let (rs, rightRows) ← scanTable t table
      if !Status.isOk rs then return .error rs
      return nestedLoopJoin left (some (table, join)) rightRows leftRows

/-- A cell by the name of its column, or by the name after the last dot. -/
def rowCell (row : RowMap) (name : Bytes) : Option Bytes :=
  (row.find name).or (row.find (baseColName name))

/-- The type of a column: that of the first table that has it. -/
def conditionType (left : TableDef) (right : Option TableDef) (name : Bytes) : ColumnType :=
  match findColumn left (baseColName name) with
  | some c => c.type
  | none => ((right.bind fun t => findColumn t (baseColName name)).map ColumnDef.type).getD .varchar

/-- The row meets the conditions. -/
def rowPasses (D : DoubleLib) (left : TableDef) (right : Option TableDef) (row : RowMap)
    (conditions : WhereClause) : Bool :=
  conditions.all fun ex =>
    (rowCell row ex.column).any fun cell =>
      compareCell D cell ex.op ex.value (conditionType left right ex.column)

/-- The name of the column. -/
def aggregateName : AggregateFunc → Bytes
  | .count => ascii "count"
  | .sum => ascii "sum"
  | .min => ascii "min"
  | .max => ascii "max"

/-- `have`, `sum`, `mn` and `mx` over the cells that are numbers. -/
def foldNumbers (D : DoubleLib) (cells : List Bytes) : Option (Double × Double × Double) :=
  cells.foldl (fun acc cell =>
    match D.stod cell with
    | none => acc
    | some (v, _) =>
      match acc with
      | none => some (D.add D.zero v, D.min v v, D.max v v)
      | some (sum, mn, mx) => some (D.add sum v, D.min mn v, D.max mx v)) none

/-- Its value. -/
def aggregateCell (D : DoubleLib) (rows : List RowMap) (agg : Aggregate) : Bytes :=
  let cells := rows.filterMap fun row => rowCell row agg.column
  match agg.func with
  | .count =>
    if agg.star then decimal rows.length else decimal (cells.filter fun c => c ≠ []).length
  | func =>
    match foldNumbers D cells with
    | none => [48]
    | some (sum, mn, mx) =>
      match func with
      | .sum => D.toText sum
      | .min => D.toText mn
      | _ => D.toText mx

/-- The one row of a `SELECT` with aggregates. -/
def aggregateRow (D : DoubleLib) (stmt : SelectStmt) (rows : List RowMap) : List Bytes :=
  stmt.columns.map (fun c => ((rows.head?.bind fun row => rowCell row c).getD [])) ++
    stmt.aggregates.map (aggregateCell D rows)

/-- The columns of the result of a `SELECT` without aggregates. -/
def outputColumns (stmt : SelectStmt) (left : TableDef) (right : Option TableDef) : List Bytes :=
  if stmt.selectAll || stmt.columns.isEmpty then
    left.columns.map ColumnDef.name ++ (right.map fun t => t.columns.map ColumnDef.name).getD []
  else stmt.columns

/-- The columns that are asked for. -/
def projectRow (columns : List Bytes) (row : RowMap) : List Bytes :=
  columns.map fun c => (rowCell row c).getD []

/-- The result for the rows that are left after `WHERE`, `ORDER BY` and `LIMIT`. -/
def selectResult (D : DoubleLib) (stmt : SelectStmt) (left : TableDef) (right : Option TableDef)
    (rows : List RowMap) : ExecResult :=
  let (columns, out) :=
    if stmt.aggregates.isEmpty then
      let columns := outputColumns stmt left right
      (columns, rows.map (projectRow columns))
    else
      (stmt.columns ++ stmt.aggregates.map fun a => aggregateName a.func,
        [aggregateRow D stmt rows])
  { ExecResult.init with
    columns := columns
    rows := out
    commandTag := "SELECT " ++ toString out.length }

/-- `run_extended`. -/
def runExtended (cfg : ExecConfig) (stmt : SelectStmt) (left : TableDef)
    (right : Option (TableDef × JoinClause)) (t : CoordTxnId) : Exec (Status × ExecResult) := do
  match ← sourceRows cfg t left right with
  | .error st => return (st, .init)
  | .ok rows =>
    let rightTable := right.map Prod.fst
    let rows := match stmt.filter with
      | some conditions => rows.filter fun row => rowPasses cfg.double left rightTable row conditions
      | none => rows
    let rows ← match stmt.orderBy with
      | some o => call (.sort o.column o.desc rows)
      | none => pure rows
    let rows := match stmt.limit with
      | some n => rows.take n.toNat
      | none => rows
    return (.ok, selectResult cfg.double stmt left rightTable rows)

/-! ## The point and range paths of `SELECT` -/

/-- What `classify_cells` makes of a row. -/
inductive Classified where
  | fatal (error : String)
  | skip
  | row (values : List Bytes)
  deriving DecidableEq

/-- The cells of the selected columns; `none` if a column is unknown. -/
def projectCells (table : TableDef) (cells : List Bytes) (columns : List Bytes) :
    Option (List Bytes) :=
  columns.mapM fun c => (columnIndex table c).map fun i => cells.getD i []

/-- What becomes of a row. -/
def classifyCells (D : DoubleLib) (table : TableDef) (conditions : WhereClause)
    (columns cells : List Bytes) : Classified :=
  if cells.length ≠ table.columns.length then .fatal "corrupt row"
  else
    match checkConditions D table cells conditions with
    | .unknownColumn => .fatal "unknown column in WHERE"
    | .mismatch => .skip
    | .passed =>
      match projectCells table cells columns with
      | none => .fatal "unknown column in SELECT"
      | some values => .row values

/-- The loop over the rows that were fetched, after some of them. -/
def collectRows (D : DoubleLib) (table : TableDef) (conditions : WhereClause)
    (columns : List Bytes) : ExecResult → List Bytes → Status × ExecResult
  | res, [] => (.ok, res.tagged ("SELECT " ++ toString res.rows.length))
  | res, data :: rest =>
    match classifyCells D table conditions columns (deserializeRow data) with
    | .fatal error => (⟨.invalidArgument, error⟩, res.failed error)
    | .skip => collectRows D table conditions columns res rest
    | .row values =>
      collectRows D table conditions columns
        { res with columns := columns, rows := res.rows ++ [values] } rest

/-- `run_point`. -/
def runPoint (cfg : ExecConfig) (table : TableDef) (conditions : WhereClause)
    (columns : List Bytes) (key : Bytes) (t : CoordTxnId) : Exec (Status × ExecResult) := do
  let (st, data) ← call (.read t table.tableId key)
  if !Status.isOk st then return (st, .init)
  return collectRows cfg.double table conditions columns .init [data]

/-- `run_range`. -/
def runRange (cfg : ExecConfig) (table : TableDef) (conditions : WhereClause)
    (columns : List Bytes) (kr : KeyRange) (t : CoordTxnId) : Exec (Status × ExecResult) := do
  let (st, fetched) ← call (.scan t table.tableId kr.start kr.stop kr.endUnbounded)
  if !Status.isOk st then return (st, .init)
  return collectRows cfg.double table conditions columns .init (fetched.map Prod.snd)

/-- The key is not bounded. -/
def noKeyRange : String :=
  "WHERE must constrain primary key with a supported predicate (INT/BIGINT point or bounded " ++
    "range; FLOAT point only)"

/-- A `SELECT` with a `WHERE` and no other clause. -/
def selectByKey (cfg : ExecConfig) (stmt : SelectStmt) (table : TableDef)
    (conditions : WhereClause) (txnId : CoordTxnId) : Exec ExecOutput := do
  match ← orThrow (extractKeyRange cfg.double conditions table) with
  | none => refused noKeyRange txnId
  | some kr =>
    let columns :=
      if stmt.columns.isEmpty then table.columns.map ColumnDef.name else stmt.columns
    if kr.isPoint then
      if kr.start.isEmpty then return ⟨ExecResult.init.tagged "SELECT 0", txnId⟩
      bracket (some "SELECT 0") id txnId (runPoint cfg table conditions columns kr.start)
    else if (!kr.startUnbounded && kr.start.isEmpty) || (!kr.endUnbounded && kr.stop.isEmpty) then
      refused "invalid primary key range" txnId
    else bracket none id txnId (runRange cfg table conditions columns kr)

/-- `ExecSelect`. -/
def execSelect (cfg : ExecConfig) (stmt : SelectStmt) (txnId : CoordTxnId) : Exec ExecOutput := do
  match ← call (.getTable stmt.tableName) with
  | none => refused "unknown table" txnId
  | some table =>
    match stmt.join, stmt.filter with
    | some join, _ =>
      match ← call (.getTable join.tableName) with
      | none => refused "unknown JOIN table" txnId
      | some right => bracket none id txnId (runExtended cfg stmt table (some (right, join)))
    | none, none => bracket none id txnId (runExtended cfg stmt table none)
    | none, some conditions =>
      if stmt.orderBy.isSome || stmt.limit.isSome || !stmt.aggregates.isEmpty then
        bracket none id txnId (runExtended cfg stmt table none)
      else selectByKey cfg stmt table conditions txnId

/-! ## Transactions -/

/-- `ExecBegin`. -/
def execBegin (txnId : CoordTxnId) : Exec ExecOutput := do
  if txnId ≠ 0 then refused "already in transaction" txnId
  else return ⟨ExecResult.init.tagged "BEGIN", ← call .begin⟩

/-- `ExecCommit`. -/
def execCommit (txnId : CoordTxnId) : Exec ExecOutput := do
  if txnId = 0 then refused "no transaction in progress" 0
  else
    let c ← call (.commit txnId)
    if Status.isOk c then return ⟨ExecResult.init.tagged "COMMIT", 0⟩
    else refused c.message txnId

/-- `ExecRollback`. -/
def execRollback (txnId : CoordTxnId) : Exec ExecOutput := do
  if txnId ≠ 0 then
    let _ ← call (.abort txnId)
  return ⟨ExecResult.init.tagged "ROLLBACK", 0⟩

/-- `Execute`. -/
def execute (cfg : ExecConfig) (stmt : Statement) (txnId : CoordTxnId) : Exec ExecOutput :=
  match stmt with
  | .createTable stmt => execCreateTable stmt txnId
  | .insert stmt => execInsert cfg stmt txnId
  | .select stmt => execSelect cfg stmt txnId
  | .update stmt => execUpdate cfg stmt txnId
  | .delete stmt => execDelete cfg stmt txnId
  | .begin => execBegin txnId
  | .commit => execCommit txnId
  | .rollback => execRollback txnId

end TransDb.Sql
