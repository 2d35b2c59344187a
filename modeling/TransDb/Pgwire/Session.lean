import TransDb.Core.Stateful
import TransDb.Pgwire.Messages
import TransDb.Pgwire.Params
import TransDb.Sql.Executor
import TransDb.Sql.Parser

/-!
# A session

`PgSession` (`src/pgwire/pgwire_server.cpp`): the state of one connection, the handlers of its
messages, and the loop over the bytes that the client sends.

* `PgSession` — the state; `Request` — what the handlers ask of the executor, the catalog and
  the socket.
* `processSingle` — one statement; `handleSimpleQuery`, `handleParse`, `handleBind`,
  `handleDescribe`, `handleExecute`, `handleSync`, `handleClose` — the handlers.
* `serve`, `run` — the loop.
-/

namespace TransDb.Pgwire

open Function

open Sql

/-! ## State and requests -/

/-- A prepared statement. -/
structure PreparedStmt where
  name : Bytes
  query : Bytes
  paramOids : List ℕ
  deriving DecidableEq

/-- A portal. -/
structure Portal where
  stmtName : Bytes
  query : Bytes
  paramValues : List Bytes
  deriving DecidableEq

/-- A session. -/
structure PgSession where
  preparedStmts : Bytes → Option PreparedStmt
  portals : Bytes → Option Portal
  currentTxnId : CoordTxnId
  txnFailed : Bool
  ioOk : Bool
  writeBuf : Bytes

/-- A session at its start. -/
def PgSession.init : PgSession := ⟨fun _ => none, fun _ => none, 0, false, true, []⟩

/-- What the code asks for. -/
inductive Request where
  /-- `Executor::Execute`. -/
  | execute (stmt : Statement) (txnId : CoordTxnId)
  | getTable (name : Bytes)
  /-- A message is appended to `write_buf_`. -/
  | write (m : BackendMessage)
  /-- `SendBytes`. -/
  | send (bytes : Bytes)
  /-- A view of a string that is destroyed already is read. -/
  | stale (bytes : Bytes)

/-- The answer to `execute` is `none` if the executor throws, that to `stale` is what is found in
the place of the bytes. -/
abbrev Request.Answer : Request → Type
  | .execute _ _ => Option ExecOutput
  | .getTable _ => Option TableDef
  | .write _ => Unit
  | .send _ => Bool
  | .stale _ => Bytes

/-- Code of a session.  An exception ends the process. -/
abbrev Wire := Stateful PgSession Request Request.Answer

open Stateful (request throw)

/-! ## Writing -/

/-- Writes a message. -/
def write (m : BackendMessage) : Wire Unit := do
  let _ ← request (.write m)
  modify fun s => { s with writeBuf := s.writeBuf ++ m.encode }

/-- Sends bytes. -/
def sendBytes (bytes : Bytes) : Wire Bool := do
  let ok ← request (.send bytes)
  modify fun s => { s with ioOk := s.ioOk && ok }
  return ok

/-- Sends what was written. -/
def flush : Wire Unit := do
  let s ← get
  if s.writeBuf = [] then return
  let _ ← sendBytes s.writeBuf
  modify fun s => { s with writeBuf := [] }

/-- `WriteErrorResponse`. -/
def writeErrorResponse (code message : String) : Wire Unit := do
  write (.errorResponse "ERROR" code message)
  flush

/-- `TxnIndicator`. -/
def PgSession.txnIndicator (s : PgSession) : TxnStatus :=
  if s.txnFailed then .failed else if s.currentTxnId ≠ 0 then .inTransaction else .idle

/-- `WriteReadyForQuery`. -/
def writeReadyForQuery : Wire Unit := do
  write (.readyForQuery (← get).txnIndicator)

/-- `WriteStartupAck`. -/
def writeStartupAck : Wire Unit := do
  write .authOk
  write (.parameterStatus "server_version" "15.0")
  write (.parameterStatus "server_encoding" "UTF8")
  write (.parameterStatus "client_encoding" "UTF8")
  write (.parameterStatus "DateStyle" "ISO, MDY")
  writeReadyForQuery
  flush

/-! ## Statements -/

/-- Runs a statement. -/
def execute (stmt : Statement) : Wire ExecOutput := do
  let s ← get
  let answer : Option ExecOutput ← request (Request.execute stmt s.currentTxnId)
  match answer with
  | some out => return out
  | none => throw

/-- Looks up a table. -/
def getTable (name : Bytes) : Wire (Option TableDef) := request (Request.getTable name)

/-- `resolve_col`: the type of a column of one of the tables. -/
def resolveCol (left : TableDef) (right : Option TableDef) (raw : Bytes) : ColumnType :=
  let unq := baseColName raw
  (((findColumn left raw).or (findColumn left unq)).or
    (right.bind fun t => (findColumn t raw).or (findColumn t unq))).elim .varchar ColumnDef.type

/-- The types of the result columns.  `starBig` says that an aggregate over `*` is a `BIGINT`. -/
def selectTypes (starBig : Bool) (sel : SelectStmt) (left : TableDef) (right : Option TableDef)
    (columns : List Bytes) : List ColumnType :=
  if sel.aggregates = [] then columns.map (resolveCol left right)
  else
    (List.range columns.length).map fun i =>
      match sel.columns[i]? with
      | some c => resolveCol left right c
      | none =>
        match sel.aggregates[i - sel.columns.length]? with
        | none => .varchar
        | some agg =>
          if agg.func = .count || (starBig && agg.star) then .bigint
          else resolveCol left right agg.column

/-- The tables of a `SELECT`; `none` if one is unknown. -/
def selectTables (sel : SelectStmt) : Wire (Option (TableDef × Option TableDef)) := do
  match ← getTable sel.tableName with
  | none => return none
  | some left =>
    match sel.join with
    | none => return some (left, none)
    | some join =>
      match ← getTable join.tableName with
      | none => return none
      | some right => return some (left, some right)

/-- The rows of a result. -/
def writeRows : List (List Bytes) → Wire Unit
  | [] => return
  | row :: rows => do
    write (.dataRow row)
    writeRows rows

/-- The rows and the tag. -/
def emitSuccess (stmt : Statement) (res : ExecResult) : Wire Unit := do
  match stmt with
  | .select sel =>
    match ← selectTables sel with
    | none => writeErrorResponse "XX000" "unknown table"
    | some (left, right) =>
      write (.rowDescription (res.columns.zip (selectTypes true sel left right res.columns)))
      writeRows res.rows
      write (.commandComplete res.commandTag)
  | _ => write (.commandComplete res.commandTag)

/-- The transaction has failed. -/
def abortedMessage : String :=
  "current transaction is aborted, commands ignored until end of transaction block"

/-- An error in a transaction block makes it a failed one. -/
def failBlock : Wire Unit :=
  modify fun s => { s with txnFailed := s.txnFailed || s.currentTxnId ≠ 0 }

/-- `ROLLBACK`. -/
def isRollback (stmt : Statement) : Bool :=
  match stmt with
  | .rollback => true
  | _ => false

/-- `COMMIT`. -/
def isCommit (stmt : Statement) : Bool :=
  match stmt with
  | .commit => true
  | _ => false

/-- What follows the call of the executor. -/
def afterExecute (stmt : Statement) (out : ExecOutput) : Wire Unit := do
  modify fun s => { s with currentTxnId := out.txnId }
  if !out.result.ok then
    writeErrorResponse "XX000" (if out.result.error = "" then "error" else out.result.error)
    failBlock
  else
    if isRollback stmt || isCommit stmt then modify fun s => { s with txnFailed := false }
    emitSuccess stmt out.result

/-- `ProcessSingle`. -/
def processSingle (D : DoubleLib) (sql : Bytes) : Wire Unit := do
  match parse D sql with
  | .error e =>
    writeErrorResponse "42601" e.message
    failBlock
  | .ok stmt =>
    if (← get).txnFailed && !isRollback stmt then writeErrorResponse "25P02" abortedMessage
    else
      let out ← execute stmt
      afterExecute stmt out

/-! ## Handlers -/

/-- The loop over the statements of a simple query; the result says that it came to its end. -/
def processAll (D : DoubleLib) : List Bytes → Wire Bool
  | [] => return true
  | chunk :: chunks => do
    processSingle D chunk
    if (← get).ioOk then processAll D chunks else return false

/-- The text without the zeros at its end. -/
def stripZeros (payload : Bytes) : Bytes := (payload.reverse.dropWhile (· = 0)).reverse

/-- `HandleSimpleQuery`. -/
def handleSimpleQuery (D : DoubleLib) (payload : Bytes) : Wire Unit := do
  let parts := splitStatements (stripZeros payload)
  let toEnd ← if parts = [] then do
      write .emptyQueryResponse
      pure true
    else processAll D parts
  if toEnd then
    writeReadyForQuery
    flush

/-- A message that cannot be read. -/
def protocolError (message : String) : Wire Unit := writeErrorResponse "08P01" message

/-- `HandleParse`. -/
def handleParse (payload : Bytes) : Wire Unit := do
  match decodeParse payload with
  | .error e => protocolError e
  | .ok m =>
    modify fun s => { s with
      preparedStmts := update s.preparedStmts m.name (some ⟨m.name, m.query, m.paramOids⟩) }
    write .parseComplete

/-- The entry of a name, or that of the empty name. -/
def findOrUnnamed {α : Type} (entries : Bytes → Option α) (name : Bytes) : Option α :=
  (entries name).or (entries [])

/-- `HandleBind`. -/
def handleBind (payload : Bytes) : Wire Unit := do
  match decodeBind payload with
  | .error e => protocolError e
  | .ok m =>
    match findOrUnnamed (← get).preparedStmts m.statement with
    | none => writeErrorResponse "26000" "unknown prepared statement"
    | some ps =>
      modify fun s => { s with
        portals := update s.portals m.portal
          (some ⟨m.statement, substituteParams ps.query m.params, m.params⟩) }
      write .bindComplete

/-- The contents of `Describe` and `Close` as their handlers read them: the name is read through a
view of `payload.substr(1)`, which is destroyed as soon as the view is made. -/
def readNamed (payload : Bytes) : Wire Bytes := do
  match payload with
  | [] => return []
  | kind :: b => return kind :: (← request (.stale b))

/-- The columns of the result of a `SELECT`. -/
def describeColumns (sel : SelectStmt) (res : ExecResult) :
    Wire (Option (List (Bytes × ColumnType))) := do
  if !res.ok then return none
  match ← selectTables sel with
  | none => return none
  | some (left, right) =>
    return some (res.columns.zip (selectTypes false sel left right res.columns))

/-- `DescribeSelectMeta`: a `SELECT` is executed to find the columns of its result. -/
def describeSelectMeta (D : DoubleLib) (query : Bytes) :
    Wire (Option (List (Bytes × ColumnType))) := do
  match parse D query with
  | .error _ => return none
  | .ok stmt =>
    match stmt with
    | .select sel =>
      let out ← execute stmt
      describeColumns sel out.result
    | _ => return none

/-- `HandleDescribe`. -/
def handleDescribe (D : DoubleLib) (payload : Bytes) : Wire Unit := do
  match decodeNamed "Describe" (← readNamed payload) with
  | .error e => protocolError e
  | .ok (kind, name) =>
    if kind = 83 then
      match findOrUnnamed (← get).preparedStmts name with
      | none => writeErrorResponse "26000" "unknown prepared statement"
      | some ps =>
        write (.parameterDescription ps.paramOids)
        match ← describeSelectMeta D ps.query with
        | some columns => write (.rowDescription columns)
        | none => write .noData
    else if kind = 80 then write .noData
    else protocolError "unknown Describe kind"

/-- `HandleExecute`. -/
def handleExecute (D : DoubleLib) (payload : Bytes) : Wire Unit := do
  match decodeExecute payload with
  | .error e => protocolError e
  | .ok name =>
    match findOrUnnamed (← get).portals name with
    | none => writeErrorResponse "34000" "unknown portal"
    | some portal => processSingle D portal.query

/-- `HandleSync`. -/
def handleSync : Wire Unit := do
  writeReadyForQuery
  flush

/-- `HandleClose`. -/
def handleClose (payload : Bytes) : Wire Unit := do
  match decodeNamed "Close" (← readNamed payload) with
  | .error e => protocolError e
  | .ok (kind, name) =>
    if kind = 83 then
      modify fun s => { s with preparedStmts := update s.preparedStmts name none }
      write .closeComplete
    else if kind = 80 then
      modify fun s => { s with portals := update s.portals name none }
      write .closeComplete
    else protocolError "unknown Close kind"

/-! ## The loop -/

/-- The types of messages; the other ones are passed over. -/
inductive MessageKind where
  | query
  | parse
  | bind
  | execute
  | describe
  | sync
  | flush
  | close
  | terminate
  | unknown
  deriving DecidableEq

/-- Which message it is. -/
def RawMessage.kind (m : RawMessage) : MessageKind :=
  if m.type = 88 then .terminate
  else if m.type = 81 then .query
  else if m.type = 80 then .parse
  else if m.type = 66 then .bind
  else if m.type = 69 then .execute
  else if m.type = 68 then .describe
  else if m.type = 83 then .sync
  else if m.type = 72 then .flush
  else if m.type = 67 then .close
  else .unknown

/-- The `switch` of the loop. -/
def handle (D : DoubleLib) (m : RawMessage) : Wire Unit :=
  match m.kind with
  | .query => handleSimpleQuery D m.payload
  | .parse => handleParse m.payload
  | .bind => handleBind m.payload
  | .execute => handleExecute D m.payload
  | .describe => handleDescribe D m.payload
  | .sync => handleSync
  | .flush => flush
  | .close => handleClose m.payload
  | .terminate => return
  | .unknown => return

/-- The loop over the messages that can be read.  Where there is none any more, the read fails. -/
def serve (D : DoubleLib) : List RawMessage → Wire Unit
  | [] => modify fun s => { s with ioOk := false }
  | m :: ms => do
    if !(← get).ioOk then return
    if m.kind = .terminate then return
    handle D m
    serve D ms

/-- The code of a request for TLS. -/
def sslRequestCode : ℕ := 80877103

/-- `ReadStartupNegotiation`: the startup message and the bytes behind it, `none` where it
fails. -/
def readStartup : ℕ → Bytes → Wire (Option (Bytes × Bytes))
  | 0, _ => return none
  | n + 1, input => do
    let fail : Wire (Option (Bytes × Bytes)) := do
      modify fun s => { s with ioOk := false }
      return none
    match takeBe 4 input with
    | none => fail
    | some (total, rest) =>
      if total < 8 then fail
      else
        -- a message of eight bytes may be a request for TLS; its code is read off in any case
        match if total = 8 then takeBe 4 rest else some (0, rest) with
        | none => fail
        | some (code, rest) =>
          if total = 8 ∧ code = sslRequestCode then
            if ← sendBytes (ascii "N") then readStartup n rest else return none
          else if rest.length < total - 4 then fail
          else return some (input.take 4 ++ rest.take (total - 4), rest.drop (total - 4))

/-- `PgSession::Run` over the bytes that the client sends until the socket is closed. -/
def run (D : DoubleLib) (input : Bytes) : Wire Unit := do
  match ← readStartup (input.length + 1) input with
  | none => return
  | some (_, rest) =>
    writeStartupAck
    serve D (messages rest)

end TransDb.Pgwire
