import TransDb.Sql.Executor

/-!
# A database behind the executor

A coordinator that does what it should, for one client at a time: reads and scans see the
rows that were written, an abort takes the writes of its transaction back.  The rows of a
table lie on the shards by the hash of their keys, as `RouteShard` places them.

* `Database`, `Database.serve` — the rows, and the answers to the calls of the executor.
* `Database.run` — a statement run against it.
* `scanned` — the rows of a range of keys.
* `run_bracket`, `run_bracket_throws` — a statement in a transaction, by its body.
-/

namespace TransDb.Sql

open Storage Txn

/-- Tables that hold their rows. -/
structure Database where
  catalog : Catalog
  rows : TableId → SortedMap Bytes Bytes
  /-- The rows when the open transaction began. -/
  before : TableId → SortedMap Bytes Bytes
  nextTxnId : CoordTxnId

/-- The rows of a range of keys, in key order. -/
def scanned (rows : SortedMap Bytes Bytes) (start stop : Bytes) (endUnbounded : Bool) :
    List (Bytes × Bytes) :=
  rows.entries.filter fun e => start ≤ e.1 ∧ (endUnbounded = true ∨ e.1 < stop)

theorem scanned_all (rows : SortedMap Bytes Bytes) : scanned rows [] [] true = rows.entries := by
  refine List.filter_eq_self.mpr fun e _ => decide_eq_true ⟨?_, .inl rfl⟩
  exact not_lt.mp (List.not_lt_nil e.1)

/-- The rows of a table on one of the shards. -/
def shardRows (numShards shard : ℕ) (rows : SortedMap Bytes Bytes) : List (Bytes × Bytes) :=
  rows.entries.filter fun e => hashJoinKey e.1 numShards = shard

/-- The cell by which rows are sorted. -/
def sortCell (column : Bytes) (row : RowMap) : Bytes := (row.find column).getD []

namespace Database

/-- Empty tables. -/
def init (catalog : Catalog) : Database :=
  ⟨catalog, fun _ => .empty, fun _ => .empty, 1⟩

/-- The join of one shard, over the rows that it has. -/
def joinOn (db : Database) (numShards shard : ℕ) (req : DistributedJoinRequest) :
    DistributedJoinResponse :=
  runDistributedJoin (fun table => (.ok, shardRows numShards shard (db.rows table))) 1 req

/-- The answers of the coordinator and of the shards. -/
def serve (numShards : ℕ) : (c : Call) → Database → c.Answer × Database
  | .getTable name, db => (db.catalog.getTable name, db)
  | .createTable name columns primaryKey, db =>
    let (tid, catalog) := db.catalog.createTable name columns primaryKey
    (tid, { db with catalog := catalog })
  | .begin, db => (db.nextTxnId, { db with before := db.rows, nextTxnId := db.nextTxnId + 1 })
  | .commit _, db => (.ok, db)
  | .abort _, db => (.ok, { db with rows := db.before })
  | .read _ table key, db =>
    match (db.rows table).find key with
    | some data => ((.ok, data), db)
    | none => ((.notFound, []), db)
  | .write _ table key value, db =>
    (.ok, { db with rows := Function.update db.rows table ((db.rows table).insert key value) })
  | .delete _ table key, db =>
    (.ok, { db with rows := Function.update db.rows table ((db.rows table).erase key) })
  | .scan _ table start stop endUnbounded, db =>
    ((.ok, scanned (db.rows table) start stop endUnbounded), db)
  | .join shard req, db =>
    let resp := db.joinOn numShards shard req
    -- a message that is refused is sent again until there are no more attempts
    (if carried req resp then (.ok, resp)
      else (⟨.ioError, "no raft leader available on shard"⟩, ⟨false, .ok, "", []⟩), db)
  | .sort column desc rows, db =>
    (rows.mergeSort fun a b =>
      if desc then sortCell column b ≤ sortCell column a else sortCell column a ≤ sortCell column b,
      db)

/-- Run code of the executor; `none` is an exception. -/
def run {α : Type} (numShards : ℕ) (db : Database) (code : Exec α) : Option α × Database :=
  Program.answered (serve numShards) code.run db

variable {numShards : ℕ} {db : Database} {α β : Type}

@[simp] theorem run_pure (a : α) : db.run numShards (pure a : Exec α) = (some a, db) := rfl

/-- A call and what follows it. -/
@[simp] theorem run_call_bind (c : Call) (f : c.Answer → Exec β) :
    db.run numShards (call c >>= f) = (serve numShards c db).2.run numShards (f (serve numShards c db).1) :=
  rfl

theorem serve_getTable {name : Bytes} {table : TableDef} (h : db.catalog.getTable name = some table) :
    serve numShards (.getTable name) db = (some table, db) := by
  rw [serve, h]

theorem run_bind (code : Exec α) (f : α → Exec β) :
    db.run numShards (code >>= f) = match db.run numShards code with
      | (some a, db') => db'.run numShards (f a)
      | (none, db') => (none, db') := by
  have hbind := Program.answered_bind (serve numShards) code.run
    (fun x => match x with
      | some a => (f a).run
      | none => pure none) db
  refine hbind.trans ?_
  rw [run]
  rcases Program.answered (serve numShards) code.run db with ⟨_ | a, db'⟩ <;> rfl

theorem run_bind_some {code : Exec α} {f : α → Exec β} {a : α} {db' : Database}
    (h : db.run numShards code = (some a, db')) :
    db.run numShards (code >>= f) = db'.run numShards (f a) := by
  rw [run_bind, h]

/-- An exception is passed on. -/
theorem run_bind_none {code : Exec α} (f : α → Exec β) (h : (db.run numShards code).1 = none) :
    (db.run numShards (code >>= f)).1 = none := by
  rw [run_bind, ← Prod.mk.eta (p := db.run numShards code), h]

variable {noRow : Option String} {done : ExecResult → ExecResult} {txnId : CoordTxnId}
    {body : CoordTxnId → Exec (Status × ExecResult)} {res : ExecResult}

/-- A statement with its body, whatever transaction that runs in. -/
theorem run_bracket {st : Status} {rows : TableId → SortedMap Bytes Bytes}
    (hbody : ∀ t (db' : Database), db'.catalog = db.catalog → db'.rows = db.rows →
      ∃ db'', db'.run numShards (body t) = (some (st, res), db'') ∧ db''.catalog = db.catalog ∧
        db''.rows = rows) :
    ∃ t db'', db.run numShards (bracket noRow done txnId body) =
        (some ⟨if Status.isOk st then done res else failure noRow st res, t⟩, db'') ∧
      (Status.isOk st = true → db''.catalog = db.catalog ∧ db''.rows = rows) := by
  unfold bracket
  by_cases htxn : txnId ≠ 0
  · obtain ⟨db'', hrun, hafter⟩ := hbody txnId db rfl rfl
    refine ⟨txnId, db'', ?_, fun _ => hafter⟩
    rw [if_pos htxn, run_bind_some hrun]
    rfl
  · obtain ⟨db'', hrun, hafter⟩ :=
      hbody (serve numShards .begin db).1 (serve numShards .begin db).2 rfl rfl
    rw [if_neg htxn, run_call_bind, run_bind_some hrun]
    simp only
    cases Status.isOk st with
    | true => exact ⟨0, db'', rfl, fun _ => hafter⟩
    | false => exact ⟨0, _, rfl, nofun⟩

/-- A statement whose body throws. -/
theorem run_bracket_throws (hbody : ∀ t (db' : Database), db'.rows = db.rows →
      (db'.run numShards (body t)).1 = none) :
    (db.run numShards (bracket noRow done txnId body)).1 = none := by
  unfold bracket
  split_ifs
  · exact run_bind_none _ (hbody _ _ rfl)
  · rw [run_call_bind]
    exact run_bind_none _ (hbody _ _ rfl)

end Database

end TransDb.Sql
