import TransDb.Core.Text
import TransDb.Storage.MvccStore

/-!
# Tables and statements

The catalog (`src/coordinator/catalog.h`) and the statements of the SQL dialect
(`src/coordinator/parser.h`).

* `TableDef`, `Catalog` — tables and their columns.
* `Double`, `DoubleLib` — floating-point numbers: their bits, and what the code asks of the
  C++ library about them.
* `Statement` — what the parser returns and the executor runs.
-/

namespace TransDb.Sql

open Storage

/-! ## Catalog -/

/-- The type of a column. -/
inductive ColumnType where
  | int
  | bigint
  | float
  | varchar
  deriving DecidableEq

/-- A column. -/
structure ColumnDef where
  name : Bytes
  type : ColumnType
  deriving DecidableEq

/-- A table. -/
structure TableDef where
  tableId : TableId
  name : Bytes
  columns : List ColumnDef
  primaryKey : Bytes
  deriving DecidableEq

/-- All tables. -/
structure Catalog where
  nextTableId : TableId
  tables : Bytes → Option TableDef

namespace Catalog

/-- There are no tables. -/
def empty : Catalog := ⟨1, fun _ => none⟩

/-- `GetTable`. -/
def getTable (c : Catalog) (name : Bytes) : Option TableDef := c.tables name

/-- The id of the new table, 0 if there is none. -/
def createTable (c : Catalog) (name : Bytes) (columns : List ColumnDef) (primaryKey : Bytes) :
    TableId × Catalog :=
  if (c.tables name).isSome then (0, c)
  else if columns.any (fun col => col.name = primaryKey) then
    (c.nextTableId,
      ⟨c.nextTableId + 1,
        Function.update c.tables name (some ⟨c.nextTableId, name, columns, primaryKey⟩)⟩)
  else (0, c)

end Catalog

/-! ## Floating-point numbers -/

/-- A `double`, by its bits. -/
structure Double where
  bits : UInt64
  deriving DecidableEq

/-- What the code uses of the C++ library for `double`.  Nothing is assumed about it. -/
structure DoubleLib where
  ofInt64 : Int64 → Double
  /-- `static_cast<int64_t>`. -/
  toInt64 : Double → Int64
  /-- `std::stod`, with the number of characters it read; `none` where it throws. -/
  stod : Bytes → Option (Double × ℕ)
  /-- `operator<<` of a stream. -/
  print : Double → Bytes
  /-- `std::to_string`. -/
  toText : Double → Bytes
  less : Double → Double → Bool
  lessEq : Double → Double → Bool
  add : Double → Double → Double
  sub : Double → Double → Double
  fabs : Double → Double
  nextafter : Double → Double → Double
  zero : Double
  /-- `1e-9`. -/
  eps : Double
  infinity : Double
  negInfinity : Double

namespace DoubleLib

variable (D : DoubleLib)

/-- `std::max`. -/
def max (a b : Double) : Double := if D.less a b then b else a

/-- `std::min`. -/
def min (a b : Double) : Double := if D.less b a then b else a

end DoubleLib

/-- A library for programs that use no floating-point number. -/
def noDoubles : DoubleLib :=
  ⟨fun _ => ⟨0⟩, fun _ => 0, fun _ => none, fun _ => [], fun _ => [], fun _ _ => false,
    fun _ _ => false, fun a _ => a, fun a _ => a, id, fun a _ => a, ⟨0⟩, ⟨0⟩, ⟨0⟩, ⟨0⟩⟩

/-! ## Expressions -/

/-- A literal. -/
inductive LiteralExpr where
  | int (v : Int64)
  | double (v : Double)
  | text (v : Bytes)
  deriving DecidableEq

/-- A comparison. -/
inductive CompareOp where
  | eq
  | ne
  | lt
  | le
  | gt
  | ge
  deriving DecidableEq

/-- A condition. -/
structure CompareExpr where
  column : Bytes
  op : CompareOp
  value : LiteralExpr
  deriving DecidableEq

/-- Plus or minus. -/
inductive ArithOp where
  | add
  | sub
  deriving DecidableEq

/-- A column plus or minus a literal. -/
structure ArithExpr where
  column : Bytes
  op : ArithOp
  operand : LiteralExpr
  deriving DecidableEq

/-- The conditions of a `WHERE`, all of which must hold. -/
abbrev WhereClause := List CompareExpr

/-! ## Statements -/

/-- `CREATE TABLE`. -/
structure CreateTableStmt where
  tableName : Bytes
  columns : List ColumnDef
  primaryKey : Bytes
  deriving DecidableEq

/-- `INSERT`. -/
structure InsertStmt where
  tableName : Bytes
  columns : List Bytes
  values : List LiteralExpr
  deriving DecidableEq

/-- A function over rows. -/
inductive AggregateFunc where
  | count
  | sum
  | min
  | max
  deriving DecidableEq

/-- Such a function of a column. -/
structure Aggregate where
  func : AggregateFunc
  column : Bytes
  star : Bool
  deriving DecidableEq

/-- `JOIN`. -/
structure JoinClause where
  tableName : Bytes
  leftColumn : Bytes
  rightColumn : Bytes
  deriving DecidableEq

/-- `ORDER BY`. -/
structure OrderBy where
  column : Bytes
  desc : Bool
  deriving DecidableEq

/-- `SELECT`. -/
structure SelectStmt where
  tableName : Bytes
  columns : List Bytes
  selectAll : Bool
  aggregates : List Aggregate
  join : Option JoinClause
  /-- `where`, if `has_where`. -/
  filter : Option WhereClause
  /-- `order_by_column` and `order_desc`, if `has_order_by`. -/
  orderBy : Option OrderBy
  /-- `limit`, if `has_limit`. -/
  limit : Option UInt64
  deriving DecidableEq

/-- One column of a `SET`. -/
structure Assignment where
  column : Bytes
  arith : Option ArithExpr
  literal : Option LiteralExpr
  deriving DecidableEq

/-- `UPDATE`. -/
structure UpdateStmt where
  tableName : Bytes
  assignments : List Assignment
  filter : WhereClause
  deriving DecidableEq

/-- `DELETE`. -/
structure DeleteStmt where
  tableName : Bytes
  filter : WhereClause
  deriving DecidableEq

/-- A statement. -/
inductive Statement where
  | createTable (stmt : CreateTableStmt)
  | insert (stmt : InsertStmt)
  | select (stmt : SelectStmt)
  | update (stmt : UpdateStmt)
  | delete (stmt : DeleteStmt)
  | begin
  | commit
  | rollback
  deriving DecidableEq

end TransDb.Sql
