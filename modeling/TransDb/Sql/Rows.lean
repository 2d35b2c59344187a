import Mathlib.Data.List.TakeWhile
import TransDb.Sql.Ast

/-!
# Rows and cells

The stored form of a row and the comparison of cells with literals
(`src/coordinator/executor.cpp`, `src/coordinator/row_codec.cpp`).

* `serializeRow`, `deserializeRow` — a count of cells and the cells with their lengths.
* `compareCell` — a cell against a literal, by the type of the column.
* `columnIndex`, `findColumn`, `baseColName` — columns by name.
* `deserializeRow_encodeCells` — **what was written is read**, if it fits the format;
  `deserializeRow_of_cut` — what was cut short has no cells.
* `deserializeStoredRow_eq` — the two decoders of the coordinator agree.
-/

namespace TransDb.Sql

open List

/-! ## Columns -/

/-- `FindColumn`. -/
def findColumn (table : TableDef) (name : Bytes) : Option ColumnDef :=
  table.columns.find? fun c => c.name = name

/-- The position of the first column of this name. -/
def columnIndex (table : TableDef) (name : Bytes) : Option ℕ :=
  table.columns.findIdx? fun c => c.name = name

/-- What stands after the last dot. -/
def baseColName (name : Bytes) : Bytes := (name.reverse.takeWhile (· ≠ 46)).reverse

/-- The table has a column of this name. -/
def hasColumn (table : TableDef) (name : Bytes) : Bool := table.columns.any fun c => c.name = name

/-- No column name has a dot. -/
def plainNames (table : TableDef) : Bool := table.columns.all fun c => 46 ∉ c.name

theorem baseColName_of_plain {name : Bytes} (h : 46 ∉ name) : baseColName name = name := by
  have htake : name.reverse.takeWhile (· ≠ 46) = name.reverse := by
    refine takeWhile_eq_self_iff.mpr fun c hc => ?_
    rw [mem_reverse] at hc
    exact decide_eq_true fun heq => h (heq ▸ hc)
  rw [baseColName, htake, reverse_reverse]

/-- A table of one column. -/
def idTable : TableDef := ⟨1, ascii "t", [⟨ascii "id", .bigint⟩], ascii "id"⟩

/-! ## Literals -/

/-- `LiteralToString`. -/
def literalToString (D : DoubleLib) : LiteralExpr → Bytes
  | .int v => decimalInt v.toInt
  | .double v => D.print v
  | .text v => v

/-- A literal as an integer; `none` where `std::stoll` throws. -/
def literalToInt64 (D : DoubleLib) : LiteralExpr → Option Int64
  | .int v => some v
  | .double v => some (D.toInt64 v)
  | .text v => stoll v

/-- A literal as a floating-point number; `none` where `std::stod` throws. -/
def literalToDouble (D : DoubleLib) : LiteralExpr → Option Double
  | .int v => some (D.ofInt64 v)
  | .double v => some v
  | .text v => (D.stod v).map Prod.fst

/-! ## Comparison -/

/-- `CompareCell` of doubles. -/
def compareDouble (D : DoubleLib) (cv : Double) (op : CompareOp) (lv : Double) : Bool :=
  match op with
  | .eq => D.less (D.fabs (D.sub cv lv)) D.eps
  | .ne => D.lessEq D.eps (D.fabs (D.sub cv lv))
  | .lt => D.less cv (D.sub lv D.eps)
  | .le => D.lessEq cv (D.add lv D.eps)
  | .gt => D.less (D.add lv D.eps) cv
  | .ge => D.lessEq (D.sub lv D.eps) cv

/-- `CompareCell` of integers. -/
def compareInt (cv : Int64) (op : CompareOp) (lv : Int64) : Bool :=
  match op with
  | .eq => cv = lv
  | .ne => cv ≠ lv
  | .lt => cv < lv
  | .le => cv ≤ lv
  | .gt => lv < cv
  | .ge => lv ≤ cv

/-- `CompareCell` of texts. -/
def compareText (cell : Bytes) (op : CompareOp) (lv : Bytes) : Bool :=
  match op with
  | .eq => cell = lv
  | .ne => cell ≠ lv
  | .lt => cell < lv
  | .le => cell ≤ lv
  | .gt => lv < cell
  | .ge => lv ≤ cell

/-- Where a conversion throws, the comparison fails. -/
def compareCell (D : DoubleLib) (cell : Bytes) (op : CompareOp) (lit : LiteralExpr)
    (type : ColumnType) : Bool :=
  match type with
  | .float =>
    match D.stod cell, literalToDouble D lit with
    | some (cv, _), some lv => compareDouble D cv op lv
    | _, _ => false
  | .int | .bigint =>
    match stoll cell, literalToInt64 D lit with
    | some cv, some lv => compareInt cv op lv
    | _, _ => false
  | .varchar => compareText cell op (literalToString D lit)

/-! ## The stored form -/

/-- A cell: its size in four bytes, and its bytes. -/
def encodeCell (cell : Bytes) : Bytes := leBytes 4 cell.length ++ cell

/-- A row of `count` cells. -/
def encodeCells (count : ℕ) (cells : List Bytes) : Bytes :=
  leBytes 2 count ++ cells.flatMap encodeCell

/-- The value of a column in an `INSERT`: the last one that is given for its name. -/
def insertedCell (D : DoubleLib) (colNames : List Bytes) (values : List LiteralExpr)
    (name : Bytes) : Bytes :=
  (((colNames.zip values).reverse.lookup name).map (literalToString D)).getD []

/-- `SerializeRow`. -/
def serializeRow (D : DoubleLib) (table : TableDef) (colNames : List Bytes)
    (values : List LiteralExpr) : Bytes :=
  encodeCells table.columns.length
    (table.columns.map fun c => insertedCell D colNames values c.name)

/-- `n` cells off the front. -/
def readCells : ℕ → Bytes → Option (List Bytes)
  | 0, _ => some []
  | n + 1, data =>
    match takeLe 4 data with
    | none => none
    | some (len, rest) =>
      if rest.length < len then none
      else (readCells n (rest.drop len)).map fun cells => rest.take len :: cells

/-- No cells where the bytes are not a row. -/
def deserializeRow (data : Bytes) : List Bytes :=
  match takeLe 2 data with
  | none => []
  | some (n, rest) => (readCells n rest).getD []

/-- The loop of `DeserializeStoredRow` with the cells that were read so far. -/
def storedCells : ℕ → List Bytes → Bytes → List Bytes
  | 0, row, _ => row
  | n + 1, row, data =>
    match takeLe 4 data with
    | none => []
    | some (len, rest) =>
      if rest.length < len then [] else storedCells n (row ++ [rest.take len]) (rest.drop len)

/-- The decoder of `row_codec.cpp`, which the join planner uses. -/
def deserializeStoredRow (data : Bytes) : List Bytes :=
  match takeLe 2 data with
  | none => []
  | some (n, rest) => storedCells n [] rest

/-! ## What was written is read -/

/-- The cells fit the format. -/
def Fits (cells : List Bytes) : Prop :=
  cells.length < 2 ^ 16 ∧ ∀ cell ∈ cells, cell.length < 2 ^ 32

instance (cells : List Bytes) : Decidable (Fits cells) :=
  inferInstanceAs (Decidable (_ ∧ _))

variable {cells : List Bytes}

theorem readCells_encode (h : ∀ cell ∈ cells, cell.length < 2 ^ 32) (rest : Bytes) :
    readCells cells.length (cells.flatMap encodeCell ++ rest) = some cells := by
  induction cells with
  | nil => rfl
  | cons cell cells ih =>
    obtain ⟨hcell, hcells⟩ := forall_mem_cons.mp h
    have htake : takeLe 4 (leBytes 4 cell.length ++ (cell ++ (cells.flatMap encodeCell ++ rest))) =
        some (cell.length, cell ++ (cells.flatMap encodeCell ++ rest)) :=
      takeLe_of_lt (by norm_num; omega) _
    have hlen : ¬ (cell ++ (cells.flatMap encodeCell ++ rest)).length < cell.length := by simp
    rw [length_cons, readCells, flatMap_cons]
    nth_rewrite 1 [encodeCell]
    rw [append_assoc, append_assoc, htake]
    simp only [hlen, if_false, drop_left, take_left, ih hcells, Option.map_some]

/-- **A row that fits the format is read back.** -/
theorem deserializeRow_encodeCells (h : Fits cells) :
    deserializeRow (encodeCells cells.length cells) = cells := by
  have htake : takeLe 2 (leBytes 2 cells.length ++ cells.flatMap encodeCell) =
      some (cells.length, cells.flatMap encodeCell) :=
    takeLe_of_lt (by have := h.1; norm_num at this ⊢; omega) _
  have hread := readCells_encode h.2 []
  rw [append_nil] at hread
  rw [deserializeRow, encodeCells, htake]
  simp only [hread, Option.getD_some]

/-- What is read was written. -/
theorem eq_of_readCells {n : ℕ} {data : Bytes} (h : readCells n data = some cells) :
    cells.length = n ∧ (∀ cell ∈ cells, cell.length < 2 ^ 32) ∧
      ∃ rest, data = cells.flatMap encodeCell ++ rest := by
  induction n generalizing data cells with
  | zero =>
    obtain rfl := Option.some.inj h
    exact ⟨rfl, nofun, data, rfl⟩
  | succ n ih =>
    rw [readCells] at h
    cases htake : takeLe 4 data with
    | none =>
      rw [htake] at h
      cases h
    | some x =>
      obtain ⟨len, tail⟩ := x
      rw [htake] at h
      simp only at h
      split_ifs at h with hlen
      obtain ⟨cells, hread, rfl⟩ := Option.map_eq_some_iff.mp h
      obtain ⟨rfl, hfit, rest, hrest⟩ := ih hread
      obtain ⟨hlt, rfl⟩ := eq_of_takeLe htake
      have htaken : (tail.take len).length = len := length_take_of_le (not_lt.mp hlen)
      refine ⟨rfl, forall_mem_cons.mpr ⟨by rwa [htaken], hfit⟩, rest, ?_⟩
      rw [flatMap_cons, encodeCell, htaken, append_assoc, append_assoc, ← hrest, take_append_drop]

/-- **A row that was cut short has no cells.** -/
theorem deserializeRow_of_cut (hfits : Fits cells) {data more : Bytes}
    (h : encodeCells cells.length cells = data ++ more) (hmore : more ≠ []) :
    deserializeRow data = [] := by
  rw [deserializeRow]
  cases htake : takeLe 2 data with
  | none => rfl
  | some x =>
    obtain ⟨n, tail⟩ := x
    cases hread : readCells n tail with
    | none => simp only [hread, Option.getD_none]
    | some cells' =>
      -- the whole is read to the same cells, so that nothing was cut off
      obtain ⟨rfl, hfit, rest, rfl⟩ := eq_of_readCells hread
      obtain ⟨hlt, rfl⟩ := eq_of_takeLe htake
      have hwhole := deserializeRow_encodeCells hfits
      rw [h, append_assoc, append_assoc, deserializeRow, takeLe_of_lt hlt] at hwhole
      simp only [readCells_encode hfit, Option.getD_some] at hwhole
      subst hwhole
      have hlen := congrArg length h
      simp only [encodeCells, length_append] at hlen
      exact absurd (length_eq_zero_iff.mp (by omega)) hmore

/-! ## The other decoder -/

theorem storedCells_eq (n : ℕ) (row : List Bytes) (data : Bytes) :
    storedCells n row data = (readCells n data).elim [] (row ++ ·) := by
  induction n generalizing row data with
  | zero => simp [storedCells, readCells]
  | succ n ih =>
    rw [storedCells, readCells]
    cases takeLe 4 data with
    | none => rfl
    | some x =>
      simp only
      split_ifs
      · rfl
      · rw [ih]
        cases readCells n (x.2.drop x.1) <;> simp

theorem deserializeStoredRow_eq (data : Bytes) : deserializeStoredRow data = deserializeRow data := by
  rw [deserializeStoredRow, deserializeRow]
  cases takeLe 2 data with
  | none => rfl
  | some x =>
    simp only [storedCells_eq]
    cases readCells x.1 x.2 <;> rfl

end TransDb.Sql
