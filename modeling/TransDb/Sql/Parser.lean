import TransDb.Sql.Ast
import TransDb.Sql.Tokenizer

/-!
# The parser

`Parser::Parse` (`src/coordinator/parser.cpp`): recursive descent over the tokens of one
statement.  The state is the list of the tokens from `pos_` on; its last token is never
passed.

* `Parse` — code of the parser: it may throw a `ParseError`.
* `parseCreateTable`, `parseInsert`, `parseSelect`, `parseUpdate`, `parseDelete` — the rules of
  the grammar.
* `parse` — a whole text.
-/

namespace TransDb.Sql

/-- A message and its place. -/
structure ParseError where
  message : String
  position : ℕ
  deriving DecidableEq

/-- Code of the parser. -/
abbrev Parse := StateT (List Token) (Except ParseError)

/-! ## Tokens -/

/-- The token at `pos_`. -/
def peek (ts : List Token) : Token := ts.headD ⟨.endOfInput, [], 0⟩

/-- `AtEnd`. -/
def atEnd (ts : List Token) : Bool :=
  ts.length ≤ 1 || (peek ts).type = .endOfInput || (peek ts).type = .unknown

namespace Parse

/-- `Peek`. -/
def peek : Parse Token := fun ts => .ok (Sql.peek ts, ts)

/-- `Advance`. -/
def advance : Parse Token := fun ts => .ok (Sql.peek ts, if atEnd ts then ts else ts.tail)

/-- `Match`. -/
def accept (type : TokenType) : Parse Bool := do
  if (← peek).type = type then
    let _ ← advance
    return true
  return false

/-- Throws an error. -/
def fail {α : Type} (message : String) (position : ℕ) : Parse α :=
  throw ⟨message, position⟩

/-- `Expect`. -/
def expect (type : TokenType) : Parse Token := do
  let t ← peek
  if t.type = type then advance else fail "unexpected token" t.pos

/-- The number of tokens left, a bound for the loops. -/
def remaining : Parse ℕ := fun ts => .ok (ts.length, ts)

/-- Items separated by commas, up to the first that has none after it. -/
def commaLoop {α : Type} (item : Parse α) : ℕ → Parse (List α)
  | 0 => return []
  | fuel + 1 => do
    let a ← item
    if ← accept .comma then return a :: (← commaLoop item fuel)
    return [a]

/-- Items with commas between. -/
def commaList {α : Type} (item : Parse α) : Parse (List α) := do
  commaLoop item (← remaining)

end Parse

open Parse

/-! ## Expressions -/

/-- The rest of a column name: the parts after its dots. -/
def dotLoop : ℕ → Bytes → Parse Bytes
  | 0, out => return out
  | fuel + 1, out => do
    if ← accept .dot then
      let part ← expect .ident
      dotLoop fuel (out ++ 46 :: part.value)
    else return out

/-- `ParseColumnRef`. -/
def parseColumnRef : Parse Bytes := do
  let first ← expect .ident
  dotLoop (← remaining) first.value

/-- `ParseDouble`: the whole text is a number. -/
def parseDouble (D : DoubleLib) (text : Bytes) : Option Double :=
  match D.stod text with
  | some (v, read) => if read = text.length then some v else none
  | none => none

/-- `ParseLiteral`. -/
def parseLiteral (D : DoubleLib) : Parse LiteralExpr := do
  let t ← Parse.peek
  match t.type with
  | .numberInt =>
    let _ ← advance
    match parseInt64 t.value with
    | some v => return .int v
    | none => fail "bad integer literal" t.pos
  | .numberFloat =>
    let _ ← advance
    match parseDouble D t.value with
    | some v => return .double v
    | none => fail "bad float literal" t.pos
  | .stringLit =>
    let _ ← advance
    return .text t.value
  | _ => fail "expected literal" t.pos

/-- The comparison of a token. -/
def compareOp : TokenType → Option CompareOp
  | .eq => some .eq
  | .ne => some .ne
  | .lt => some .lt
  | .le => some .le
  | .gt => some .gt
  | .ge => some .ge
  | _ => none

/-- `ParseCompare`. -/
def parseCompare (D : DoubleLib) : Parse CompareExpr := do
  let column ← parseColumnRef
  let pop ← Parse.peek
  match compareOp pop.type with
  | some op =>
    let _ ← advance
    return ⟨column, op, ← parseLiteral D⟩
  | none => fail "expected comparison operator" pop.pos

/-- The loop over `AND`. -/
def andLoop (D : DoubleLib) : ℕ → Parse WhereClause
  | 0 => return []
  | fuel + 1 => do
    let condition ← parseCompare D
    if ← accept .kwAnd then return condition :: (← andLoop D fuel)
    return [condition]

/-- `ParseWhere`. -/
def parseWhere (D : DoubleLib) : Parse WhereClause := do
  andLoop D (← remaining)

/-! ## Statements -/

/-- The type of a column. -/
def parseColumnType : Parse ColumnType := do
  let ty ← Parse.peek
  match ty.type with
  | .kwInt =>
    let _ ← advance
    return .int
  | .kwBigint =>
    let _ ← advance
    return .bigint
  | .kwFloat =>
    let _ ← advance
    return .float
  | .kwVarchar =>
    let _ ← advance
    if ← accept .lparen then
      let _ ← expect .numberInt
      let _ ← expect .rparen
    return .varchar
  | _ => fail "expected column type" ty.pos

/-- The columns up to the closing parenthesis, and the name of the last one that is marked
as the primary key. -/
def columnLoop : ℕ → Bytes → Parse (List ColumnDef × Bytes)
  | 0, primaryKey => return ([], primaryKey)
  | fuel + 1, primaryKey => do
    let t ← Parse.peek
    if t.type ≠ .ident then fail "expected column name" t.pos
    let _ ← advance
    let type ← parseColumnType
    let marked ← accept .kwPrimary
    if marked then
      let _ ← expect .kwKey
    let primaryKey := if marked then t.value else primaryKey
    if ← accept .rparen then return ([⟨t.value, type⟩], primaryKey)
    let _ ← expect .comma
    let (columns, last) ← columnLoop fuel primaryKey
    return (⟨t.value, type⟩ :: columns, last)

/-- `ParseCreateTable`. -/
def parseCreateTable : Parse CreateTableStmt := do
  let _ ← expect .kwCreate
  let _ ← expect .kwTable
  let name ← expect .ident
  let _ ← expect .lparen
  let (columns, primaryKey) ← columnLoop (← remaining) []
  if primaryKey = [] then fail "PRIMARY KEY required" name.pos
  return ⟨name.value, columns, primaryKey⟩

/-- `ParseInsert`. -/
def parseInsert (D : DoubleLib) : Parse InsertStmt := do
  let _ ← expect .kwInsert
  let _ ← expect .kwInto
  let name ← expect .ident
  let _ ← expect .lparen
  let columns ← commaList (Token.value <$> expect .ident)
  let _ ← expect .rparen
  let _ ← expect .kwValues
  let _ ← expect .lparen
  let values ← commaList (parseLiteral D)
  let _ ← expect .rparen
  if columns.length ≠ values.length then fail "column/value count mismatch" name.pos
  return ⟨name.value, columns, values⟩

/-- The function of a token. -/
def aggregateFunc : TokenType → Option AggregateFunc
  | .kwCount => some .count
  | .kwSum => some .sum
  | .kwMin => some .min
  | .kwMax => some .max
  | _ => none

/-- `parse_select_item`: an aggregate or a column. -/
def parseSelectItem : Parse (Aggregate ⊕ Bytes) := do
  let t ← Parse.peek
  match aggregateFunc t.type with
  | some func =>
    let _ ← advance
    let _ ← expect .lparen
    if ← accept .star then
      let _ ← expect .rparen
      return .inl ⟨func, [], true⟩
    let column ← parseColumnRef
    let _ ← expect .rparen
    return .inl ⟨func, column, false⟩
  | none => return .inr (← parseColumnRef)

/-- What follows `JOIN`. -/
def parseJoinClause : Parse JoinClause := do
  let name ← parseColumnRef
  let _ ← expect .kwOn
  let left ← parseColumnRef
  let _ ← expect .eq
  let right ← parseColumnRef
  return ⟨name, left, right⟩

/-- A `JOIN`, if there is one. -/
def parseJoin : Parse (Option JoinClause) := do
  if ← accept .kwInner then
    let _ ← expect .kwJoin
    return some (← parseJoinClause)
  if ← accept .kwJoin then return some (← parseJoinClause)
  return none

/-- An `ORDER BY`, if there is one. -/
def parseOrderBy : Parse (Option OrderBy) := do
  if ← accept .kwOrder then
    let _ ← expect .kwBy
    let column ← parseColumnRef
    if ← accept .kwDesc then return some ⟨column, true⟩
    let _ ← accept .kwAsc
    return some ⟨column, false⟩
  return none

/-- A `LIMIT`, if there is one. -/
def parseLimit : Parse (Option UInt64) := do
  if ← accept .kwLimit then
    let lim ← expect .numberInt
    match parseInt64 lim.value with
    | some v =>
      if v < 0 then fail "expected non-negative LIMIT integer" lim.pos
      return some v.toUInt64
    | none => fail "expected non-negative LIMIT integer" lim.pos
  return none

/-- `ParseSelect`. -/
def parseSelect (D : DoubleLib) : Parse SelectStmt := do
  let _ ← expect .kwSelect
  let all ← accept .star
  let items ← if all then pure [] else commaList parseSelectItem
  let _ ← expect .kwFrom
  let name ← parseColumnRef
  let join ← parseJoin
  let filter ← if ← accept .kwWhere then some <$> parseWhere D else pure none
  let orderBy ← parseOrderBy
  let limit ← parseLimit
  return {
    tableName := name
    columns := items.filterMap Sum.getRight?
    selectAll := all
    aggregates := items.filterMap Sum.getLeft?
    join := join
    filter := filter
    orderBy := orderBy
    limit := limit }

/-- One column of a `SET`. -/
def parseAssignment (D : DoubleLib) : Parse Assignment := do
  let column ← expect .ident
  let _ ← expect .eq
  let first ← Parse.peek
  if first.type ≠ .ident then return ⟨column.value, none, some (← parseLiteral D)⟩
  let id ← advance
  let op ← Parse.peek
  if op.type = .plus ∨ op.type = .minus then
    let _ ← advance
    let arithOp := if op.type = .plus then ArithOp.add else ArithOp.sub
    return ⟨column.value, some ⟨id.value, arithOp, ← parseLiteral D⟩, none⟩
  fail "expected operator after column in SET" op.pos

/-- `ParseUpdate`. -/
def parseUpdate (D : DoubleLib) : Parse UpdateStmt := do
  let _ ← expect .kwUpdate
  let name ← expect .ident
  let _ ← expect .kwSet
  let assignments ← commaList (parseAssignment D)
  let _ ← expect .kwWhere
  return ⟨name.value, assignments, ← parseWhere D⟩

/-- `ParseDelete`. -/
def parseDelete (D : DoubleLib) : Parse DeleteStmt := do
  let _ ← expect .kwDelete
  let _ ← expect .kwFrom
  let name ← expect .ident
  let _ ← expect .kwWhere
  return ⟨name.value, ← parseWhere D⟩

/-- `ParseStatement`. -/
def parseStatement (D : DoubleLib) : Parse Statement := do
  let t ← Parse.peek
  match t.type with
  | .kwCreate => return .createTable (← parseCreateTable)
  | .kwInsert => return .insert (← parseInsert D)
  | .kwSelect => return .select (← parseSelect D)
  | .kwUpdate => return .update (← parseUpdate D)
  | .kwDelete => return .delete (← parseDelete D)
  | .kwBegin =>
    let _ ← advance
    return .begin
  | .kwCommit =>
    let _ ← advance
    return .commit
  | .kwRollback | .kwAbort =>
    let _ ← advance
    return .rollback
  | _ => fail "expected statement" t.pos

/-! ## A whole text -/

/-- The text of a message: bytes as characters. -/
def textOf (bs : Bytes) : String := String.ofList (bs.map fun b => Char.ofNat b.toNat)

/-- `Parse`. -/
def parse (D : DoubleLib) (sql : Bytes) : Except ParseError Statement :=
  let tokens := tokenize sql
  match tokens.find? fun t => t.type = .unknown with
  | some t => .error ⟨"lexer error near " ++ textOf t.value, t.pos⟩
  | none =>
    if atEnd tokens then .error ⟨"empty statement", 0⟩
    else do
      let (stmt, rest) ← (parseStatement D).run tokens
      let rest ←
        if atEnd rest then pure rest
        else if (peek rest).type = .semicolon then pure rest.tail
        else throw ⟨"unexpected token after statement", (peek rest).pos⟩
      if atEnd rest then return stmt
      throw ⟨"trailing input after statement", (peek rest).pos⟩

end TransDb.Sql
