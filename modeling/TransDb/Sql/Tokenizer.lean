import Mathlib.Data.List.TakeWhile
import TransDb.Core.Text

/-!
# The tokenizer

`Parser::Tokenize` (`src/coordinator/parser.cpp`) over the bytes of a statement.

* `skipWsAndComments` — blanks and `--` comments.
* `scanToken` — one token off the front.
* `tokenize` — all tokens, with their positions.
* `lexemes` — the tokens without positions.
* `scanToken_length` — **a token takes a character at least**.
-/

namespace TransDb.Sql

open List

/-- The type of a token. -/
inductive TokenType where
  | ident
  | numberInt
  | numberFloat
  | stringLit
  | lparen
  | rparen
  | comma
  | semicolon
  | star
  | plus
  | minus
  | dot
  | eq
  | ne
  | lt
  | le
  | gt
  | ge
  | kwCreate
  | kwTable
  | kwInsert
  | kwInto
  | kwValues
  | kwSelect
  | kwFrom
  | kwJoin
  | kwInner
  | kwOn
  | kwWhere
  | kwOrder
  | kwBy
  | kwLimit
  | kwAsc
  | kwDesc
  | kwUpdate
  | kwSet
  | kwDelete
  | kwAnd
  | kwBegin
  | kwCommit
  | kwRollback
  | kwPrimary
  | kwKey
  | kwInt
  | kwBigint
  | kwFloat
  | kwVarchar
  | kwNot
  | kwNull
  | kwAbort
  | kwCount
  | kwSum
  | kwMin
  | kwMax
  | endOfInput
  | unknown
  deriving DecidableEq

/-- A token. -/
structure Token where
  type : TokenType
  value : Bytes
  pos : ℕ
  deriving DecidableEq

/-! ## Characters and keywords -/

/-- It may begin a name. -/
def isIdentStart (c : UInt8) : Bool := isAlpha c || c == 95

/-- It may go on in a name. -/
def isIdentCont (c : UInt8) : Bool := isAlnum c || c == 95

theorem isIdentCont_of_start : ∀ c, isIdentStart c = true → isIdentCont c = true := by
  decide +kernel

/-- The words that `ClassifyKeyword` knows. -/
def keywords : List (Bytes × TokenType) :=
  [(ascii "CREATE", .kwCreate), (ascii "TABLE", .kwTable), (ascii "INSERT", .kwInsert),
    (ascii "INTO", .kwInto), (ascii "VALUES", .kwValues), (ascii "SELECT", .kwSelect),
    (ascii "FROM", .kwFrom), (ascii "JOIN", .kwJoin), (ascii "INNER", .kwInner),
    (ascii "ON", .kwOn), (ascii "WHERE", .kwWhere), (ascii "ORDER", .kwOrder),
    (ascii "BY", .kwBy), (ascii "LIMIT", .kwLimit), (ascii "ASC", .kwAsc),
    (ascii "DESC", .kwDesc), (ascii "UPDATE", .kwUpdate), (ascii "SET", .kwSet),
    (ascii "DELETE", .kwDelete), (ascii "AND", .kwAnd), (ascii "BEGIN", .kwBegin),
    (ascii "COMMIT", .kwCommit), (ascii "ROLLBACK", .kwRollback), (ascii "PRIMARY", .kwPrimary),
    (ascii "KEY", .kwKey), (ascii "INT", .kwInt), (ascii "BIGINT", .kwBigint),
    (ascii "FLOAT", .kwFloat), (ascii "VARCHAR", .kwVarchar), (ascii "NOT", .kwNot),
    (ascii "NULL", .kwNull), (ascii "ABORT", .kwAbort), (ascii "COUNT", .kwCount),
    (ascii "SUM", .kwSum), (ascii "MIN", .kwMin), (ascii "MAX", .kwMax)]

/-- `ClassifyKeyword`. -/
def classifyKeyword (word : Bytes) : TokenType := (keywords.lookup word).getD .ident

/-- The tokens of one character. -/
def symbols : List (UInt8 × TokenType) :=
  [(40, .lparen), (41, .rparen), (44, .comma), (59, .semicolon), (42, .star), (43, .plus),
    (45, .minus), (46, .dot), (61, .eq)]

/-! ## One token -/

/-- The input from the next token on.  The flag says that a comment is open. -/
def skipFrom : Bool → Bytes → Bytes
  | _, [] => []
  | true, c :: s => skipFrom (c != 10 && c != 13) s
  | false, c :: s =>
    if isSpace c then skipFrom false s
    else if c == 45 && s.head? == some 45 then skipFrom true s
    else c :: s

/-- `SkipWsAndComments`. -/
def skipWsAndComments (s : Bytes) : Bytes := skipFrom false s

/-- A token and the input after it, or the text of a lexer error. -/
inductive Scanned where
  | token (type : TokenType) (value rest : Bytes)
  | unknown (value : Bytes)
  deriving DecidableEq

/-- A name or a keyword. -/
def scanIdent (s : Bytes) : Scanned :=
  let raw := s.takeWhile isIdentCont
  let type := classifyKeyword (raw.map toUpper)
  .token type (if type = .ident then raw.map toLower else raw) (s.dropWhile isIdentCont)

/-- A number. -/
def scanNumber (s : Bytes) : Scanned :=
  let digits := s.takeWhile isDigit
  match s.dropWhile isDigit with
  | 46 :: rest =>
    .token .numberFloat (digits ++ 46 :: rest.takeWhile isDigit) (rest.dropWhile isDigit)
  | rest => .token .numberInt digits rest

/-- After the opening quote: the literal and the input after the closing one. -/
def scanString : Bytes → Option (Bytes × Bytes)
  | [] => none
  | c :: s =>
    if c = 39 then
      match s with
      | 39 :: s => (scanString s).map fun r => (39 :: r.1, r.2)
      | s => some ([], s)
    else (scanString s).map fun r => (c :: r.1, r.2)

/-- Any other token. -/
def scanSymbol (c : UInt8) (rest : Bytes) : Scanned :=
  match symbols.lookup c with
  | some type => .token type [c] rest
  | none =>
    if c = 33 then
      if rest.head? = some 61 then .token .ne [33, 61] rest.tail else .unknown [33]
    else if c = 60 then
      if rest.head? = some 61 then .token .le [60, 61] rest.tail
      else if rest.head? = some 62 then .token .ne [60, 62] rest.tail
      else .token .lt [60] rest
    else if c = 62 then
      if rest.head? = some 61 then .token .ge [62, 61] rest.tail else .token .gt [62] rest
    else .unknown [c]

/-- The token that begins with this character. -/
def scanToken (c : UInt8) (rest : Bytes) : Scanned :=
  if isIdentStart c then scanIdent (c :: rest)
  else if isDigit c || (c == 46 && rest.head?.any isDigit) then scanNumber (c :: rest)
  else if c = 39 then
    match scanString rest with
    | some (literal, rest) => .token .stringLit literal rest
    | none => .unknown [39]
  else scanSymbol c rest

/-! ## All tokens -/

/-- The loop of `Tokenize`; `size` is that of the whole input. -/
def tokenizeLoop (size : ℕ) : ℕ → Bytes → List Token
  | 0, _ => []
  | fuel + 1, s =>
    match skipWsAndComments s with
    | [] => [⟨.endOfInput, [], size⟩]
    | c :: rest =>
      let start := size - (rest.length + 1)
      match scanToken c rest with
      | .token type value rest => ⟨type, value, start⟩ :: tokenizeLoop size fuel rest
      | .unknown value => [⟨.unknown, value, start⟩]

/-- The tokens of an input; each but the last takes a character at least. -/
def tokenize (input : Bytes) : List Token := tokenizeLoop input.length (input.length + 1) input

/-! ## Tokens without positions -/

/-- Type and value of the tokens. -/
def lexemes (input : Bytes) : List (TokenType × Bytes) :=
  (tokenize input).map fun t => (t.type, t.value)

theorem length_skipFrom (comment : Bool) (s : Bytes) : (skipFrom comment s).length ≤ s.length := by
  induction s generalizing comment with
  | nil => cases comment <;> simp [skipFrom]
  | cons c s ih =>
    cases comment with
    | true => exact (ih _).trans (Nat.le_succ _)
    | false =>
      unfold skipFrom
      split_ifs
      · exact (ih _).trans (Nat.le_succ _)
      · exact (ih _).trans (Nat.le_succ _)
      · exact le_refl _

variable {rest s value : Bytes} {c : UInt8} {type : TokenType}

theorem scanString_close (h : s.head? ≠ some 39) : scanString (39 :: s) = some ([], s) := by
  cases s with
  | nil => simp [scanString]
  | cons c s =>
    have hc : c ≠ 39 := fun hc => h (hc ▸ rfl)
    rw [scanString, if_pos rfl]
    rintro s' ⟨rfl, -⟩
    exact hc rfl

theorem scanString_escape (s : Bytes) :
    scanString (39 :: 39 :: s) = (scanString s).map fun r => (39 :: r.1, r.2) := by
  rw [scanString, if_pos rfl]

theorem scanString_other (h : c ≠ 39) (s : Bytes) :
    scanString (c :: s) = (scanString s).map fun r => (c :: r.1, r.2) := by
  cases s with
  | nil => simp [scanString, h]
  | cons d s =>
    by_cases hd : d = 39
    · subst hd
      rw [scanString, if_neg h]
    · rw [scanString, if_neg h]
      rintro s' ⟨rfl, -⟩
      exact hd rfl

/-- Bytes without a quote go into the literal. -/
theorem scanString_append {x : Bytes} (hx : 39 ∉ x) (s : Bytes) :
    scanString (x ++ s) = (scanString s).map fun r => (x ++ r.1, r.2) := by
  induction x with
  | nil => simp
  | cons c x ih =>
    have hc : c ≠ 39 := fun h => hx (h ▸ mem_cons_self)
    rw [cons_append, scanString_other hc, ih fun h => hx (mem_cons_of_mem c h),
      Option.map_map]
    rfl

theorem scanString_length {literal : Bytes} (h : scanString s = some (literal, rest)) :
    rest.length < s.length := by
  fun_induction scanString s generalizing literal rest with
  | case1 => cases h
  | case2 s ih | case4 c s hc ih =>
    obtain ⟨r, hr, heq⟩ := Option.map_eq_some_iff.mp h
    have := ih hr
    cases heq
    simp only [length_cons]
    omega
  | case3 s hs =>
    cases h
    simp

theorem length_dropWhile_lt {p : UInt8 → Bool} (hc : p c = true) (s : Bytes) :
    ((c :: s).dropWhile p).length < (c :: s).length := by
  rw [dropWhile_cons_of_pos hc]
  exact Nat.lt_succ_of_le (dropWhile_suffix p).length_le

theorem scanNumber_length (hc : isDigit c = true ∨ c = 46)
    (h : scanNumber (c :: s) = .token type value rest) : rest.length < (c :: s).length := by
  unfold scanNumber at h
  have hle : ((c :: s).dropWhile isDigit).length ≤ (c :: s).length :=
    (dropWhile_suffix isDigit).length_le
  cases hd : (c :: s).dropWhile isDigit with
  | nil =>
    rw [hd] at h
    cases h
    simp
  | cons d after =>
    rw [hd] at h hle
    by_cases hdot : d = 46
    · subst hdot
      cases h
      have := (dropWhile_suffix (p := isDigit) (l := after)).length_le
      simp only [length_cons] at hle ⊢
      omega
    · have hdigit : isDigit c = true := by
        rcases hc with hc | rfl
        · exact hc
        · rw [dropWhile_cons_of_neg (by decide)] at hd
          exact absurd (cons.inj hd).1.symm hdot
      have hlt := length_dropWhile_lt hdigit s
      rw [hd] at hlt
      have hrest : rest = d :: after := by
        split at h
        · next heq => exact absurd (cons.inj heq).1 hdot
        · cases h; rfl
      rwa [hrest]

theorem scanSymbol_length (h : scanSymbol c s = .token type value rest) :
    rest.length < (c :: s).length := by
  have htail : s.tail.length < (c :: s).length := by
    rw [length_tail, length_cons]
    omega
  unfold scanSymbol at h
  split at h
  · cases h
    exact Nat.lt_succ_self _
  · split_ifs at h
    all_goals
      cases h
      first
        | exact htail
        | exact Nat.lt_succ_self _

theorem scanToken_quote {literal : Bytes} (h : scanString s = some (literal, rest)) :
    scanToken 39 s = .token .stringLit literal rest := by
  have hnumber : (isDigit 39 || ((39 : UInt8) == 46 && s.head?.any isDigit)) = false := rfl
  rw [scanToken, if_neg (by decide), hnumber, if_neg (by decide), if_pos rfl, h]

theorem scanToken_open_quote (h : scanString s = none) : scanToken 39 s = .unknown [39] := by
  have hnumber : (isDigit 39 || ((39 : UInt8) == 46 && s.head?.any isDigit)) = false := rfl
  rw [scanToken, if_neg (by decide), hnumber, if_neg (by decide), if_pos rfl, h]

theorem scanToken_dollar (s : Bytes) : scanToken 36 s = .unknown [36] := rfl

/-- A token takes a character at least. -/
theorem scanToken_length (h : scanToken c s = .token type value rest) :
    rest.length < (c :: s).length := by
  unfold scanToken at h
  split_ifs at h with hident hnumber hquote
  · unfold scanIdent at h
    cases h
    exact length_dropWhile_lt (isIdentCont_of_start c hident) s
  · refine scanNumber_length ?_ h
    simp only [Bool.or_eq_true, Bool.and_eq_true, beq_iff_eq] at hnumber
    exact hnumber.imp_right And.left
  · split at h
    · next literal after heq =>
      cases h
      exact (scanString_length heq).trans (Nat.lt_succ_self _)
    · cases h
  · exact scanSymbol_length h

end TransDb.Sql
