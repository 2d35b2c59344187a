import TransDb.Core.Framing
import TransDb.Sql.Ast

/-!
# Messages of the wire protocol

The messages of `src/pgwire/pgwire_server.cpp`: what a client sends, taken from its bytes, and
what the server answers, as bytes.

* `RawMessage`, `readMessage`, `messages` — the messages in the bytes of a client.
* `decodeParse`, `decodeBind`, `decodeNamed`, `decodeExecute` — their contents, or the text of
  the error.
* `splitStatements` — the statements of a simple query.
* `BackendMessage`, `BackendMessage.encode` — the answers.
* `messages_eq_iff` — **the bytes of a client have one meaning.**
-/

namespace TransDb.Pgwire

open Sql

/-! ## Bytes of the client -/

/-- A message of the client. -/
structure RawMessage where
  type : UInt8
  payload : Bytes
  deriving DecidableEq

/-- A number of `w` bytes off the front, the most significant byte first. -/
def takeBe (w : ℕ) (bs : Bytes) : Option (ℕ × Bytes) :=
  if bs.length < w then none else some (beNat (bs.take w), bs.drop w)

/-- `ReadBackendMessage`, from the bytes that are still to come; `none` where they end too early
or the length is impossible. -/
def readMessage (input : Bytes) : Option (RawMessage × Bytes) :=
  match input with
  | [] => none
  | type :: rest =>
    match takeBe 4 rest with
    | none => none
    | some (len, rest) =>
      if len < 4 then none
      else if rest.length < len - 4 then none
      else some (⟨type, rest.take (len - 4)⟩, rest.drop (len - 4))

/-- The messages up to the first one that cannot be read, at most as many as the number. -/
def messagesFrom : ℕ → Bytes → List RawMessage
  | 0, _ => []
  | n + 1, input =>
    match readMessage input with
    | none => []
    | some (m, rest) => m :: messagesFrom n rest

/-- The messages of an input. -/
def messages (input : Bytes) : List RawMessage := messagesFrom input.length input

/-! ## Contents -/

/-- `ParseCString`: the bytes before the first 0, and those behind it. -/
def parseCString (b : Bytes) : Option (Bytes × Bytes) :=
  if 0 ∈ b then some (b.takeWhile (· ≠ 0), (b.dropWhile (· ≠ 0)).tail) else none

/-- `n` numbers of four bytes. -/
def takeOids : ℕ → Bytes → Option (List ℕ)
  | 0, _ => some []
  | n + 1, b =>
    match takeBe 4 b with
    | none => none
    | some (oid, rest) => (takeOids n rest).map (oid :: ·)

/-- `Parse`. -/
structure ParseMessage where
  name : Bytes
  query : Bytes
  paramOids : List ℕ
  deriving DecidableEq

/-- `Parse`, of its payload. -/
def decodeParse (payload : Bytes) : Except String ParseMessage :=
  match parseCString payload with
  | none => .error "invalid Parse message"
  | some (name, b) =>
    match parseCString b with
    | none => .error "invalid Parse message"
    | some (query, b) =>
      match takeBe 2 b with
      | none => .error "truncated Parse message"
      | some (ntypes, b) =>
        match takeOids ntypes b with
        | none => .error "truncated Parse param types"
        | some oids => .ok ⟨name, query, oids⟩

/-- `Bind`. -/
structure BindMessage where
  portal : Bytes
  statement : Bytes
  params : List Bytes
  deriving DecidableEq

/-- `n` parameters, each with its length; a negative length stands for `NULL`, which becomes the
empty text. -/
def takeParams : ℕ → Bytes → Except String (List Bytes × Bytes)
  | 0, b => .ok ([], b)
  | n + 1, b =>
    match takeBe 4 b with
    | none => .error "truncated Bind params"
    | some (plen, b) =>
      if 2 ^ 31 ≤ plen then (takeParams n b).map fun (params, rest) => ([] :: params, rest)
      else if b.length < plen then .error "bad Bind param length"
      else (takeParams n (b.drop plen)).map fun (params, rest) => (b.take plen :: params, rest)

/-- `Bind`, of its payload. -/
def decodeBind (payload : Bytes) : Except String BindMessage :=
  match parseCString payload with
  | none => .error "invalid Bind message"
  | some (portal, b) =>
    match parseCString b with
    | none => .error "invalid Bind message"
    | some (statement, b) =>
      match takeBe 2 b with
      | none => .error "invalid Bind message"
      | some (numFormats, b) =>
        if b.length < 2 * numFormats then .error "truncated Bind formats"
        else
          match takeBe 2 (b.drop (2 * numFormats)) with
          | none => .error "invalid Bind param count"
          | some (numParams, b) =>
            match takeParams numParams b with
            | .error e => .error e
            | .ok (params, b) =>
              match takeBe 2 b with
              | none => .error "invalid Bind result formats"
              | some _ => .ok ⟨portal, statement, params⟩

/-- A kind and a name: the contents of `Describe` and `Close`. -/
def decodeNamed (what : String) (payload : Bytes) : Except String (UInt8 × Bytes) :=
  match payload with
  | [] => .error (what ++ " message too short")
  | kind :: b =>
    match parseCString b with
    | none => .error ("invalid " ++ what ++ " name")
    | some (name, _) => .ok (kind, name)

/-- The name of the portal; the limit of rows is not used. -/
def decodeExecute (payload : Bytes) : Except String Bytes :=
  match parseCString payload with
  | none => .error "invalid Execute portal"
  | some (portal, b) =>
    if b ≠ [] ∧ b.length < 4 then .error "truncated Execute message" else .ok portal

/-! ## Statements of a simple query -/

/-- `TrimSv`. -/
def trimSv (s : Bytes) : Bytes := ((s.dropWhile isSpace).reverse.dropWhile isSpace).reverse

/-- The statements, with what the loop has collected of the current one. -/
def splitLoop : Bool → Bytes → Bytes → List Bytes
  | _, cur, [] => if trimSv cur = [] then [] else [trimSv cur]
  | inQuote, cur, c :: s =>
    if c = 39 then splitLoop (!inQuote) (cur ++ [c]) s
    else if !inQuote && c = 59 then
      (if trimSv cur = [] then [] else [trimSv cur]) ++ splitLoop inQuote [] s
    else splitLoop inQuote (cur ++ [c]) s

/-- `SplitStatements`. -/
def splitStatements (sql : Bytes) : List Bytes := splitLoop false [] sql

/-! ## Answers -/

/-- `TxnIndicator`: idle, in a transaction block, in a failed one. -/
inductive TxnStatus where
  | idle
  | inTransaction
  | failed
  deriving DecidableEq

/-- Its byte. -/
def TxnStatus.byte : TxnStatus → UInt8
  | .idle => 73
  | .inTransaction => 84
  | .failed => 69

/-- A message to the client. -/
inductive BackendMessage where
  | authOk
  | parameterStatus (key val : String)
  | readyForQuery (status : TxnStatus)
  | rowDescription (columns : List (Bytes × ColumnType))
  | dataRow (values : List Bytes)
  | commandComplete (tag : String)
  | errorResponse (severity code message : String)
  | parseComplete
  | bindComplete
  | closeComplete
  | parameterDescription (oids : List ℕ)
  | noData
  | emptyQueryResponse
  deriving DecidableEq

/-- `PgOidFor`. -/
def pgOidFor : ColumnType → ℕ
  | .int => 23
  | .bigint => 20
  | .float => 701
  | .varchar => 25

/-- The length as an unsigned number of 16 bits. -/
def pgTyplenFor : ColumnType → ℕ
  | .int => 4
  | .bigint => 8
  | .float => 8
  | .varchar => 2 ^ 16 - 1

namespace BackendMessage

/-- A type byte, the length and the contents. -/
def frame (type : UInt8) (payload : Bytes) : Bytes :=
  type :: beBytes 4 (4 + payload.length) ++ payload

/-- Its bytes. -/
def encode : BackendMessage → Bytes
  | authOk => frame 82 (beBytes 4 0)
  | parameterStatus key val => frame 83 (ascii key ++ 0 :: ascii val ++ [0])
  | readyForQuery status => frame 90 [status.byte]
  | rowDescription columns =>
    frame 84 (beBytes 2 columns.length ++ columns.flatMap fun c =>
      c.1 ++ 0 :: beBytes 4 0 ++ beBytes 2 0 ++ beBytes 4 (pgOidFor c.2) ++
        beBytes 2 (pgTyplenFor c.2) ++ beBytes 4 (2 ^ 32 - 1) ++ beBytes 2 0)
  | dataRow values =>
    frame 68 (beBytes 2 values.length ++ values.flatMap fun v => beBytes 4 v.length ++ v)
  | commandComplete tag => frame 67 (ascii tag ++ [0])
  | errorResponse severity code message =>
    frame 69 (83 :: ascii severity ++ 0 :: 67 :: ascii code ++ 0 :: 77 :: ascii message ++ [0, 0])
  | parseComplete => frame 49 []
  | bindComplete => frame 50 []
  | closeComplete => frame 51 []
  | parameterDescription oids =>
    frame 116 (beBytes 2 oids.length ++ oids.flatMap fun oid => beBytes 4 oid)
  | noData => frame 110 []
  | emptyQueryResponse => frame 73 []

theorem encode_ne_nil (m : BackendMessage) : m.encode ≠ [] := by
  cases m <;> exact List.cons_ne_nil _ _

end BackendMessage

/-! ## Frames -/

theorem readMessage_frame {m : RawMessage} (h : 4 + m.payload.length < 2 ^ 32) (rest : Bytes) :
    readMessage (BackendMessage.frame m.type m.payload ++ rest) = some (m, rest) := by
  have htake : takeBe 4 (beBytes 4 (4 + m.payload.length) ++ (m.payload ++ rest)) =
      some (4 + m.payload.length, m.payload ++ rest) := by
    have h4 : (beBytes 4 (4 + m.payload.length)).length = 4 := length_beBytes _ _
    rw [takeBe, List.take_left' h4, List.drop_left' h4, beNat_beBytes,
      Nat.mod_eq_of_lt (show _ < 256 ^ 4 from h), if_neg (by rw [List.length_append]; omega)]
  simp [BackendMessage.frame, readMessage, htake]

/-- What is read is a frame. -/
theorem eq_of_readMessage {input rest : Bytes} {m : RawMessage}
    (h : readMessage input = some (m, rest)) :
    4 + m.payload.length < 2 ^ 32 ∧ input = BackendMessage.frame m.type m.payload ++ rest := by
  unfold readMessage takeBe at h
  cases input with
  | nil => cases h
  | cons type bs =>
    simp only at h
    split at h
    · cases h
    · rename_i len bytes htake
      obtain ⟨hshort, htake⟩ := Option.ite_none_left_eq_some.mp htake
      obtain ⟨rfl, rfl⟩ := Prod.mk.inj (Option.some.inj htake)
      split_ifs at h with hlen hrest
      obtain ⟨rfl, rfl⟩ := Prod.mk.inj (Option.some.inj h)
      have h4 : (bs.take 4).length = 4 := List.length_take_of_le (by omega)
      have hlt : beNat (bs.take 4) < 2 ^ 32 := beNat_lt h4
      have hpayload : 4 + ((bs.drop 4).take (beNat (bs.take 4) - 4)).length = beNat (bs.take 4) := by
        rw [List.length_take_of_le (by omega)]
        omega
      refine ⟨hpayload.trans_lt hlt, ?_⟩
      rw [BackendMessage.frame, hpayload, beBytes_beNat h4, List.append_assoc,
        List.take_append_drop, List.cons_append, List.take_append_drop]

/-- The messages as records. -/
def messageFraming : Framing RawMessage where
  encode m := BackendMessage.frame m.type m.payload
  decode := readMessage
  Fits m := 4 + m.payload.length < 2 ^ 32
  decode_encode _ rest h := readMessage_frame h rest
  decode_sound _ _ _ h := eq_of_readMessage h
  decode_cut := Framing.cut_of_sound (fun _ rest h => readMessage_frame h rest)
    fun _ _ _ h => eq_of_readMessage h
  decode_length _ _ _ h := by
    rw [(eq_of_readMessage h).2, List.length_append]
    simp [BackendMessage.frame]

theorem messages_eq_readAll (input : Bytes) : messages input = messageFraming.readAll input := by
  have hloop : ∀ n bs, messagesFrom n bs = messageFraming.readLoop n bs := by
    intro n
    induction n with
    | zero => exact fun _ => rfl
    | succ n ih =>
      intro bs
      have hdecode : messageFraming.decode bs = readMessage bs := rfl
      rw [messagesFrom, Framing.readLoop, hdecode]
      cases readMessage bs with
      | none => rfl
      | some x => exact congrArg (x.1 :: ·) (ih x.2)
  exact hloop _ _

/-- **The bytes of a client have one meaning.**  These messages are read from an input exactly if
it begins with their frames, none too long for its length field, and no whole frame follows. -/
theorem messages_eq_iff {input : Bytes} {ms : List RawMessage} :
    messages input = ms ↔ (∀ m ∈ ms, 4 + m.payload.length < 2 ^ 32) ∧
      ∃ tail, input = (ms.flatMap fun m => BackendMessage.frame m.type m.payload) ++ tail ∧
        readMessage tail = none := by
  rw [messages_eq_readAll]
  exact messageFraming.readAll_eq_iff

end TransDb.Pgwire
