import TransDb.Storage.MvccStore

/-!
# The write-ahead log

The model of `src/txn/wal.cpp` at the level of whole records: the log is the list of
records appended to it, and a crash leaves some beginning of that list.  The
payloads are the bytes the source writes.

* `WAL.append` — one record with the next sequence number.
* `serializeWritePayload`, … , `deserializeWritePayload`, … — the payload formats;
  each reads back what it wrote, for keys and values below `2 ^ 32` bytes where
  there are any.
* `deserialize_iff_serialize` — nothing else is accepted.
-/

namespace TransDb.Txn

open Storage

abbrev TxnId := ℕ

/-- What a record says. -/
inductive WALRecordType where
  | begin
  | write
  | delete
  | prepare
  | commit
  | abort
  deriving DecidableEq, Repr

/-- A record. -/
structure WALRecord where
  lsn : ℕ
  txnId : TxnId
  type : WALRecordType
  payload : Bytes
  deriving DecidableEq, Repr

/-- The records appended so far, and the number of the next one. -/
structure WAL where
  records : List WALRecord
  nextLsn : ℕ

namespace WAL

/-- A log file that has just been created. -/
def empty : WAL := ⟨[], 1⟩

/-- `Append`. -/
def append (w : WAL) (txnId : TxnId) (type : WALRecordType) (payload : Bytes) : WAL :=
  ⟨w.records ++ [⟨w.nextLsn, txnId, type, payload⟩], w.nextLsn + 1⟩

@[simp] theorem records_append (w : WAL) (txnId : TxnId) (type : WALRecordType)
    (payload : Bytes) :
    (w.append txnId type payload).records = w.records ++ [⟨w.nextLsn, txnId, type, payload⟩] := rfl

/-! ## Payloads -/

/-- `AppendFixedLe32` of a size: the cast to 32 bits is the cut to four bytes. -/
def le32 (n : ℕ) : Bytes := leBytes 4 n

/-- `AppendLe64`. -/
def le64 (ts : Timestamp) : Bytes := leBytes 8 ts.toNat

/-- `ConsumeLe32`. -/
def consumeLe32 (data : Bytes) : Option (ℕ × Bytes) := takeLe 4 data

/-- `ConsumeLe64`. -/
def consumeLe64 (data : Bytes) : Option (Timestamp × Bytes) :=
  (takeLe 8 data).map fun r => (UInt64.ofNat r.1, r.2)

theorem consumeLe32_le32 {n : ℕ} (h : n < 2 ^ 32) (rest : Bytes) :
    consumeLe32 (le32 n ++ rest) = some (n, rest) :=
  takeLe_of_lt h rest

theorem consumeLe64_le64 (ts : Timestamp) (rest : Bytes) :
    consumeLe64 (le64 ts ++ rest) = some (ts, rest) := by
  unfold consumeLe64 le64
  rw [takeLe_of_lt (show ts.toNat < 256 ^ 8 from ts.toNat_lt)]
  simp

theorem eq_of_consumeLe32 {n : ℕ} {data rest : Bytes} (h : consumeLe32 data = some (n, rest)) :
    n < 2 ^ 32 ∧ data = le32 n ++ rest :=
  eq_of_takeLe h

variable {payload : Bytes} {ts : Timestamp}

theorem eq_of_consumeLe64 {data rest : Bytes}
    (h : consumeLe64 data = some (ts, rest)) : data = le64 ts ++ rest := by
  obtain ⟨⟨n, rest'⟩, hn, heq⟩ := Option.map_eq_some_iff.mp h
  obtain ⟨rfl, rfl⟩ := Prod.mk.inj heq
  obtain ⟨hlt, rfl⟩ := eq_of_takeLe hn
  rw [le64, UInt64.toNat_ofNat_of_lt' hlt]

/-- `SerializeBeginPayload`. -/
def serializeBeginPayload (snapshotTs : Timestamp) : Bytes := le64 snapshotTs

/-- `SerializeWritePayload`. -/
def serializeWritePayload (tableId : TableId) (key value : Bytes) (writeTs : Timestamp) : Bytes :=
  le32 tableId.toNat ++ (le32 key.length ++ (key ++ (le32 value.length ++ (value ++ le64 writeTs))))

/-- `SerializeDeletePayload`. -/
def serializeDeletePayload (tableId : TableId) (key : Bytes) (writeTs : Timestamp) : Bytes :=
  le32 tableId.toNat ++ (le32 key.length ++ (key ++ le64 writeTs))

/-- `SerializePreparePayload`. -/
def serializePreparePayload (commitTs : Timestamp) : Bytes := le64 commitTs

/-- `SerializeCommitPayload`. -/
def serializeCommitPayload (commitTs : Timestamp) : Bytes := le64 commitTs

/-- A write, as it is logged. -/
structure WriteInfo where
  tableId : TableId
  key : Bytes
  value : Bytes
  writeTs : Timestamp
  deriving DecidableEq

/-- A delete, as it is logged. -/
structure DeleteInfo where
  tableId : TableId
  key : Bytes
  writeTs : Timestamp
  deriving DecidableEq

/-- One timestamp and nothing after it. -/
def deserializeTimestamp (payload : Bytes) : Option Timestamp :=
  match consumeLe64 payload with
  | some (ts, []) => some ts
  | _ => none

/-- The check of the size comes first here, and says no more than the rest. -/
def deserializeBeginPayload (payload : Bytes) : Option Timestamp :=
  if payload.length ≠ 8 then none else deserializeTimestamp payload

/-- `DeserializePreparePayload`. -/
def deserializePreparePayload (payload : Bytes) : Option Timestamp := deserializeTimestamp payload

/-- `DeserializeCommitPayload`. -/
def deserializeCommitPayload (payload : Bytes) : Option Timestamp := deserializeTimestamp payload

/-- `DeserializeWritePayload`. -/
def deserializeWritePayload (payload : Bytes) : Option WriteInfo := do
  let (tid, pv) ← consumeLe32 payload
  let (klen, pv) ← consumeLe32 pv
  if pv.length < klen then none else
  let key := pv.take klen
  let (vlen, pv) ← consumeLe32 (pv.drop klen)
  if pv.length < vlen + 8 then none else
  let value := pv.take vlen
  match consumeLe64 (pv.drop vlen) with
  | some (wts, []) => some ⟨UInt32.ofNat tid, key, value, wts⟩
  | _ => none

/-- `DeserializeDeletePayload`. -/
def deserializeDeletePayload (payload : Bytes) : Option DeleteInfo := do
  let (tid, pv) ← consumeLe32 payload
  let (klen, pv) ← consumeLe32 pv
  if pv.length < klen + 8 then none else
  let key := pv.take klen
  match consumeLe64 (pv.drop klen) with
  | some (wts, []) => some ⟨UInt32.ofNat tid, key, wts⟩
  | _ => none

theorem deserializeTimestamp_le64 (ts : Timestamp) : deserializeTimestamp (le64 ts) = some ts := by
  have := consumeLe64_le64 ts []
  rw [List.append_nil] at this
  rw [deserializeTimestamp, this]

theorem deserializeBeginPayload_serialize (ts : Timestamp) :
    deserializeBeginPayload (serializeBeginPayload ts) = some ts := by
  have hlen : (serializeBeginPayload ts).length = 8 := length_leBytes 8 _
  rw [deserializeBeginPayload, if_neg (by simp [hlen])]
  exact deserializeTimestamp_le64 ts

theorem deserializePreparePayload_serialize (ts : Timestamp) :
    deserializePreparePayload (serializePreparePayload ts) = some ts :=
  deserializeTimestamp_le64 ts

theorem deserializeCommitPayload_serialize (ts : Timestamp) :
    deserializeCommitPayload (serializeCommitPayload ts) = some ts :=
  deserializeTimestamp_le64 ts

theorem deserializeWritePayload_serialize (t : TableId) {key value : Bytes} (ts : Timestamp)
    (hk : key.length < 2 ^ 32) (hv : value.length < 2 ^ 32) :
    deserializeWritePayload (serializeWritePayload t key value ts) = some ⟨t, key, value, ts⟩ := by
  have hts := consumeLe64_le64 ts []
  rw [List.append_nil] at hts
  have hlen : ¬ (value ++ le64 ts).length < value.length + 8 := by simp [le64]
  simp only [deserializeWritePayload, serializeWritePayload, consumeLe32_le32 t.toNat_lt,
    consumeLe32_le32 hk, consumeLe32_le32 hv, Option.bind_eq_bind, Option.bind_some,
    List.take_left' rfl, List.drop_left' rfl, if_neg hlen, hts, UInt32.ofNat_toNat]
  rw [if_neg (by simp)]

theorem deserializeDeletePayload_serialize (t : TableId) {key : Bytes} (ts : Timestamp)
    (hk : key.length < 2 ^ 32) :
    deserializeDeletePayload (serializeDeletePayload t key ts) = some ⟨t, key, ts⟩ := by
  have hts := consumeLe64_le64 ts []
  rw [List.append_nil] at hts
  have hlen : ¬ (key ++ le64 ts).length < key.length + 8 := by simp [le64]
  simp only [deserializeDeletePayload, serializeDeletePayload, consumeLe32_le32 t.toNat_lt,
    consumeLe32_le32 hk, Option.bind_eq_bind, Option.bind_some, List.take_left' rfl,
    List.drop_left' rfl, if_neg hlen, hts, UInt32.ofNat_toNat]

/-! ### What is accepted -/

theorem eq_of_deserializeTimestamp
    (h : deserializeTimestamp payload = some ts) : payload = le64 ts := by
  unfold deserializeTimestamp at h
  split at h
  · next heq =>
    obtain rfl := Option.some.inj h
    rw [eq_of_consumeLe64 heq, List.append_nil]
  · cases h

/-- The bytes of a string and its timestamp. -/
theorem eq_append_le64 {pv : Bytes} {len : ℕ} (hlen : ¬ pv.length < len + 8)
    (h : consumeLe64 (pv.drop len) = some (ts, [])) :
    (pv.take len).length = len ∧ pv = pv.take len ++ le64 ts := by
  have hts := eq_of_consumeLe64 h
  rw [List.append_nil] at hts
  exact ⟨List.length_take_of_le (by omega), by rw [← hts, List.take_append_drop]⟩

theorem eq_of_deserializeWritePayload {w : WriteInfo}
    (h : deserializeWritePayload payload = some w) :
    w.key.length < 2 ^ 32 ∧ w.value.length < 2 ^ 32 ∧
      payload = serializeWritePayload w.tableId w.key w.value w.writeTs := by
  obtain ⟨⟨tid, pv₁⟩, h₁, hread⟩ := Option.bind_eq_some_iff.mp h
  obtain ⟨⟨klen, pv₂⟩, h₂, hrest⟩ := Option.bind_eq_some_iff.mp hread
  obtain ⟨htid, rfl⟩ := eq_of_consumeLe32 h₁
  obtain ⟨hk, rfl⟩ := eq_of_consumeLe32 h₂
  dsimp only at hrest
  split_ifs at hrest with hkey
  obtain ⟨⟨vlen, pv₃⟩, h₃, hlast⟩ := Option.bind_eq_some_iff.mp hrest
  obtain ⟨hv, hdrop⟩ := eq_of_consumeLe32 h₃
  dsimp only at hlast
  split_ifs at hlast with hvalue
  have hlen : (pv₂.take klen).length = klen := List.length_take_of_le (Nat.not_lt.mp hkey)
  split at hlast
  · next hts =>
    obtain rfl := Option.some.inj hlast
    obtain ⟨hvlen, hpv⟩ := eq_append_le64 hvalue hts
    simp only [serializeWritePayload, hlen, hvlen, ← hpv, ← hdrop, List.take_append_drop,
      UInt32.toNat_ofNat_of_lt' htid]
    exact ⟨hk, hv, trivial⟩
  · cases hlast

theorem eq_of_deserializeDeletePayload {d : DeleteInfo}
    (h : deserializeDeletePayload payload = some d) :
    d.key.length < 2 ^ 32 ∧ payload = serializeDeletePayload d.tableId d.key d.writeTs := by
  obtain ⟨⟨tid, pv₁⟩, h₁, hread⟩ := Option.bind_eq_some_iff.mp h
  obtain ⟨⟨klen, pv₂⟩, h₂, hrest⟩ := Option.bind_eq_some_iff.mp hread
  obtain ⟨htid, rfl⟩ := eq_of_consumeLe32 h₁
  obtain ⟨hk, rfl⟩ := eq_of_consumeLe32 h₂
  dsimp only at hrest
  split_ifs at hrest with hkey
  split at hrest
  · next hts =>
    obtain rfl := Option.some.inj hrest
    obtain ⟨hlen, hpv⟩ := eq_append_le64 hkey hts
    simp only [serializeDeletePayload, hlen, ← hpv, UInt32.toNat_ofNat_of_lt' htid]
    exact ⟨hk, trivial⟩
  · cases hrest

/-- **A payload is accepted if and only if it is a serialisation**, that of the fields it is read
as.  So no two payloads are read as the same fields. -/
theorem deserialize_iff_serialize (payload : Bytes) :
    (∀ ts, deserializeBeginPayload payload = some ts ↔ payload = serializeBeginPayload ts) ∧
    (∀ w, deserializeWritePayload payload = some w ↔ w.key.length < 2 ^ 32 ∧
      w.value.length < 2 ^ 32 ∧
      payload = serializeWritePayload w.tableId w.key w.value w.writeTs) ∧
    (∀ d, deserializeDeletePayload payload = some d ↔ d.key.length < 2 ^ 32 ∧
      payload = serializeDeletePayload d.tableId d.key d.writeTs) ∧
    (∀ ts, deserializePreparePayload payload = some ts ↔ payload = serializePreparePayload ts) ∧
    ∀ ts, deserializeCommitPayload payload = some ts ↔ payload = serializeCommitPayload ts := by
  refine ⟨fun ts => ⟨fun h => ?_, ?_⟩, fun w => ⟨eq_of_deserializeWritePayload, ?_⟩,
    fun d => ⟨eq_of_deserializeDeletePayload, ?_⟩, fun ts => ⟨eq_of_deserializeTimestamp, ?_⟩,
    fun ts => ⟨eq_of_deserializeTimestamp, ?_⟩⟩
  · unfold deserializeBeginPayload at h
    split_ifs at h
    exact eq_of_deserializeTimestamp h
  · rintro rfl
    exact deserializeBeginPayload_serialize ts
  · rintro ⟨hk, hv, rfl⟩
    exact deserializeWritePayload_serialize w.tableId w.writeTs hk hv
  · rintro ⟨hk, rfl⟩
    exact deserializeDeletePayload_serialize d.tableId d.writeTs hk
  · rintro rfl
    exact deserializePreparePayload_serialize ts
  · rintro rfl
    exact deserializeCommitPayload_serialize ts

end WAL

end TransDb.Txn
