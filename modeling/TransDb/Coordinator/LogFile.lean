import TransDb.Core.Framing
import TransDb.Core.Sealed
import TransDb.Coordinator.Cluster

/-!
# The file of the coordinator log

The model of `src/coordinator/coordinator_log.cpp` at the level of bytes.

* `writeRecord`, `parseRecord` — one record; `logFraming` says that they fit together.
* `LogFile` — `Open`, `Append` and `Replay` on the bytes of the file.
* `replay_after_cut_iff` — **when the log keeps every record over a crash.**
* `Holds` — the file holds the log of a cluster: `Holds.append`, `Holds.flush`, `Holds.crash`.
-/

namespace TransDb.Coordinator

open List Storage Txn

/-- A record as it stands in the file, where any byte can be its type. -/
structure FileRecord where
  type : UInt8
  txnId : UInt64
  timestampUs : UInt64
  shards : List UInt32
  deriving DecidableEq

namespace LogFile

/-! ## Records -/

/-- The part of a record that its checksum is for. -/
def recordContent (r : FileRecord) : Bytes :=
  WAL.le64 r.txnId ++ (WAL.le64 r.timestampUs ++ (r.type ::
    (WAL.le32 r.shards.length ++ r.shards.flatMap fun sid => WAL.le32 sid.toNat)))

/-- `WriteRecord`: the body with its checksum, after its length. -/
def writeRecord (r : FileRecord) : Bytes :=
  let body := recordContent r ++ WAL.le32 (crc32Ieee (recordContent r)).toNat
  WAL.le32 body.length ++ body

/-- The loop that reads the shards. -/
def readShards : ℕ → Bytes → List UInt32
  | 0, _ => []
  | n + 1, data => UInt32.ofNat (leNat (data.take 4)) :: readShards n (data.drop 4)

/-- What the body of a record says. -/
def bodyRecord (body : Bytes) : FileRecord where
  txnId := headWord0 body
  timestampUs := headWord1 body
  type := headByte body
  shards := readShards (headCount body) (body.drop 21)

/-- One turn of the loop of `Replay`: a record, and what follows it. -/
def parseRecord (data : Bytes) : Option (FileRecord × Bytes) :=
  match WAL.consumeLe32 data with
  | none => none
  | some (recLen, data) =>
    if recLen < 25 ∨ data.length < recLen then none
    else
      let body := data.take recLen
      if (crc32Ieee (body.take (body.length - 4))).toNat ≠ leNat (body.drop (body.length - 4))
        then none
      else if 21 + headCount body * 4 + 4 ≠ body.length then none
      else some (bodyRecord body, data.drop recLen)

/-- The length of a record can be written with 32 bits. -/
def Fits (r : FileRecord) : Prop := r.shards.length * 4 + 25 < 2 ^ 32

/-! ## Shards -/

/-- The bytes of the shards. -/
def shardBytes (shards : List UInt32) : Bytes := shards.flatMap fun sid => WAL.le32 sid.toNat

@[simp] theorem length_shardBytes (shards : List UInt32) :
    (shardBytes shards).length = shards.length * 4 := by
  induction shards with
  | nil => rfl
  | cons sid shards ih =>
    have hcons : shardBytes (sid :: shards) = WAL.le32 sid.toNat ++ shardBytes shards := rfl
    rw [hcons, length_append, ih, WAL.le32, length_leBytes, length_cons]
    omega

theorem readShards_append (shards : List UInt32) (rest : Bytes) :
    readShards shards.length (shardBytes shards ++ rest) = shards := by
  induction shards with
  | nil => rfl
  | cons sid shards ih =>
    have hcons : shardBytes (sid :: shards) ++ rest =
        WAL.le32 sid.toNat ++ (shardBytes shards ++ rest) := by
      rw [← append_assoc]
      rfl
    have h4 : (WAL.le32 sid.toNat).length = 4 := length_leBytes 4 _
    have hlt : sid.toNat < 256 ^ 4 := sid.toNat_lt
    rw [length_cons, hcons, readShards, take_left' h4, drop_left' h4, ih, WAL.le32,
      leNat_leBytes, Nat.mod_eq_of_lt hlt, UInt32.ofNat_toNat]

/-- What is read of the shards are their bytes. -/
theorem shardBytes_readShards (n : ℕ) (data : Bytes) (h : n * 4 ≤ data.length) :
    (readShards n data).length = n ∧ shardBytes (readShards n data) = data.take (n * 4) := by
  induction n generalizing data with
  | zero => exact ⟨rfl, by simp [readShards, shardBytes]⟩
  | succ n ih =>
    obtain ⟨hlen, hbytes⟩ := ih (data.drop 4) (by rw [length_drop]; omega)
    have h4 : (data.take 4).length = 4 := length_take_of_le (by omega)
    have hfirst : WAL.le32 (UInt32.ofNat (leNat (data.take 4))).toNat = data.take 4 := by
      rw [UInt32.toNat_ofNat_of_lt' (leNat_lt h4), WAL.le32, leBytes_leNat h4]
    refine ⟨by rw [readShards, length_cons, hlen], ?_⟩
    have hcons : shardBytes (readShards (n + 1) data) =
        WAL.le32 (UInt32.ofNat (leNat (data.take 4))).toNat ++
          shardBytes (readShards n (data.drop 4)) := rfl
    rw [hcons, hfirst, hbytes, show (n + 1) * 4 = 4 + n * 4 by ring, take_add]

section Record

variable {r : FileRecord}

theorem writeRecord_eq (r : FileRecord) : writeRecord r = sealed (recordContent r) := rfl

theorem recordContent_eq (r : FileRecord) :
    recordContent r = headed r.txnId r.timestampUs r.type r.shards.length (shardBytes r.shards) := rfl

@[simp] theorem length_recordContent (r : FileRecord) :
    (recordContent r).length = r.shards.length * 4 + 21 := by
  rw [recordContent_eq, length_headed, length_shardBytes]

theorem length_body_lt (h : Fits r) : (recordContent r).length + 4 < 2 ^ 32 := by
  unfold Fits at h
  rw [length_recordContent]
  omega

theorem headCount_recordContent (h : Fits r) (rest : Bytes) :
    headCount (recordContent r ++ rest) = r.shards.length := by
  have hlt : r.shards.length < 2 ^ 32 := by
    unfold Fits at h
    omega
  rw [recordContent_eq, headed_append, headCount_headed, Nat.mod_eq_of_lt hlt]

theorem bodyRecord_recordContent (h : Fits r) (rest : Bytes) :
    bodyRecord (recordContent r ++ rest) = r := by
  rw [bodyRecord, headCount_recordContent h, recordContent_eq, headed_append, headWord0_headed,
    headWord1_headed, headByte_headed, drop21_headed, readShards_append]

/-- **A record is read as it was written.** -/
theorem parseRecord_writeRecord (h : Fits r) (rest : Bytes) :
    parseRecord (writeRecord r ++ rest) = some (r, rest) := by
  have hread : WAL.consumeLe32 (writeRecord r ++ rest) =
      some ((withCrc (recordContent r)).length, withCrc (recordContent r) ++ rest) := by
    rw [length_withCrc]
    exact takeLe_sealed (length_body_lt h) rest
  have hcount : headCount (withCrc (recordContent r)) = r.shards.length := headCount_recordContent h _
  have hrec : bodyRecord (withCrc (recordContent r)) = r := bodyRecord_recordContent h _
  have hlen : (withCrc (recordContent r)).length = r.shards.length * 4 + 25 := by
    rw [length_withCrc, length_recordContent]
  have hcrc : (crc32Ieee ((withCrc (recordContent r)).take ((withCrc (recordContent r)).length - 4))).toNat =
      leNat ((withCrc (recordContent r)).drop ((withCrc (recordContent r)).length - 4)) :=
    checked_withCrc _
  unfold parseRecord
  rw [hread]
  simp only [take_left' rfl, drop_left' rfl]
  rw [if_neg, if_neg (not_not.mpr hcrc), if_neg, hrec]
  · rw [hcount, hlen]
    omega
  · rw [length_append, hlen]
    omega

theorem recordContent_bodyRecord {body : Bytes} (hcount : 21 + headCount body * 4 + 4 = body.length) :
    (bodyRecord body).shards.length = headCount body ∧
      recordContent (bodyRecord body) = body.take (body.length - 4) := by
  obtain ⟨hlen, hbytes⟩ := shardBytes_readShards (headCount body) (body.drop 21)
    (by rw [length_drop]; omega)
  have hlen : (bodyRecord body).shards.length = headCount body := hlen
  refine ⟨hlen, ?_⟩
  have htake : body.length - 4 = headCount body * 4 + 21 := by omega
  calc recordContent (bodyRecord body)
      = headed (headWord0 body) (headWord1 body) (headByte body) (bodyRecord body).shards.length
          (shardBytes (readShards (headCount body) (body.drop 21))) := rfl
    _ = (headed (headWord0 body) (headWord1 body) (headByte body) (headCount body)
          (body.drop 21)).take (headCount body * 4 + 21) := by rw [take_headed, hlen, hbytes]
    _ = body.take (body.length - 4) := by rw [← eq_headed (by omega), htake]

/-- **What is read was written.** -/
theorem parseRecord_sound {data rest : Bytes} (h : parseRecord data = some (r, rest)) :
    Fits r ∧ data = writeRecord r ++ rest := by
  unfold parseRecord at h
  cases hc : WAL.consumeLe32 data with
  | none => simp [hc] at h
  | some p =>
    obtain ⟨k, data'⟩ := p
    simp only [hc] at h
    split_ifs at h with hshort hcrc hcount
    cases h
    have hlen : (data'.take k).length = k := length_take_of_le (by omega)
    have hlt : k < 2 ^ 32 := (eq_of_takeLe hc).1
    obtain ⟨hshards, hcontent⟩ := recordContent_bodyRecord (not_ne_iff.mp hcount)
    rw [hlen] at hcontent hcount
    refine ⟨?_, ?_⟩
    · show (bodyRecord (data'.take k)).shards.length * 4 + 25 < 2 ^ 32
      omega
    · rw [writeRecord_eq, hcontent]
      exact eq_sealed hc (by omega) (by omega) (not_not.mp hcrc)

theorem parseRecord_length {data rest : Bytes} (h : parseRecord data = some (r, rest)) :
    rest.length < data.length := by
  rw [(parseRecord_sound h).2, length_append, writeRecord_eq, length_sealed]
  omega

end Record

/-- The records of a log file. -/
def logFraming : Framing FileRecord where
  encode := writeRecord
  decode := parseRecord
  Fits := Fits
  decode_encode := fun _ rest h => parseRecord_writeRecord h rest
  decode_sound := fun _ _ _ h => parseRecord_sound h
  decode_cut := Framing.cut_of_sound (fun _ rest h => parseRecord_writeRecord h rest)
    fun _ _ _ h => parseRecord_sound h
  decode_length := fun _ _ _ h => parseRecord_length h

end LogFile

/-! ## Files -/

/-- The bytes of the file. -/
structure LogFile where
  bytes : Bytes

namespace LogFile

/-- `Open`: the bytes that are there stay, and records are appended behind them. -/
def «open» (bytes : Bytes) : LogFile := ⟨bytes⟩

/-- `AppendWrite`, and `Append` without the wait for the disk. -/
def append (f : LogFile) (r : FileRecord) : LogFile := ⟨f.bytes ++ writeRecord r⟩

/-- `Replay`: the records that the visitor sees. -/
def replay (f : LogFile) : List FileRecord := logFraming.readAll f.bytes

theorem bytes_foldl_append (f : LogFile) (rs : List FileRecord) :
    (rs.foldl append f).bytes = f.bytes ++ logFraming.encodeAll rs := by
  induction rs generalizing f with
  | nil => simp
  | cons r rs ih =>
    rw [foldl_cons, ih, Framing.encodeAll_cons, ← append_assoc]
    rfl

/-- **When the log keeps every record over a crash**: the records fit, and the bytes that
the crash leaves of another do no harm to those that are appended behind them. -/
theorem replay_after_cut_iff (written appended : List FileRecord) (n : ℕ) :
    (appended.foldl append («open» ((written.flatMap writeRecord).take n))).replay =
        logFraming.contained n written ++ appended ↔
      (∀ r ∈ logFraming.contained n written ++ appended, Fits r) ∧
        logFraming.Harmless (logFraming.torn n written) appended := by
  rw [replay, bytes_foldl_append]
  exact logFraming.readAll_append_iff

/-- The decision to commit is written behind five bytes of another record, and lost. -/
theorem torn_tail_hides_decision :
    ∃ written appended n,
      (appended.foldl append («open» ((written.flatMap writeRecord).take n))).replay ≠
        logFraming.contained n written ++ appended :=
  ⟨[⟨1, 7, 100, [0, 1]⟩], [⟨2, 8, 200, [0, 1]⟩], 5, by decide +kernel⟩

/-! ## The log of a cluster -/

/-- The byte of a type. -/
def typeByte : CoordinatorLogRecordType → UInt8
  | .preparing => 1
  | .committing => 2
  | .committed => 3
  | .aborting => 4
  | .aborted => 5

/-- A record of the log as it was written at some time. -/
def Written (r : CoordinatorLogRecord) (w : FileRecord) : Prop :=
  ∃ timestampUs, w = ⟨typeByte r.type, r.txnId, timestampUs, r.shards⟩

/-- The file has the records of the log, and in its first `synced` bytes those that are flushed. -/
def Holds (f : LogFile) (synced : ℕ) (log : CoordinatorLog) : Prop :=
  ∃ ws, Forall₂ Written log.records ws ∧ f.bytes = logFraming.encodeAll ws ∧
    log.flushed ≤ ws.length ∧ (logFraming.encodeAll (ws.take log.flushed)).length ≤ synced

section Holds

variable {f : LogFile} {synced n : ℕ} {log : CoordinatorLog}

theorem Holds.append (h : f.Holds synced log) {r : CoordinatorLogRecord} {w : FileRecord}
    (hw : Written r w) :
    (f.append w).Holds synced { log with records := log.records ++ [r] } := by
  obtain ⟨ws, hws, hbytes, hflushed, hsynced⟩ := h
  refine ⟨ws ++ [w], rel_append hws (.cons hw .nil), ?_, ?_, ?_⟩
  · show f.bytes ++ writeRecord w = _
    rw [logFraming.encodeAll_append, ← hbytes, Framing.encodeAll_cons, Framing.encodeAll_nil,
      append_nil]
    rfl
  · rw [length_append]
    exact Nat.le_add_right_of_le hflushed
  · rw [take_append_of_le_length hflushed]
    exact hsynced

theorem Holds.flush (h : f.Holds synced log) :
    f.Holds f.bytes.length { log with flushed := log.records.length } := by
  obtain ⟨ws, hws, hbytes, -, -⟩ := h
  refine ⟨ws, hws, hbytes, hws.length_eq.le, ?_⟩
  rw [hbytes, hws.length_eq, take_length]

/-- **A crash of the file is one of the cluster.**  Cut anywhere behind what is on the disk, it is
read as the records that a step of the cluster leaves, and holds that log if no record is torn. -/
theorem Holds.crash {cfg : Config} {first : ℕ → Raft.RaftTxnId} {s : Cluster}
    (h : f.Holds synced s.log) (hn : synced ≤ n)
    (hfits : ∀ r ∈ s.log.records, r.shards.length * 4 + 25 < 2 ^ 32) :
    let g := «open» (f.bytes.take n)
    ∃ kept s', s.step cfg first (.crash kept) = some s' ∧ Forall₂ Written s'.log.records g.replay ∧
      (g.bytes = logFraming.encodeAll g.replay → g.Holds g.bytes.length s'.log) := by
  intro g
  obtain ⟨ws, hws, hbytes, hflushed, hsynced⟩ := h
  have hall : ∀ w ∈ ws, Fits w := by
    intro w hw
    obtain ⟨i, hi, rfl⟩ := getElem_of_mem hw
    have hi' : i < s.log.records.length := hws.length_eq ▸ hi
    obtain ⟨timestampUs, hwritten⟩ := hws.get hi' hi
    rw [get_eq_getElem] at hwritten
    exact hwritten ▸ hfits _ (getElem_mem hi')
  obtain ⟨kept, hkept, hread, -, hlt⟩ := logFraming.contained_eq_take n ws
  have hreplay : g.replay = ws.take kept := by
    show logFraming.readAll (f.bytes.take n) = _
    rw [hbytes, logFraming.readAll_take hall, hread]
  -- the bytes of the flushed records are there
  have hmin : s.log.flushed ≤ kept := by
    by_contra hless
    have hmore := hlt (by omega)
    have hsplit := logFraming.encodeAll_append ((ws.take s.log.flushed).take (kept + 1))
      ((ws.take s.log.flushed).drop (kept + 1))
    rw [take_append_drop, take_take, Nat.min_eq_left (by omega)] at hsplit
    rw [hsplit, length_append] at hsynced
    omega
  have hwritten := forall₂_take kept hws
  refine ⟨kept, _, if_pos ⟨hmin, hws.length_eq ▸ hkept⟩, hreplay ▸ hwritten, fun hwhole => ?_⟩
  rw [hreplay] at hwhole
  refine ⟨ws.take kept, hwritten, hwhole, ?_, ?_⟩
  · rw [length_take]
    exact le_min le_rfl hkept
  · rw [hwhole]
    show (logFraming.encodeAll ((ws.take kept).take kept)).length ≤ _
    rw [take_take, Nat.min_self]

end Holds

end LogFile

end TransDb.Coordinator
