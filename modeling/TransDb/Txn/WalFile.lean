import Mathlib.Data.List.Induction
import TransDb.Core.Framing
import TransDb.Core.Machine
import TransDb.Core.Sealed
import TransDb.Txn.Wal

/-!
# The file of the write-ahead log

The model of `src/txn/wal.cpp` at the level of bytes: what `WriteRecord` writes, what
`ParseRecordsFromBytes` reads, and what `Open` does with the bytes it finds.

* `writeRecord`, `parseRecord` — one record; `walFraming` says that they fit together.
* `WALFile` — the bytes and the number of the next record; `open`, `append`, `replay`.
* `replay_appendAll` — **what is appended to an empty log is replayed**, and of a file
  that was cut the records that are whole.
* `parse_flipBit` — **a bit that is flipped ends the log before its record.**
* `walDisk` — files that are cut by crashes and opened again; `replay_after_crashes` —
  **every cut between two records is survived.**
-/

namespace TransDb.Txn

open List Storage

/-- The byte of a type. -/
def WALRecordType.toByte : WALRecordType → UInt8
  | .begin => 1
  | .write => 2
  | .delete => 3
  | .prepare => 4
  | .commit => 5
  | .abort => 6

/-- A record as it stands in the file, where any byte can be its type. -/
structure FileRecord where
  lsn : UInt64
  txnId : UInt64
  type : UInt8
  payload : Bytes
  deriving DecidableEq

namespace WALFile

/-! ## Records -/

/-- The part of a record that its checksum is for. -/
def recordContent (r : FileRecord) : Bytes :=
  WAL.le64 r.lsn ++ (WAL.le64 r.txnId ++ (r.type :: (WAL.le32 r.payload.length ++ r.payload)))

/-- `WriteRecord`: the body with its checksum, after its length. -/
def writeRecord (r : FileRecord) : Bytes :=
  let body := recordContent r ++ WAL.le32 (crc32Ieee (recordContent r)).toNat
  WAL.le32 body.length ++ body

/-- What the body of a record says. -/
def bodyRecord (body : Bytes) : FileRecord where
  lsn := headWord0 body
  txnId := headWord1 body
  type := headByte body
  payload := (body.drop 21).take (headCount body)

/-- One turn of the loop of `ParseRecordsFromBytes`: a record, and what follows it. -/
def parseRecord (data : Bytes) : Option (FileRecord × Bytes) :=
  match WAL.consumeLe32 data with
  | none => none
  | some (reclen, data) =>
    if reclen < 25 then none
    else if data.length < reclen then none
    else
      let body := data.take reclen
      if headCount body ≠ body.length - 25 then none
      else if (crc32Ieee (body.take (body.length - 4))).toNat ≠ leNat (body.drop (body.length - 4))
        then none
      else some (bodyRecord body, data.drop reclen)

/-- The length of a record can be written with 32 bits. -/
def Fits (r : FileRecord) : Prop := r.payload.length < 2 ^ 32 - 25

instance (r : FileRecord) : Decidable (Fits r) := inferInstanceAs (Decidable (_ < _))

section Record

variable {r : FileRecord}

theorem writeRecord_eq (r : FileRecord) : writeRecord r = sealed (recordContent r) := rfl

theorem recordContent_eq (r : FileRecord) :
    recordContent r = headed r.lsn r.txnId r.type r.payload.length r.payload := rfl

@[simp] theorem length_recordContent (r : FileRecord) :
    (recordContent r).length = r.payload.length + 21 := by
  rw [recordContent_eq, length_headed]

theorem length_body_lt (h : Fits r) : (recordContent r).length + 4 < 2 ^ 32 := by
  unfold Fits at h
  rw [length_recordContent]
  omega

/-- The length of the payload is read as it was written. -/
theorem headCount_recordContent (h : Fits r) (rest : Bytes) :
    headCount (recordContent r ++ rest) = r.payload.length := by
  have hlt : r.payload.length < 2 ^ 32 := lt_of_lt_of_le h (Nat.sub_le _ _)
  rw [recordContent_eq, headed_append, headCount_headed, Nat.mod_eq_of_lt hlt]

/-- The fields are read back. -/
theorem bodyRecord_recordContent (h : Fits r) (rest : Bytes) :
    bodyRecord (recordContent r ++ rest) = r := by
  rw [bodyRecord, headCount_recordContent h, recordContent_eq, headed_append, headWord0_headed,
    headWord1_headed, headByte_headed, drop21_headed, take_left' rfl]

/-- A body of a given length. -/
theorem parseRecord_of_body {n : ℕ} {data body rest : Bytes}
    (h : WAL.consumeLe32 data = some (n, body ++ rest)) (hn : n = body.length) :
    parseRecord data =
      if n < 25 ∨ headCount body ≠ n - 25 ∨ ¬ Checked body then none
      else some (bodyRecord body, rest) := by
  simp only [parseRecord, h, hn, take_left' rfl, drop_left' rfl]
  by_cases h25 : body.length < 25
  · simp [h25]
  by_cases hpay : headCount body = body.length - 25
  · by_cases hcrc : Checked body
    · have hcrc' : (crc32Ieee (body.take (body.length - 4))).toNat =
          leNat (body.drop (body.length - 4)) := hcrc
      simp [h25, hpay, hcrc, hcrc']
    · have hcrc' : (crc32Ieee (body.take (body.length - 4))).toNat ≠
          leNat (body.drop (body.length - 4)) := hcrc
      simp [h25, hpay, hcrc, hcrc']
  · simp [h25, hpay]

/-- **A record is read as it was written.** -/
theorem parseRecord_writeRecord (h : Fits r) (rest : Bytes) :
    parseRecord (writeRecord r ++ rest) = some (r, rest) := by
  rw [writeRecord_eq, parseRecord_of_body (takeLe_sealed (length_body_lt h) rest)
    (length_withCrc _).symm]
  have hpay : headCount (withCrc (recordContent r)) = r.payload.length := headCount_recordContent h _
  have hrec : bodyRecord (withCrc (recordContent r)) = r := bodyRecord_recordContent h _
  rw [if_neg, hrec]
  rw [hpay, length_recordContent]
  rintro (hshort | hpay | hcrc)
  · omega
  · exact hpay (by omega)
  · exact hcrc (checked_withCrc _)

/-- The fields determine the content. -/
theorem recordContent_bodyRecord {body : Bytes} (h : 25 ≤ body.length)
    (hpay : headCount body = body.length - 25) :
    (bodyRecord body).payload.length = body.length - 25 ∧
      recordContent (bodyRecord body) = body.take (body.length - 4) := by
  have hlen : (bodyRecord body).payload.length = body.length - 25 := by
    show ((body.drop 21).take (headCount body)).length = _
    rw [hpay, length_take, length_drop]
    omega
  refine ⟨hlen, ?_⟩
  have htake : body.length - 4 = body.length - 25 + 21 := by omega
  calc recordContent (bodyRecord body)
      = headed (headWord0 body) (headWord1 body) (headByte body) (bodyRecord body).payload.length
          ((body.drop 21).take (headCount body)) := rfl
    _ = (headed (headWord0 body) (headWord1 body) (headByte body) (headCount body)
          (body.drop 21)).take (body.length - 25 + 21) := by rw [take_headed, hlen, hpay]
    _ = body.take (body.length - 4) := by rw [← eq_headed (by omega), htake]

/-- **What is read was written.** -/
theorem parseRecord_sound {data rest : Bytes} (h : parseRecord data = some (r, rest)) :
    Fits r ∧ data = writeRecord r ++ rest := by
  unfold parseRecord at h
  cases hc : WAL.consumeLe32 data with
  | none => simp [hc] at h
  | some p =>
    obtain ⟨k, data'⟩ := p
    simp only [hc] at h
    split_ifs at h with hshort hend hpay hcrc
    cases h
    have hlen : (data'.take k).length = k := length_take_of_le (Nat.not_lt.mp hend)
    have hlt : k < 2 ^ 32 := (eq_of_takeLe hc).1
    obtain ⟨hplen, hcontent⟩ := recordContent_bodyRecord (by omega) (not_ne_iff.mp hpay)
    rw [hlen] at hplen hcontent
    refine ⟨?_, ?_⟩
    · show (bodyRecord (data'.take k)).payload.length < 2 ^ 32 - 25
      rw [hplen]
      omega
    · rw [writeRecord_eq, hcontent]
      exact eq_sealed hc (by omega) (Nat.le_of_not_lt hend) (not_not.mp hcrc)

theorem parseRecord_length {data rest : Bytes} (h : parseRecord data = some (r, rest)) :
    rest.length < data.length := by
  rw [(parseRecord_sound h).2, length_append, writeRecord_eq, length_sealed]
  omega

end Record

/-- The records of a log file. -/
def walFraming : Framing FileRecord where
  encode := writeRecord
  decode := parseRecord
  Fits := Fits
  decode_encode := fun _ rest h => parseRecord_writeRecord h rest
  decode_sound := fun _ _ _ h => parseRecord_sound h
  decode_cut := Framing.cut_of_sound (fun _ rest h => parseRecord_writeRecord h rest)
    fun _ _ _ h => parseRecord_sound h
  decode_length := fun _ _ _ h => parseRecord_length h

theorem walFraming_decode : walFraming.decode = parseRecord := rfl

/-- `ParseRecordsFromBytes`: the records that the visitor sees. -/
def parseRecordsFromBytes (data : Bytes) : List FileRecord := walFraming.readAll data

end WALFile

/-! ## Files -/

/-- The bytes of the file, and the number of the next record. -/
structure WALFile where
  bytes : Bytes
  nextLsn : UInt64

namespace WALFile

/-- The largest number among the records. -/
def maxLsn (records : List FileRecord) : UInt64 :=
  records.foldl (fun m r => if m < r.lsn then r.lsn else m) 0

/-- `Open`: the bytes that are there stay, and records are appended behind them. -/
def «open» (bytes : Bytes) : WALFile := ⟨bytes, maxLsn (parseRecordsFromBytes bytes) + 1⟩

/-- The record that `Append` writes. -/
def nextRecord (w : WALFile) (txnId : UInt64) (type : WALRecordType) (payload : Bytes) : FileRecord :=
  ⟨w.nextLsn, txnId, type.toByte, payload⟩

/-- `Append` and `AppendSync`. -/
def append (w : WALFile) (txnId : UInt64) (type : WALRecordType) (payload : Bytes) : WALFile :=
  ⟨w.bytes ++ writeRecord (w.nextRecord txnId type payload), w.nextLsn + 1⟩

/-- `Replay`: what the visitor sees, and the file afterwards. -/
def replay (w : WALFile) : List FileRecord × WALFile :=
  (parseRecordsFromBytes w.bytes, { w with nextLsn := maxLsn (parseRecordsFromBytes w.bytes) + 1 })

/-- Append one record after the other. -/
def appendAll (w : WALFile) (rs : List (UInt64 × WALRecordType × Bytes)) : WALFile :=
  rs.foldl (fun w r => w.append r.1 r.2.1 r.2.2) w

/-- The records with the numbers 1, 2, 3, … . -/
def numbered (rs : List (UInt64 × WALRecordType × Bytes)) : List FileRecord :=
  rs.mapIdx fun i r => ⟨UInt64.ofNat (i + 1), r.1, r.2.1.toByte, r.2.2⟩

theorem appendAll_open (rs : List (UInt64 × WALRecordType × Bytes)) :
    («open» []).appendAll rs =
      ⟨walFraming.encodeAll (numbered rs), UInt64.ofNat (rs.length + 1)⟩ := by
  induction rs using reverseRecOn with
  | nil => rfl
  | append_singleton rs r ih =>
    have hone : UInt64.ofNat (rs.length + 1) + 1 = UInt64.ofNat (rs.length + 1 + 1) := by
      rw [UInt64.ofNat_add (rs.length + 1) 1]
      rfl
    have hnumbered : numbered (rs ++ [r]) =
        numbered rs ++ [⟨UInt64.ofNat (rs.length + 1), r.1, r.2.1.toByte, r.2.2⟩] := by
      simp [numbered, mapIdx_append]
    rw [appendAll, foldl_append, show rs.foldl _ _ = _ from ih, foldl_cons, foldl_nil,
      append, nextRecord, hone, length_append, length_singleton, hnumbered,
      Framing.encodeAll_append, Framing.encodeAll_cons, Framing.encodeAll_nil, append_nil]
    rfl

/-- **What is appended to an empty log is replayed, with the numbers 1, 2, 3, …; of a file
that was cut those records are replayed whose bytes are all there.** -/
theorem replay_appendAll (rs : List (UInt64 × WALRecordType × Bytes))
    (hfits : ∀ r ∈ rs, r.2.2.length < 2 ^ 32 - 25) :
    ((«open» []).appendAll rs).replay.1 = numbered rs ∧
      ∀ n, ∃ k ≤ rs.length,
        parseRecordsFromBytes (((«open» []).appendAll rs).bytes.take n) = (numbered rs).take k ∧
        (((numbered rs).take k).flatMap writeRecord).length ≤ n ∧
        (k < rs.length → n < (((numbered rs).take (k + 1)).flatMap writeRecord).length) := by
  have hall : ∀ r ∈ numbered rs, walFraming.Fits r := by
    intro r hr
    obtain ⟨i, hi, rfl⟩ := mem_mapIdx.mp hr
    exact hfits _ (getElem_mem hi)
  rw [appendAll_open]
  refine ⟨walFraming.readAll_encodeAll hall, ?_⟩
  intro n
  obtain ⟨k, hk, htake, hle, hnext⟩ := walFraming.contained_eq_take n (numbered rs)
  have hlen : (numbered rs).length = rs.length := length_mapIdx
  rw [hlen] at hk hnext
  exact ⟨k, hk, (walFraming.readAll_take hall n).trans htake, hle, hnext⟩

/-- Three records, one of them without a payload. -/
def threeRecords : List (UInt64 × WALRecordType × Bytes) :=
  [(7, .begin, WAL.serializeBeginPayload 3), (7, .prepare, WAL.serializePreparePayload 4), (7, .abort, [])]

theorem replay_appendAll_threeRecords :
    (∀ r ∈ threeRecords, r.2.2.length < 2 ^ 32 - 25) ∧
      ((«open» []).appendAll threeRecords).replay.1 = numbered threeRecords := by
  have hfits : ∀ r ∈ threeRecords, r.2.2.length < 2 ^ 32 - 25 := by decide
  exact ⟨hfits, (replay_appendAll threeRecords hfits).1⟩

/-! ## Bits that are flipped -/

/-- Flip one bit. -/
def flipBit (i : ℕ) (bs : Bytes) : Bytes :=
  bs.modify (i / 8) fun b => b ^^^ ((1 : UInt8) <<< UInt8.ofNat (i % 8))

theorem xor_bit_ne (b : UInt8) (k : ℕ) (hk : k < 8) : b ^^^ ((1 : UInt8) <<< UInt8.ofNat k) ≠ b := by
  have hbit : ∀ k < 8, (1 : UInt8) <<< UInt8.ofNat k ≠ 0 := by decide
  intro h
  refine hbit k hk ?_
  have hzero : b ^^^ ((1 : UInt8) <<< UInt8.ofNat k) = b ^^^ 0 := by rw [h, UInt8.xor_zero]
  exact (UInt8.xor_right_inj b).mp hzero

theorem modify_append_cons (xs ys : Bytes) (b : UInt8) (f : UInt8 → UInt8) :
    (xs ++ b :: ys).modify xs.length f = xs ++ f b :: ys := by
  induction xs with
  | nil => rfl
  | cons x xs ih => exact congrArg (x :: ·) ih

/-- A flipped bit changes one byte of the string that it lies in. -/
theorem flipBit_append (pre bs rest : Bytes) {i m : ℕ} (hm : m < bs.length)
    (hi : i / 8 = pre.length + m) :
    ∃ xs b b' ys, bs = xs ++ b :: ys ∧ b ≠ b' ∧
      flipBit i (pre ++ (bs ++ rest)) = pre ++ (xs ++ b' :: ys ++ rest) := by
  have hsplit : bs = bs.take m ++ bs[m] :: bs.drop (m + 1) := by
    rw [getElem_cons_drop, take_append_drop]
  refine ⟨bs.take m, bs[m], bs[m] ^^^ ((1 : UInt8) <<< UInt8.ofNat (i % 8)), bs.drop (m + 1),
    hsplit, (xor_bit_ne _ _ (Nat.mod_lt i (by decide))).symm, ?_⟩
  have hlen : i / 8 = (pre ++ bs.take m).length := by
    rw [hi, length_append, length_take, Nat.min_eq_left (Nat.le_of_lt hm)]
  have hwhole : pre ++ (bs ++ rest) =
      (pre ++ bs.take m) ++ bs[m] :: (bs.drop (m + 1) ++ rest) :=
    calc pre ++ (bs ++ rest) = pre ++ ((bs.take m ++ bs[m] :: bs.drop (m + 1)) ++ rest) := by
          rw [← hsplit]
      _ = _ := by simp only [append_assoc, cons_append]
  rw [flipBit, hwhole, hlen, modify_append_cons]
  simp only [append_assoc, cons_append]

section Flip

variable {r : FileRecord} {xs ys : Bytes} {b b' : UInt8}

/-- A byte of the body was changed: the checksum finds it. -/
theorem parseRecord_of_body_byte (h : Fits r) (hr : withCrc (recordContent r) = xs ++ b :: ys)
    (hb : b ≠ b') (rest : Bytes) :
    parseRecord (WAL.le32 (withCrc (recordContent r)).length ++ (xs ++ b' :: ys ++ rest)) = none := by
  have hlt : (withCrc (recordContent r)).length < 2 ^ 32 := by
    rw [length_withCrc]
    exact length_body_lt h
  have hlen : (withCrc (recordContent r)).length = (xs ++ b' :: ys).length := by
    rw [hr]
    simp
  rw [parseRecord_of_body (WAL.consumeLe32_le32 hlt _) hlen, if_pos]
  exact .inr (.inr (not_checked_of_byte hr hb))

/-- A byte of the length was changed: the length of the payload does not fit it. -/
theorem parseRecord_of_length_byte (h : Fits r)
    (hr : WAL.le32 (withCrc (recordContent r)).length = xs ++ b :: ys) (hb : b ≠ b') (rest : Bytes) :
    parseRecord (xs ++ b' :: ys ++ (withCrc (recordContent r) ++ rest)) = none := by
  have hlt : (withCrc (recordContent r)).length < 256 ^ 4 := by
    rw [length_withCrc]
    exact length_body_lt h
  have hlen4 : (xs ++ b' :: ys).length = 4 := by
    have hlen := length_leBytes 4 (withCrc (recordContent r)).length
    rw [show leBytes 4 _ = _ from hr] at hlen
    simpa using hlen
  -- another length than the one that was written
  have hne : leNat (xs ++ b' :: ys) ≠ (withCrc (recordContent r)).length := by
    intro heq
    have hsame : leNat (xs ++ b' :: ys) = leNat (xs ++ b :: ys) := by
      rw [heq, ← hr, WAL.le32, leNat_leBytes, Nat.mod_eq_of_lt hlt]
    have hlists := leNat_inj (by simp) hsame
    rw [append_cancel_left_eq] at hlists
    exact hb (cons.inj hlists).1.symm
  have hread : WAL.consumeLe32 (xs ++ b' :: ys ++ (withCrc (recordContent r) ++ rest)) =
      some (leNat (xs ++ b' :: ys), withCrc (recordContent r) ++ rest) := by
    rw [WAL.consumeLe32, takeLe, if_neg (by rw [length_append]; omega), take_left' hlen4,
      drop_left' hlen4]
  unfold parseRecord
  rw [hread]
  simp only
  split_ifs with hshort hend hpay hcrc
  · rfl
  · rfl
  · rfl
  · rfl
  · exfalso
    refine hpay ?_
    rw [headCount_take (by omega), withCrc, append_assoc, headCount_recordContent h,
      ← append_assoc, ← withCrc, length_take, Nat.min_eq_left (Nat.le_of_not_lt hend)]
    rw [length_withCrc, length_recordContent] at hne
    omega

/-- **A record with a byte that was changed is not read**, whatever follows it. -/
theorem parseRecord_of_byte (h : Fits r) (hr : writeRecord r = xs ++ b :: ys) (hb : b ≠ b')
    (rest : Bytes) : parseRecord (xs ++ b' :: ys ++ rest) = none := by
  rw [writeRecord_eq, sealed] at hr
  rcases append_eq_append_iff.mp hr with ⟨as, rfl, has⟩ | ⟨cs, hlen, hcs⟩
  · rw [append_assoc, append_assoc]
    have := parseRecord_of_body_byte h has hb rest
    rw [append_assoc] at this
    exact this
  · cases cs with
    | nil =>
      rw [append_nil] at hlen
      rw [← hlen, append_assoc]
      have hbody : withCrc (recordContent r) = [] ++ b :: ys := hcs.symm
      exact parseRecord_of_body_byte h hbody hb rest
    | cons c cs =>
      rw [cons_append] at hcs
      obtain ⟨rfl, rfl⟩ := cons.inj hcs
      have := parseRecord_of_length_byte h hlen hb rest
      simpa using this

end Flip

/-- **A bit that is flipped ends the log before its record**: what is read of the file are
the records before the one that the bit lies in, as they were written. -/
theorem parse_flipBit (pre post : List FileRecord) (r : FileRecord)
    (hfits : ∀ x ∈ pre ++ r :: post, Fits x) {i : ℕ} (hlo : 8 * (pre.flatMap writeRecord).length ≤ i)
    (hhi : i < 8 * ((pre ++ [r]).flatMap writeRecord).length) :
    parseRecordsFromBytes (flipBit i ((pre ++ r :: post).flatMap writeRecord)) = pre := by
  have hpre : ∀ x ∈ pre, walFraming.Fits x := fun x hx => hfits x (mem_append_left _ hx)
  have hr : Fits r := hfits r (by simp)
  rw [flatMap_append, length_append, flatMap_singleton] at hhi
  obtain ⟨xs, b, b', ys, hsplit, hb, hflip⟩ :=
    flipBit_append (pre.flatMap writeRecord) (writeRecord r) (post.flatMap writeRecord) (i := i)
      (m := i / 8 - (pre.flatMap writeRecord).length) (by omega) (by omega)
  have hnone := parseRecord_of_byte hr hsplit hb (post.flatMap writeRecord)
  rw [flatMap_append, flatMap_cons, hflip, parseRecordsFromBytes]
  rw [show pre.flatMap writeRecord = walFraming.encodeAll pre from rfl,
    walFraming.readAll_encodeAll_append hpre, walFraming.readAll_of_none hnone, append_nil]

theorem parse_flipBit_threeRecords :
    (∀ x ∈ numbered threeRecords, Fits x) ∧
      parseRecordsFromBytes (flipBit 400 ((numbered threeRecords).flatMap writeRecord)) =
        (numbered threeRecords).take 1 := by
  have hfits : ∀ x ∈ numbered threeRecords, Fits x := by decide
  exact ⟨hfits, parse_flipBit ((numbered threeRecords).take 1) [⟨3, 7, 6, []⟩]
    ⟨2, 7, 4, WAL.serializePreparePayload 4⟩ hfits (by decide +kernel) (by decide +kernel)⟩

/-- With a payload of this length the length of the record is written as zero. -/
theorem parseRecord_of_long {r : FileRecord} (h : r.payload.length = 2 ^ 32 - 25) (rest : Bytes) :
    parseRecord (writeRecord r ++ rest) = none := by
  have hlen : (withCrc (recordContent r)).length = 2 ^ 32 := by
    rw [length_withCrc, length_recordContent, h]
    norm_num
  have hread : WAL.consumeLe32 (writeRecord r ++ rest) =
      some (0, withCrc (recordContent r) ++ rest) := by
    rw [writeRecord_eq, sealed, append_assoc, hlen, WAL.consumeLe32, takeLe_append]
    norm_num
  rw [parseRecord, hread]
  rfl

/-- Nothing is read of a file that begins with such a record. -/
theorem flipBit_of_long (r r' : FileRecord) (h : r.payload.length = 2 ^ 32 - 25) :
    ∃ i, 8 * ([r].flatMap writeRecord).length ≤ i ∧
      i < 8 * (([r] ++ [r']).flatMap writeRecord).length ∧
      parseRecordsFromBytes (flipBit i (([r] ++ [r']).flatMap writeRecord)) ≠ [r] := by
  have hpos : 0 < (writeRecord r').length := by
    rw [writeRecord_eq, length_sealed]
    omega
  refine ⟨8 * ([r].flatMap writeRecord).length, le_refl _, ?_, ?_⟩
  · rw [flatMap_append, length_append, flatMap_singleton writeRecord r']
    omega
  · obtain ⟨xs, b, b', ys, -, -, hflip⟩ := flipBit_append
      ([r].flatMap writeRecord) (writeRecord r') [] (i := 8 * ([r].flatMap writeRecord).length) hpos (by omega)
    have hnone := parseRecord_of_long h (xs ++ b' :: ys ++ [])
    rw [← walFraming_decode] at hnone
    rw [append_nil] at hflip
    rw [flatMap_append, flatMap_singleton writeRecord r', hflip, parseRecordsFromBytes,
      flatMap_singleton, walFraming.readAll_of_none hnone]
    simp

/-- A record of which nothing is read is missing before a flipped bit as well. -/
theorem flipBit_after_long_record :
    ∃ pre r post i, 8 * (pre.flatMap writeRecord).length ≤ i ∧
      i < 8 * ((pre ++ [r]).flatMap writeRecord).length ∧
      parseRecordsFromBytes (flipBit i ((pre ++ r :: post).flatMap writeRecord)) ≠ pre := by
  obtain ⟨i, hlo, hhi, hne⟩ := flipBit_of_long ⟨1, 7, 2, replicate (2 ^ 32 - 25) 0⟩
    ⟨2, 7, 6, []⟩ length_replicate
  exact ⟨_, _, [], i, hlo, hhi, hne⟩

/-! ## Crashes -/

/-- What happens to a log file: a record is appended, the log is replayed, or a crash cuts
the file and it is opened again. -/
inductive DiskEvent where
  | append (txnId : UInt64) (type : WALRecordType) (payload : Bytes)
  | replay
  | crash (size : ℕ)
  deriving DecidableEq

/-- A log file, with the records that are to be replayed: those that lie within the bytes
that the last crash left, and all that have been appended since. -/
structure WALDisk where
  file : WALFile
  kept : List FileRecord

/-- One event. -/
def walDisk : Machine WALDisk DiskEvent where
  init := ⟨«open» [], []⟩
  step := fun d e =>
    match e with
    | .append txnId type payload =>
      some ⟨d.file.append txnId type payload, d.kept ++ [d.file.nextRecord txnId type payload]⟩
    | .replay => some { d with file := d.file.replay.2 }
    | .crash size => some ⟨«open» (d.file.bytes.take size), walFraming.contained size d.kept⟩

/-- Payloads are not too long, and crashes cut the file between two records. -/
def WALDisk.spares (d : WALDisk) : DiskEvent → Prop
  | .append _ _ payload => payload.length < 2 ^ 32 - 25
  | .replay => True
  | .crash size => walFraming.CutsBetween size d.kept

instance (d : WALDisk) (e : DiskEvent) : Decidable (d.spares e) := by
  cases e <;> unfold WALDisk.spares <;> infer_instance

/-- The file holds just the records that are to be replayed. -/
structure WALDisk.Sound (d : WALDisk) : Prop where
  bytes : d.file.bytes = walFraming.encodeAll d.kept
  fits : ∀ r ∈ d.kept, walFraming.Fits r

theorem WALDisk.Sound.step {d d' : WALDisk} {e : DiskEvent} (h : d.Sound) (hs : d.spares e)
    (hstep : walDisk.step d e = some d') : d'.Sound := by
  cases e with
  | append txnId type payload =>
    cases hstep
    refine ⟨?_, ?_⟩
    · show d.file.bytes ++ writeRecord _ = walFraming.encodeAll (d.kept ++ [_])
      rw [h.bytes, Framing.encodeAll_append, Framing.encodeAll_cons, Framing.encodeAll_nil,
        append_nil]
      rfl
    · intro r hr
      rcases mem_append.mp hr with hold | hnew
      · exact h.fits r hold
      · cases mem_singleton.mp hnew
        exact hs
  | replay =>
    cases hstep
    exact ⟨h.bytes, h.fits⟩
  | crash size =>
    cases hstep
    refine ⟨?_, fun r hr => h.fits r (walFraming.mem_of_mem_contained hr)⟩
    show d.file.bytes.take size = _
    rw [h.bytes]
    exact hs

/-- **What is appended after a crash is replayed**, in every run whose crashes cut the file
between two records. -/
theorem replay_after_crashes {events : List DiskEvent} {d : WALDisk}
    (hC : walDisk.Meets WALDisk.spares walDisk.init events) (h : walDisk.run events = some d) :
    d.file.replay.1 = d.kept := by
  have hsound : d.Sound := Machine.inv_run_of_meets (I := WALDisk.Sound)
    ⟨rfl, fun r hr => by cases hr⟩ (fun _ _ _ hI hmeets hstep => hI.step hmeets hstep) hC h
  show walFraming.readAll d.file.bytes = d.kept
  rw [hsound.bytes, walFraming.readAll_encodeAll hsound.fits]

/-- Two records, a crash that leaves the first and `extra` bytes of the second, and another
record. -/
def tornThenAppended (extra : ℕ) : List DiskEvent :=
  [.append 7 .begin (WAL.serializeBeginPayload 3), .append 7 .abort [], .crash (37 + extra),
    .append 8 .begin (WAL.serializeBeginPayload 4)]

theorem replay_after_crashes_tornThenAppended :
    ∃ d, walDisk.run (tornThenAppended 0) = some d ∧ d.kept.length = 2 ∧ d.file.replay.1 = d.kept := by
  obtain ⟨d, hd, hlen⟩ : ∃ d, walDisk.run (tornThenAppended 0) = some d ∧ d.kept.length = 2 := by
    decide +kernel
  exact ⟨d, hd, hlen, replay_after_crashes (by decide +kernel) hd⟩

/-- Five bytes of a record are left, and the record that is appended behind them is lost. -/
theorem torn_tail_hides_appended :
    ∃ d, walDisk.run (tornThenAppended 5) = some d ∧ d.file.replay.1 ≠ d.kept := by decide +kernel

end WALFile

end TransDb.Txn
