import TransDb.Core.Faults
import TransDb.Core.Framing
import TransDb.Core.Sealed
import TransDb.Raft.Log

/-!
# The file of the Raft log

The model of `RaftLog` (`src/raft/raft_log.cpp`) with its file: the bytes of the entries,
and the operations with every file operation able to fail.

* `serializeRaftEntry`, `parseEntry` — one entry; `entryFraming` says that they fit
  together, so that `load` reads back what was written.
* `DiskLog` — the entries in memory and the file; `append`, `appendEntries`.
* `append_spec`, `appendEntries_spec` — **with no failure the operations are those of
  `RaftLog`**, and the file follows memory.
* `reload_after_cut_iff` — **when a log that was cut by a crash keeps every entry.**
-/

namespace TransDb.Raft

open Option List

/-! ## Entries in a file -/

/-- An entry as it stands in the file, where any byte can be its type. -/
structure FileEntry where
  index : UInt64
  term : UInt64
  type : UInt8
  payload : Bytes
  deriving DecidableEq, Repr

/-- The values of the enumeration. -/
def RaftEntryType.toByte : RaftEntryType → UInt8
  | .txnBegin => 1
  | .txnWrite => 2
  | .txnDelete => 3
  | .txnPrepare => 4
  | .txnCommit => 5
  | .txnAbort => 6
  | .noop => 7
  | .txnPrepareBatch => 8

/-- The type of a byte. -/
def RaftEntryType.ofByte (b : UInt8) : Option RaftEntryType :=
  [.txnBegin, .txnWrite, .txnDelete, .txnPrepare, .txnCommit, .txnAbort, .noop,
    .txnPrepareBatch].find? fun t => t.toByte = b

theorem RaftEntryType.ofByte_toByte (t : RaftEntryType) : ofByte t.toByte = some t := by
  cases t <;> decide

namespace RaftLogEntry

/-- The entry as it is written. -/
def toFile (e : RaftLogEntry) : FileEntry :=
  ⟨UInt64.ofNat e.index, UInt64.ofNat e.term, e.type.toByte, e.payload⟩

/-- The file can hold the entry: its length can be written with 32 bits, and the numbers
with the 64 that they have. -/
def Storable (e : RaftLogEntry) : Prop :=
  e.index < 2 ^ 64 ∧ e.term < 2 ^ 64 ∧ e.payload.length < 2 ^ 32

instance (e : RaftLogEntry) : Decidable e.Storable := inferInstanceAs (Decidable (_ ∧ _ ∧ _))

end RaftLogEntry

/-- The entry as it is read. -/
def FileEntry.toLog (e : FileEntry) : Option RaftLogEntry :=
  (RaftEntryType.ofByte e.type).map fun t => ⟨e.index.toNat, e.term.toNat, t, e.payload⟩

theorem FileEntry.toLog_toFile {e : RaftLogEntry} (h : e.Storable) : e.toFile.toLog = some e := by
  obtain ⟨hindex, hterm, -⟩ := h
  simp [toLog, RaftLogEntry.toFile, RaftEntryType.ofByte_toByte,
    UInt64.toNat_ofNat_of_lt' hindex, UInt64.toNat_ofNat_of_lt' hterm]

/-- `SerializeRaftEntry`. -/
def serializeRaftEntry (e : FileEntry) : Bytes :=
  leBytes 8 e.index.toNat ++ (leBytes 8 e.term.toNat ++ (e.type ::
    (leBytes 4 e.payload.length ++ e.payload)))

/-- One turn of the loop of `Load`: an entry, and what follows it. -/
def parseEntry (data : Bytes) : Option (FileEntry × Bytes) :=
  if data.length < 21 then none
  else
    let len := headCount data
    let payload := (data.drop 21).take len
    if payload.length < len then none
    else some (⟨headWord0 data, headWord1 data, headByte data, payload⟩, data.drop (len + 21))

theorem serializeRaftEntry_eq (e : FileEntry) :
    serializeRaftEntry e = headed e.index e.term e.type e.payload.length e.payload := rfl

@[simp] theorem length_serializeRaftEntry (e : FileEntry) :
    (serializeRaftEntry e).length = e.payload.length + 21 := by
  rw [serializeRaftEntry_eq, length_headed]

variable {e : FileEntry} {es : List RaftLogEntry}

/-- **An entry is read as it was written.** -/
theorem parseEntry_serialize (h : e.payload.length < 2 ^ 32) (rest : Bytes) :
    parseEntry (serializeRaftEntry e ++ rest) = some (e, rest) := by
  rw [serializeRaftEntry_eq, headed_append]
  unfold parseEntry
  simp only [length_headed, headCount_headed, Nat.mod_eq_of_lt h, drop21_headed,
    headWord0_headed, headWord1_headed, headByte_headed, take_left' rfl]
  rw [if_neg (by omega), if_neg (by omega), ← headed_append, ← serializeRaftEntry_eq,
    drop_left' (length_serializeRaftEntry e)]

/-- **What is read was written.** -/
theorem parseEntry_sound {data rest : Bytes} (h : parseEntry data = some (e, rest)) :
    e.payload.length < 2 ^ 32 ∧ data = serializeRaftEntry e ++ rest := by
  unfold parseEntry at h
  simp only at h
  split_ifs at h with hlen hpay
  cases h
  have hcount : ((data.drop 21).take (headCount data)).length = headCount data := by
    rw [length_take] at hpay ⊢
    omega
  have hlt : headCount data < 256 ^ 4 := leNat_lt (by rw [length_take, length_drop]; omega)
  refine ⟨by rw [hcount]; exact hlt, ?_⟩
  rw [serializeRaftEntry_eq, hcount, headed_append, show headCount data + 21 = 21 + headCount data by
    omega, ← drop_drop, take_append_drop]
  exact eq_headed (by omega)

/-- The entries of a log file. -/
def entryFraming : Framing FileEntry where
  encode := serializeRaftEntry
  decode := parseEntry
  Fits e := e.payload.length < 2 ^ 32
  decode_encode := fun _ rest h => parseEntry_serialize h rest
  decode_sound := fun _ _ _ h => parseEntry_sound h
  decode_cut := Framing.cut_of_sound (fun _ rest h => parseEntry_serialize h rest)
    fun _ _ _ h => parseEntry_sound h
  decode_length := fun _ _ _ h => by
    rw [(parseEntry_sound h).2, List.length_append, length_serializeRaftEntry]
    omega

/-- `Load`: the entries that are read off a file. -/
def load (bytes : Bytes) : List FileEntry := entryFraming.readAll bytes

/-- The bytes of a file with these entries. -/
def logBytes (es : List RaftLogEntry) : Bytes := entryFraming.encodeAll (es.map RaftLogEntry.toFile)

theorem logBytes_append (es fs : List RaftLogEntry) :
    logBytes (es ++ fs) = logBytes es ++ logBytes fs := by
  rw [logBytes, map_append, Framing.encodeAll_append]
  rfl

theorem logBytes_singleton (e : RaftLogEntry) : logBytes [e] = serializeRaftEntry e.toFile := by
  rw [logBytes, map_singleton, Framing.encodeAll_cons, Framing.encodeAll_nil, append_nil]
  rfl

theorem fits_toFile (h : ∀ e ∈ es, e.Storable) :
    ∀ e ∈ es.map RaftLogEntry.toFile, entryFraming.Fits e := by
  intro x hx
  obtain ⟨e, he, rfl⟩ := mem_map.mp hx
  exact (h e he).2.2

/-- **What was written is loaded.** -/
theorem load_logBytes (h : ∀ e ∈ es, e.Storable) :
    load (logBytes es) = es.map RaftLogEntry.toFile :=
  entryFraming.readAll_encodeAll (fits_toFile h)

/-! ## Logs in memory and on disk -/

theorem contiguous_iff (es : List RaftLogEntry) :
    Contiguous es ↔ es.map RaftLogEntry.index = List.range' 1 es.length := by
  constructor
  · exact Contiguous.map_index
  · intro h i e he
    have hi : (es.map RaftLogEntry.index)[i]? = some e.index := by rw [getElem?_map, he]; rfl
    rw [h] at hi
    obtain ⟨hlt, hi⟩ := List.getElem?_eq_some_iff.mp hi
    rw [getElem_range' hlt] at hi
    omega

instance (es : List RaftLogEntry) : Decidable (Contiguous es) :=
  decidable_of_iff _ (contiguous_iff es).symm

/-- The log that the entries of a file make; `none` if there are unknown types among them
or their indices are not `1, 2, 3, …`, what is done with such a log is not modelled. -/
def RaftLog.ofFile (es : List FileEntry) : Option RaftLog :=
  match es.mapM FileEntry.toLog with
  | none => none
  | some l => if h : Contiguous l then some ⟨l, h⟩ else none

theorem mapM_toLog (h : ∀ e ∈ es, e.Storable) :
    (es.map RaftLogEntry.toFile).mapM FileEntry.toLog = some es := by
  induction es with
  | nil => rfl
  | cons e es ih =>
    have he := FileEntry.toLog_toFile (h e mem_cons_self)
    have hes := ih fun e' he' => h e' (mem_cons_of_mem e he')
    simp [he, hes]

theorem RaftLog.ofFile_toFile {l : RaftLog} (h : ∀ e ∈ l.entries, e.Storable) :
    RaftLog.ofFile (l.entries.map RaftLogEntry.toFile) = some l := by
  unfold RaftLog.ofFile
  rw [mapM_toLog h]
  simp only [l.contiguous, dif_pos]

theorem FileEntry.eq_toFile {r : RaftLogEntry} (h : e.toLog = some r) :
    r.toFile = e ∧ r.index < 2 ^ 64 ∧ r.term < 2 ^ 64 := by
  unfold toLog at h
  obtain ⟨t, ht, rfl⟩ := map_eq_some_iff.mp h
  have htype : t.toByte = e.type := by
    have := find?_some ht
    exact of_decide_eq_true this
  refine ⟨?_, e.index.toNat_lt, e.term.toNat_lt⟩
  simp [RaftLogEntry.toFile, htype]

theorem eq_map_toFile {es : List FileEntry} {l : List RaftLogEntry}
    (h : es.mapM FileEntry.toLog = some l) :
    l.map RaftLogEntry.toFile = es ∧ ∀ e ∈ l, e.index < 2 ^ 64 ∧ e.term < 2 ^ 64 := by
  induction es generalizing l with
  | nil =>
    obtain rfl : [] = l := some.inj h
    exact ⟨rfl, by simp⟩
  | cons e es ih =>
    rw [mapM_cons] at h
    obtain ⟨r, hr, h⟩ := bind_eq_some_iff.mp h
    obtain ⟨l', hl', h⟩ := bind_eq_some_iff.mp h
    obtain rfl : r :: l' = l := some.inj h
    obtain ⟨hfile, hbounds⟩ := FileEntry.eq_toFile hr
    obtain ⟨hrest, hall⟩ := ih hl'
    exact ⟨by rw [map_cons, hfile, hrest], forall_mem_cons.mpr ⟨hbounds, hall⟩⟩

/-- **When a log is what a file is loaded as.** -/
theorem RaftLog.ofFile_load_iff {bytes : Bytes} {l : RaftLog} :
    RaftLog.ofFile (load bytes) = some l ↔
      (∀ e ∈ l.entries, e.Storable) ∧
        ∃ tail, bytes = logBytes l.entries ++ tail ∧ parseEntry tail = none := by
  constructor
  · intro h
    unfold RaftLog.ofFile at h
    cases hm : (load bytes).mapM FileEntry.toLog with
    | none => simp [hm] at h
    | some es =>
      simp only [hm] at h
      split_ifs at h with hc
      obtain rfl := some.inj h
      obtain ⟨hfile, hbounds⟩ := eq_map_toFile hm
      obtain ⟨hfits, tail, hbytes, htail⟩ := entryFraming.readAll_eq_iff.mp hfile.symm
      refine ⟨fun e he => ?_, tail, hbytes, htail⟩
      obtain ⟨hindex, hterm⟩ := hbounds e he
      exact ⟨hindex, hterm, hfits e.toFile (mem_map_of_mem he)⟩
  · rintro ⟨hstorable, tail, hbytes, htail⟩
    have hload : load bytes = l.entries.map RaftLogEntry.toFile :=
      entryFraming.readAll_eq_iff.mpr ⟨fits_toFile hstorable, tail, hbytes, htail⟩
    rw [hload, RaftLog.ofFile_toFile hstorable]

/-- The entries in memory, and the file. -/
structure DiskLog where
  log : RaftLog
  file : AppendFile

/-! ### The operations on the file -/

/-- `EnsureAppendFileOpen`. -/
def ensureAppendFileOpen (f : AppendFile) : Faulty (Bool × AppendFile) := do
  if f.isOpen then return (true, f)
  let f ← f.openStream
  if f.isOpen = false then return (false, f)
  if f.canSync then return (true, f)
  let f ← f.openDescriptor
  return (true, f)

/-- `SyncFileLocked`. -/
def syncFile (f : AppendFile) : Faulty (Bool × AppendFile) := do
  if f.isOpen = false then return (false, f)
  let f ← f.flush
  if f.good = false then return (false, f)
  if f.canSync = false then return (false, f)
  f.fsync

/-- `AppendEntryToFile`. -/
def appendEntryToFile (f : AppendFile) (e : RaftLogEntry) : Faulty (Bool × AppendFile) := do
  let (ok, f) ← ensureAppendFileOpen f
  if ok = false then return (false, f)
  let f ← f.write (serializeRaftEntry e.toFile)
  return (f.good, f)

/-- The loop that writes the temporary file, which ends at the first failure. -/
def writeTemporary : List RaftLogEntry → Faulty Bool
  | [] => return true
  | _ :: es => do
    match ← nextOutcome with
    | .fail _ => return false
    | .ok => writeTemporary es

/-- The temporary file takes the place of the log file.  If that fails, the log file is
removed and it is tried once more. -/
def renameTemporary (f g : AppendFile) : Faulty (Bool × AppendFile) := do
  match ← nextOutcome with
  | .ok => return (true, g)
  | .fail _ =>
    let removed ← nextOutcome
    match ← nextOutcome with
    | .ok => return (true, g)
    | .fail _ => return (false, if removed = .ok then AppendFile.closed [] else f)

/-- What the temporary file holds in the end; whether it was flushed and synced is not
looked at. -/
def finishTemporary (content : Bytes) : Faulty AppendFile := do
  let flushed ← nextOutcome
  let content := match flushed with
    | .ok => content
    | .fail n => content.take n
  match ← nextOutcome with
  | .fail _ => return { AppendFile.closed [] with pending := content }
  | .ok =>
    match ← nextOutcome with
    | .fail _ => return { AppendFile.closed [] with pending := content }
    | .ok => return AppendFile.closed content

/-- Close the file; whether the last flush succeeds is not looked at. -/
def closeFile (f : AppendFile) : Faulty AppendFile := do
  if f.isOpen then
    let f ← f.flush
    return f.close
  else return f.close

/-- `RewriteFileFromMemory`. -/
def rewriteFileFromMemory (f : AppendFile) (es : List RaftLogEntry) :
    Faulty (Bool × AppendFile) := do
  let f ← closeFile f
  match ← nextOutcome with
  | .fail _ => return (false, f)
  | .ok =>
    if (← writeTemporary es) = false then return (false, f)
    let g ← finishTemporary (logBytes es)
    let (ok, f) ← renameTemporary f g
    if ok = false then return (false, f)
    ensureAppendFileOpen f

namespace DiskLog

/-- The constructor: the file is loaded and opened. -/
def construct (bytes : Bytes) : Faulty (Option DiskLog) := do
  match RaftLog.ofFile (load bytes) with
  | none => return none
  | some l =>
    let (_, f) ← ensureAppendFileOpen (AppendFile.closed bytes)
    return some ⟨l, f⟩

/-- `Append`: the new log, and the index of the entry or `0`. -/
def append (d : DiskLog) (term : ℕ) (type : RaftEntryType) (payload : Bytes) :
    Faulty (DiskLog × ℕ) := do
  let e : RaftLogEntry := ⟨d.log.expect, term, type, payload⟩
  let (ok, f) ← appendEntryToFile d.file e
  if ok = false then return (⟨d.log, f⟩, 0)
  let (ok, f) ← syncFile f
  if ok = false then return (⟨d.log.pushNext e, f⟩, 0)
  return (⟨d.log.pushNext e, f⟩, e.index)

/-- The end of a turn of the loop of `AppendEntries`: an entry that is next goes to the
file, unless that will be written anew, and to memory; one that cannot be written is
passed over. -/
def pushEntry (d : DiskLog) (needsRewrite : Bool) (e : RaftLogEntry) :
    Faulty (DiskLog × Bool) := do
  if e.index ≠ d.log.expect then return (d, needsRewrite)
  if needsRewrite then return (⟨d.log.pushNext e, d.file⟩, true)
  let (ok, f) ← appendEntryToFile d.file e
  if ok = false then return (⟨d.log, f⟩, false)
  return (⟨d.log.pushNext e, f⟩, false)

/-- The entry does not agree with the one that has its index. -/
def conflicts (l : RaftLog) (e : RaftLogEntry) : Bool :=
  l.entries ≠ [] ∧ e.index ≤ l.lastIndex ∧
    (l.entries[e.index - l.firstIndex]?.map RaftLogEntry.term).getD 0 ≠ e.term

/-- A turn of the loop of `AppendEntries`. -/
def mergeEntry (state : DiskLog × Bool) (e : RaftLogEntry) : Faulty (DiskLog × Bool) :=
  let (d, needsRewrite) := state
  if d.log.entries ≠ [] ∧ e.index ≤ d.log.lastIndex then
    if conflicts d.log e then
      pushEntry ⟨d.log.eraseFrom (e.index - d.log.firstIndex), d.file⟩ true e
    else return (d, needsRewrite)
  else pushEntry d needsRewrite e

/-- `AppendEntries`. -/
def appendEntries (d : DiskLog) (es : List RaftLogEntry) : Faulty DiskLog := do
  let (d, needsRewrite) ← es.foldlM mergeEntry (d, false)
  if needsRewrite then
    let (_, f) ← rewriteFileFromMemory d.file d.log.entries
    return ⟨d.log, f⟩
  else
    let (_, f) ← syncFile d.file
    return ⟨d.log, f⟩

end DiskLog

/-! ### What they do if nothing fails -/

section Reliable

variable {f : AppendFile} {bs : Bytes}

theorem ensureAppendFileOpen_spec (h : f.Holds bs) :
    Reliably (ensureAppendFileOpen f) fun r =>
      r.1 = true ∧ r.2.Holds bs ∧ r.2.isOpen = true ∧ r.2.pending = f.pending ∧
        r.2.durable = f.durable := by
  unfold ensureAppendFileOpen
  cases hopen : f.isOpen with
  | true => exact Reliably.pure ⟨rfl, h, hopen, rfl, rfl⟩
  | false =>
    have hbytes : f.durable ++ f.pending = bs := h.bytes
    refine AppendFile.openStream_spec.bind ?_
    rintro f' rfl
    cases hsync : f.canSync with
    | true =>
      exact Reliably.pure
        ⟨rfl, ⟨hbytes, fun _ => ⟨rfl, rfl⟩, fun hf => (by cases hf)⟩, rfl, rfl, rfl⟩
    | false =>
      refine AppendFile.openDescriptor_spec.bind ?_
      rintro f' rfl
      exact Reliably.pure
        ⟨rfl, ⟨hbytes, fun _ => ⟨rfl, rfl⟩, fun hf => (by cases hf)⟩, rfl, rfl, rfl⟩

/-- A file that is open can be synced, and one that is closed has been. -/
theorem syncFile_spec (h : f.Holds bs) :
    Reliably (syncFile f) fun r =>
      (f.isOpen = true → r.1 = true) ∧ r.2.Holds bs ∧ r.2.pending = [] := by
  unfold syncFile
  cases hopen : f.isOpen with
  | false => exact Reliably.pure ⟨fun hf => (by cases hf), h, h.closed hopen⟩
  | true =>
    obtain ⟨hgood, hsync⟩ := h.usable hopen
    refine AppendFile.flush_spec.bind ?_
    rintro f' rfl
    simp only [hgood, hsync]
    refine AppendFile.fsync_spec.mono ?_
    rintro r rfl
    refine ⟨fun _ => rfl, ⟨?_, fun _ => ⟨hgood, hsync⟩, fun _ => rfl⟩, rfl⟩
    rw [← h.bytes, AppendFile.bytes, append_nil]
    rfl

theorem appendEntryToFile_spec (h : f.Holds bs) (e : RaftLogEntry) :
    Reliably (appendEntryToFile f e) fun r =>
      r.1 = true ∧ r.2.Holds (bs ++ logBytes [e]) ∧ r.2.isOpen = true ∧
        r.2.durable = f.durable := by
  unfold appendEntryToFile
  refine (ensureAppendFileOpen_spec h).bind ?_
  rintro ⟨ok, f'⟩ ⟨rfl, hf, hopen, -, hdurable⟩
  obtain ⟨hgood, hsync⟩ := hf.usable hopen
  refine (AppendFile.write_spec hgood _).bind ?_
  rintro f'' rfl
  refine Reliably.pure ⟨hgood, ⟨?_, fun _ => ⟨hgood, hsync⟩, ?_⟩, hopen, hdurable⟩
  · rw [← hf.bytes, AppendFile.bytes, AppendFile.bytes, append_assoc, logBytes_singleton]
  · intro hclosed
    exact absurd (hopen.symm.trans hclosed) (by decide)

theorem writeTemporary_spec (es : List RaftLogEntry) :
    Reliably (writeTemporary es) fun ok => ok = true := by
  induction es with
  | nil => exact Reliably.pure rfl
  | cons e es ih => exact Reliably.next_bind ih

theorem rewriteFileFromMemory_spec (f : AppendFile) (es : List RaftLogEntry) :
    Reliably (rewriteFileFromMemory f es) fun r =>
      r.2.Holds (logBytes es) ∧ r.2.pending = [] := by
  have hclose : Reliably (closeFile f) fun f' => f' = f.close := by
    unfold closeFile
    split_ifs
    · exact AppendFile.flush_spec.bind fun f' hf' => Reliably.pure (by rw [hf'])
    · exact Reliably.pure rfl
  have hfinish : Reliably (finishTemporary (logBytes es)) fun g => g = AppendFile.closed (logBytes es) :=
    Reliably.next_bind (Reliably.next_bind (Reliably.next_bind (Reliably.pure rfl)))
  have hrename : ∀ f g, Reliably (renameTemporary f g) fun r => r = (true, g) :=
    fun f g => Reliably.next_bind (Reliably.pure rfl)
  unfold rewriteFileFromMemory
  refine hclose.bind ?_
  rintro f' rfl
  refine Reliably.next_bind ((writeTemporary_spec es).bind ?_)
  rintro ok rfl
  refine hfinish.bind ?_
  rintro g rfl
  refine (hrename _ _).bind ?_
  rintro r rfl
  -- the new file is closed and synced; opening it leaves its contents alone
  refine (ensureAppendFileOpen_spec (AppendFile.holds_closed _)).mono ?_
  rintro r ⟨-, hholds, -, hpending, -⟩
  exact ⟨hholds, hpending⟩

end Reliable

namespace DiskLog

/-- The log holds `K` and some entries behind it, which stand behind the bytes `B` in the
file. -/
def Extends (B : Bytes) (K : List RaftLogEntry) (d : DiskLog) : Prop :=
  ∃ new, d.log.entries = K ++ new ∧ d.file.Holds (B ++ logBytes new)

variable {B : Bytes} {K : List RaftLogEntry} {d : DiskLog}

theorem Extends.push (h : Extends B K d) {e : RaftLogEntry} (he : e.index = d.log.expect)
    {f : AppendFile} (hf : ∀ bs, d.file.Holds bs → f.Holds (bs ++ logBytes [e])) :
    Extends B K ⟨d.log.pushNext e, f⟩ := by
  obtain ⟨new, hnew, hfile⟩ := h
  refine ⟨new ++ [e], ?_, ?_⟩
  · show (d.log.pushNext e).entries = _
    rw [d.log.pushNext_of_eq (by rw [he, RaftLog.expect_eq]), hnew, append_assoc]
  · show f.Holds _
    rw [logBytes_append, ← append_assoc]
    exact hf _ hfile

/-- **`Append` without a failure**: the entry is in memory and in the synced file. -/
theorem append_spec (h : Extends B K d) (term : ℕ) (type : RaftEntryType) (payload : Bytes) :
    Reliably (d.append term type payload) fun r =>
      (r.1.log, r.2) = d.log.append term type payload ∧ Extends B K r.1 ∧
        r.1.file.pending = [] := by
  obtain ⟨new, hnew, hfile⟩ := id h
  unfold append
  refine (appendEntryToFile_spec hfile _).bind ?_
  rintro ⟨ok, f⟩ ⟨rfl, hf, hopen, -⟩
  refine (syncFile_spec hf).bind ?_
  rintro ⟨ok, f'⟩ ⟨hok, hf', hpending⟩
  obtain rfl : ok = true := hok hopen
  refine Reliably.pure ⟨rfl, ?_, hpending⟩
  refine h.push rfl fun bs hbs => ?_
  have hsame : bs = B ++ logBytes new := hbs.bytes.symm.trans hfile.bytes
  exact hsame ▸ hf'

/-- What holds between two turns of the loop of `AppendEntries`. -/
structure Merging (B : Bytes) (K : List RaftLogEntry) (d : DiskLog) (needsRewrite : Bool) : Prop where
  holds : ∃ bs, d.file.Holds bs
  follows : needsRewrite = false → Extends B K d

theorem pushEntry_spec {needsRewrite : Bool} (h : Merging B K d needsRewrite) (e : RaftLogEntry) :
    Reliably (d.pushEntry needsRewrite e) fun p =>
      p.1.log = d.log.pushNext e ∧ p.2 = needsRewrite ∧ Merging B K p.1 p.2 ∧
        p.1.file.durable = d.file.durable ∧ (p.2 = true → p.1.file = d.file) := by
  obtain ⟨bs, hbs⟩ := h.holds
  unfold pushEntry
  by_cases he : e.index = d.log.expect
  · rw [if_neg (not_not.mpr he)]
    cases needsRewrite with
    | true =>
      exact Reliably.pure ⟨rfl, rfl, ⟨⟨bs, hbs⟩, fun hf => (by cases hf)⟩, rfl, fun _ => rfl⟩
    | false =>
      refine (appendEntryToFile_spec hbs e).bind ?_
      rintro ⟨ok, f⟩ ⟨rfl, hf, -, hdurable⟩
      refine Reliably.pure ⟨rfl, rfl, ⟨⟨_, hf⟩, fun _ => ?_⟩, hdurable, fun hf => (by cases hf)⟩
      refine (h.follows rfl).push he fun bs' hbs' => ?_
      have hsame : bs' = bs := hbs'.bytes.symm.trans hbs.bytes
      exact hsame ▸ hf
  · rw [if_pos he]
    have hsame : d.log.pushNext e = d.log := by
      unfold RaftLog.pushNext
      rw [dif_neg he]
    exact Reliably.pure ⟨hsame.symm, rfl, h, rfl, fun _ => rfl⟩

theorem mergeEntry_spec {needsRewrite : Bool} (h : Merging B K d needsRewrite) (e : RaftLogEntry) :
    Reliably (mergeEntry (d, needsRewrite) e) fun p =>
      p.1.log = d.log.mergeEntry e ∧ p.2 = (needsRewrite || conflicts d.log e) ∧
        Merging B K p.1 p.2 ∧ p.1.file.durable = d.file.durable ∧
        (p.2 = true → p.1.file = d.file) := by
  unfold mergeEntry RaftLog.mergeEntry
  by_cases hin : d.log.entries ≠ [] ∧ e.index ≤ d.log.lastIndex
  · simp only [if_pos hin]
    by_cases hterm : (d.log.entries[e.index - d.log.firstIndex]?.map RaftLogEntry.term).getD 0 ≠ e.term
    · have hc : conflicts d.log e = true := decide_eq_true ⟨hin.1, hin.2, hterm⟩
      simp only [hc, if_true, Bool.or_true, if_pos hterm]
      exact (pushEntry_spec (d := ⟨d.log.eraseFrom _, d.file⟩)
        ⟨h.holds, fun hf => (by cases hf)⟩ e).mono fun p hp => hp
    · have hc : conflicts d.log e = false := decide_eq_false fun hcon => hterm hcon.2.2
      simp only [hc, if_neg hterm, Bool.or_false]
      exact Reliably.pure ⟨rfl, rfl, h, rfl, fun _ => rfl⟩
  · have hc : conflicts d.log e = false := decide_eq_false fun hcon => hin ⟨hcon.1, hcon.2.1⟩
    simp only [if_neg hin, hc, Bool.or_false]
    exact pushEntry_spec h e

/-- Whether the file has to be written anew after these entries. -/
def rewrites (l : RaftLog) : List RaftLogEntry → Bool
  | [] => false
  | e :: es => conflicts l e || rewrites (l.mergeEntry e) es

theorem merge_spec (es : List RaftLogEntry) :
    ∀ {d : DiskLog} {needsRewrite : Bool}, Merging B K d needsRewrite →
      Reliably (es.foldlM mergeEntry (d, needsRewrite)) fun p =>
        p.1.log = d.log.appendEntries es ∧ p.2 = (needsRewrite || rewrites d.log es) ∧
          Merging B K p.1 p.2 := by
  induction es with
  | nil =>
    intro d needsRewrite h
    exact Reliably.pure ⟨rfl, by simp [rewrites], h⟩
  | cons e es ih =>
    intro d needsRewrite h
    rw [foldlM_cons]
    refine (mergeEntry_spec h e).bind ?_
    rintro ⟨d', r'⟩ ⟨hlog, hr, h', -⟩
    refine (ih h').mono ?_
    rintro p ⟨hplog, hpr, hp⟩
    simp only at hlog hr hplog hpr
    refine ⟨by rw [hplog, hlog]; rfl, ?_, hp⟩
    rw [hpr, hr, hlog, rewrites, Bool.or_assoc]

/-- **`AppendEntries` without a failure**: memory is merged, and the synced file follows
it or is written anew. -/
theorem appendEntries_spec (h : Extends B K d) (es : List RaftLogEntry) :
    Reliably (d.appendEntries es) fun d' =>
      d'.log = d.log.appendEntries es ∧ d'.file.pending = [] ∧
        if rewrites d.log es then d'.file.Holds (logBytes d'.log.entries) else Extends B K d' := by
  obtain ⟨new, -, hfile⟩ := id h
  unfold appendEntries
  refine (merge_spec es ⟨⟨_, hfile⟩, fun _ => h⟩).bind ?_
  rintro ⟨d', r⟩ ⟨hlog, hr, h'⟩
  simp only [Bool.false_or] at hlog hr h'
  subst hr
  cases hrw : rewrites d.log es with
  | true =>
    refine (rewriteFileFromMemory_spec d'.file d'.log.entries).bind ?_
    rintro ⟨ok, f⟩ ⟨hf, hpending⟩
    exact Reliably.pure ⟨hlog, hpending, hf⟩
  | false =>
    obtain ⟨new', hnew', hfile'⟩ := h'.follows hrw
    refine (syncFile_spec hfile').bind ?_
    rintro ⟨ok, f⟩ ⟨-, hf, hpending⟩
    exact Reliably.pure ⟨hlog, hpending, new', hnew', hf⟩

end DiskLog

/-! ## Logs that were cut -/

/-- A call of one of the two operations that put entries in. -/
inductive LogCall where
  | append (term : ℕ) (type : RaftEntryType) (payload : Bytes)
  | appendEntries (es : List RaftLogEntry)

/-- What a call does in memory. -/
def RaftLog.call (l : RaftLog) : LogCall → RaftLog
  | .append term type payload => (l.append term type payload).1
  | .appendEntries es => l.appendEntries es

/-- The entries of a log whose bytes are all within the first `n` of its file. -/
def RaftLog.contained (l : RaftLog) (n : ℕ) : RaftLog :=
  l.eraseFrom (entryFraming.contained n (l.entries.map RaftLogEntry.toFile)).length

theorem RaftLog.map_contained (l : RaftLog) (n : ℕ) :
    (l.contained n).entries.map RaftLogEntry.toFile =
      entryFraming.contained n (l.entries.map RaftLogEntry.toFile) := by
  show (l.entries.take _).map RaftLogEntry.toFile = _
  rw [map_take]
  exact (prefix_iff_eq_take.mp (entryFraming.contained_prefix n _)).symm

namespace DiskLog

/-- What a call does to memory and the file. -/
def call (d : DiskLog) : LogCall → Faulty DiskLog
  | .append term type payload => do
    let (d, _) ← d.append term type payload
    return d
  | .appendEntries es => d.appendEntries es

/-- Whether one of the calls writes the file anew. -/
def rewritesIn (l : RaftLog) : List LogCall → Bool
  | [] => false
  | .append term type payload :: calls => rewritesIn (l.call (.append term type payload)) calls
  | .appendEntries es :: calls => rewrites l es || rewritesIn (l.call (.appendEntries es)) calls

/-- A log is constructed from a file, and used. -/
def openAndCall (bytes : Bytes) (calls : List LogCall) : Faulty (Option DiskLog) := do
  match ← construct bytes with
  | none => return none
  | some d =>
    let d ← calls.foldlM call d
    return some d

/-- What the file of a log is like after some calls: it has been written anew, or has
grown. -/
def Kept (B : Bytes) (K : List RaftLogEntry) (d : DiskLog) (rewritten : Bool) : Prop :=
  if rewritten then d.file.Holds (logBytes d.log.entries) else Extends B K d

theorem Extends.self (h : d.file.Holds B) : Extends B d.log.entries d :=
  ⟨[], by simp, by simpa [logBytes] using h⟩

theorem Extends.holds (h : Extends (logBytes K) K d) : d.file.Holds (logBytes d.log.entries) := by
  obtain ⟨new, hnew, hfile⟩ := h
  rwa [hnew, logBytes_append]

theorem calls_spec (calls : List LogCall) :
    ∀ {d : DiskLog} {rewritten : Bool}, Kept B K d rewritten →
      Reliably (calls.foldlM call d) fun d' =>
        d'.log = calls.foldl RaftLog.call d.log ∧ Kept B K d' (rewritten || rewritesIn d.log calls) := by
  induction calls with
  | nil =>
    intro d rewritten h
    exact Reliably.pure ⟨rfl, by simpa [rewritesIn] using h⟩
  | cons c calls ih =>
    intro d rewritten h
    -- a file that was written anew is one that has grown, from its own contents
    have hext : ∃ B' K', Extends B' K' d ∧ (∀ d', Extends B' K' d' → Kept B K d' rewritten) := by
      cases rewritten with
      | true =>
        have h : d.file.Holds (logBytes d.log.entries) := h
        exact ⟨_, _, Extends.self h, fun d' hd' => hd'.holds⟩
      | false => exact ⟨B, K, h, fun d' hd' => hd'⟩
    obtain ⟨B', K', hd, hback⟩ := hext
    rw [foldlM_cons]
    cases c with
    | append term type payload =>
      refine Reliably.bind (P := fun d' => d'.log = d.log.call (.append term type payload) ∧
        Kept B K d' rewritten) ?_ ?_
      · refine (append_spec hd term type payload).bind ?_
        rintro ⟨d', i⟩ ⟨hlog, hd', -⟩
        exact Reliably.pure ⟨congrArg Prod.fst hlog, hback d' hd'⟩
      · rintro d' ⟨hlog, hd'⟩
        refine (ih hd').mono ?_
        rintro d'' ⟨hlog'', hd''⟩
        rw [hlog] at hlog'' hd''
        exact ⟨hlog'', hd''⟩
    | appendEntries es =>
      refine Reliably.bind (P := fun d' => d'.log = d.log.call (.appendEntries es) ∧
        Kept B K d' (rewritten || rewrites d.log es)) ?_ ?_
      · refine (appendEntries_spec hd es).mono ?_
        rintro d' ⟨hlog, -, hd'⟩
        refine ⟨hlog, ?_⟩
        cases hrw : rewrites d.log es with
        | true =>
          rw [hrw] at hd'
          rw [Bool.or_true]
          exact hd'
        | false =>
          rw [hrw] at hd'
          rw [Bool.or_false]
          exact hback d' hd'
      · rintro d' ⟨hlog, hd'⟩
        refine (ih hd').mono ?_
        rintro d'' ⟨hlog'', hd''⟩
        rw [hlog] at hlog'' hd''
        refine ⟨hlog'', ?_⟩
        rw [rewritesIn, ← Bool.or_assoc]
        exact hd''

theorem construct_spec {bytes : Bytes} {l : RaftLog} (h : RaftLog.ofFile (load bytes) = some l) :
    Reliably (construct bytes) fun r =>
      ∃ d, r = some d ∧ d.log = l ∧ d.file.Holds bytes ∧ d.file.pending = [] := by
  unfold construct
  rw [h]
  refine (ensureAppendFileOpen_spec (AppendFile.holds_closed _)).bind ?_
  rintro ⟨ok, f⟩ ⟨-, hf, -, hpending, -⟩
  exact Reliably.pure ⟨_, rfl, rfl, hf, hpending⟩

/-- **A file that was cut** holds the entries within it. -/
theorem ofFile_load_take {l : RaftLog} (hl : ∀ e ∈ l.entries, e.Storable) (n : ℕ) :
    RaftLog.ofFile (load ((logBytes l.entries).take n)) = some (l.contained n) := by
  have hload : load ((logBytes l.entries).take n) =
      (l.contained n).entries.map RaftLogEntry.toFile := by
    rw [l.map_contained n]
    exact entryFraming.readAll_take (fits_toFile hl) n
  rw [hload]
  exact RaftLog.ofFile_toFile fun e he => hl e (mem_of_mem_take he)

/-- **When a log that was cut by a crash keeps every entry**: if no file operation fails,
the log goes on from the entries that survived, in memory as a `RaftLog` does; and a log
that is constructed from its file is the same, if and only if the file can hold the entries
and was written anew since, or what the cut has left of another entry does no harm to the
new ones. -/
theorem reload_after_cut_iff {l : RaftLog} (hl : ∀ e ∈ l.entries, e.Storable) (n : ℕ)
    (calls : List LogCall) {io : List IoOutcome} (hio : AllOk io) :
    ∃ d, ((openAndCall ((logBytes l.entries).take n) calls).run io).1 = some d ∧
      d.log = calls.foldl RaftLog.call (l.contained n) ∧
      (rewritesIn (l.contained n) calls = false → (l.contained n).entries <+: d.log.entries) ∧
      (RaftLog.ofFile (load d.file.bytes) = some d.log ↔
        (∀ e ∈ d.log.entries, e.Storable) ∧
          (rewritesIn (l.contained n) calls = true ∨
            entryFraming.Harmless (entryFraming.torn n (l.entries.map RaftLogEntry.toFile))
              ((d.log.entries.drop (l.contained n).entries.length).map RaftLogEntry.toFile))) := by
  have hrun : Reliably (openAndCall ((logBytes l.entries).take n) calls) fun r =>
      ∃ d, r = some d ∧ d.log = calls.foldl RaftLog.call (l.contained n) ∧
        Kept ((logBytes l.entries).take n) (l.contained n).entries d
          (rewritesIn (l.contained n) calls) := by
    unfold openAndCall
    refine (construct_spec (ofFile_load_take hl n)).bind ?_
    rintro r ⟨d, rfl, hlog, hfile, -⟩
    have hkept : Kept ((logBytes l.entries).take n) (l.contained n).entries d false :=
      hlog ▸ Extends.self hfile
    refine (calls_spec calls hkept).bind ?_
    rintro d' ⟨hlog', hkept'⟩
    rw [hlog, Bool.false_or] at hkept'
    rw [hlog] at hlog'
    exact Reliably.pure ⟨d', rfl, hlog', hkept'⟩
  obtain ⟨d, hd, hlog, hkept⟩ := (hrun io hio).1
  refine ⟨d, hd, hlog, ?_, ?_⟩
  · intro hrw
    rw [hrw] at hkept
    obtain ⟨new, hnew, -⟩ := hkept
    exact ⟨new, hnew.symm⟩
  rw [RaftLog.ofFile_load_iff]
  refine and_congr_right fun _ => ?_
  cases hrw : rewritesIn (l.contained n) calls with
  | true =>
    rw [hrw] at hkept
    have hbytes : d.file.bytes = logBytes d.log.entries := AppendFile.Holds.bytes hkept
    exact iff_of_true ⟨[], by rw [hbytes, append_nil], rfl⟩ (.inl rfl)
  | false =>
    rw [hrw] at hkept
    obtain ⟨new, hnew, hfile⟩ := hkept
    have hcut : (logBytes l.entries).take n = logBytes (l.contained n).entries ++
        entryFraming.torn n (l.entries.map RaftLogEntry.toFile) := by
      rw [logBytes, logBytes, l.map_contained n]
      exact entryFraming.take_eq_torn n _
    rw [hfile.bytes, hcut, hnew, logBytes_append, drop_left' rfl]
    simp only [Bool.false_eq_true, false_or, Framing.Harmless, append_assoc,
      append_cancel_left_eq]
    rfl

/-- A log of two entries. -/
def twoEntries : RaftLog := ⟨[⟨1, 1, .noop, []⟩, ⟨2, 1, .txnCommit, [7]⟩], by decide⟩

/-- The second entry is lost as a whole, and another one takes its place. -/
theorem reload_after_cut_twoEntries :
    ∃ d, ((openAndCall ((logBytes twoEntries.entries).take 21) [.append 2 .noop []]).run []).1 = some d ∧
      d.log.entries = [⟨1, 1, .noop, []⟩, ⟨2, 2, .noop, []⟩] ∧
      RaftLog.ofFile (load d.file.bytes) = some d.log := by
  have hio : AllOk ([] : List IoOutcome) := by decide
  obtain ⟨d, hd, hlog, -, hiff⟩ := reload_after_cut_iff (l := twoEntries) (by decide) 21
    [.append 2 .noop []] hio
  have hentries : d.log.entries = [⟨1, 1, .noop, []⟩, ⟨2, 2, .noop, []⟩] := by
    rw [hlog]
    decide +kernel
  refine ⟨d, hd, hentries, hiff.mpr ⟨?_, .inr ⟨[], ?_, rfl⟩⟩⟩
  · rw [hentries]
    decide
  · rw [hentries]
    decide +kernel

/-- Five bytes of the second entry are left.  The entry that is appended behind them is
lost, and one that nobody wrote is loaded in its place. -/
theorem torn_tail_hides_entry :
    ∃ (l : RaftLog) (n : ℕ) (e : RaftLogEntry) (d : DiskLog),
      ((openAndCall ((logBytes l.entries).take n) [.append e.term e.type e.payload]).run []).1 =
          some d ∧
        d.log.entries = (l.contained n).entries ++ [e] ∧
        load d.file.bytes ≠ d.log.entries.map RaftLogEntry.toFile := by
  refine ⟨twoEntries, 26, ⟨2, 2, .noop, []⟩, ?_⟩
  decide +kernel

end DiskLog

end TransDb.Raft
