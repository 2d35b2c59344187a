import TransDb.Core.Bytes
import TransDb.Core.SortedMap

/-!
# The multi-version store

The model of `src/storage`: the key encoding, `MVCCStore` and `MVCCIterator`.
RocksDB is a map in the byte order of its keys, and an iterator is the list of
entries from its position on, as they were when it was created.

* `encodeKey`, `decodeKey` — table, primary key and inverted timestamp as one
  byte string; `decodeKey_encodeKey` and `encodeKey_of_decodeKey` are inverse, and
  `encodeKey_lt` says that newer versions come first.
* `get_eq_some` — **a point read that finds a row finds the newest version** at or
  below its snapshot.  (A read that finds nothing proves less: a longer key whose
  bytes sort between two versions stops the loop.)
* `mem_scan` — every row of a scan is a version of the store.
-/

namespace TransDb.Storage

open List

abbrev TableId := UInt32

abbrev Timestamp := UInt64

/-! ## Keys -/

/-- Newer versions first. -/
def invertTimestamp (writeTs : Timestamp) : Timestamp := ~~~writeTs

/-- `EncodeKey`. -/
def encodeKey (tableId : TableId) (primaryKey : Bytes) (writeTs : Timestamp) : Bytes :=
  beBytes 4 tableId.toNat ++ (primaryKey ++ beBytes 8 (invertTimestamp writeTs).toNat)

/-- The smallest key of a row: that of the timestamp `UINT64_MAX`. -/
def encodeKeyPrefixNewest (tableId : TableId) (primaryKey : Bytes) : Bytes :=
  encodeKey tableId primaryKey (-1)

/-- `DecodeKey`. -/
def decodeKey (encoded : Bytes) : Option (TableId × Bytes × Timestamp) :=
  if encoded.length < 4 + 8 then none
  else
    let pkLen := encoded.length - 4 - 8
    let inv := UInt64.ofNat (beNat (encoded.drop (4 + pkLen)))
    some (UInt32.ofNat (beNat (encoded.take 4)), (encoded.drop 4).take pkLen, invertTimestamp inv)

theorem invertTimestamp_invertTimestamp (ts : Timestamp) :
    invertTimestamp (invertTimestamp ts) = ts := by
  simp [invertTimestamp]

theorem toNat_invertTimestamp (ts : Timestamp) :
    (invertTimestamp ts).toNat = 2 ^ 64 - 1 - ts.toNat := by
  simp [invertTimestamp, UInt64.toNat_not, UInt64.size]

theorem decodeKey_encodeKey (tableId : TableId) (primaryKey : Bytes) (writeTs : Timestamp) :
    decodeKey (encodeKey tableId primaryKey writeTs) = some (tableId, primaryKey, writeTs) := by
  have hlen : (encodeKey tableId primaryKey writeTs).length = 4 + primaryKey.length + 8 := by
    simp [encodeKey]
    omega
  have htake : (encodeKey tableId primaryKey writeTs).take 4 = beBytes 4 tableId.toNat :=
    take_left' (length_beBytes _ _)
  have hdrop : (encodeKey tableId primaryKey writeTs).drop 4 =
      primaryKey ++ beBytes 8 (invertTimestamp writeTs).toNat :=
    drop_left' (length_beBytes _ _)
  have htail : (encodeKey tableId primaryKey writeTs).drop (4 + primaryKey.length) =
      beBytes 8 (invertTimestamp writeTs).toNat := by
    rw [← drop_drop, hdrop, drop_left' rfl]
  have hpk : 4 + primaryKey.length + 8 - 4 - 8 = primaryKey.length := by omega
  have ht : beNat (beBytes 4 tableId.toNat) = tableId.toNat := by
    rw [beNat_beBytes]
    exact Nat.mod_eq_of_lt tableId.toNat_lt
  have hw : beNat (beBytes 8 (invertTimestamp writeTs).toNat) = (invertTimestamp writeTs).toNat := by
    rw [beNat_beBytes]
    exact Nat.mod_eq_of_lt (invertTimestamp writeTs).toNat_lt
  unfold decodeKey
  rw [if_neg (by omega)]
  simp only [hlen, hpk, htake, hdrop, htail, ht, hw, take_left' rfl, UInt32.ofNat_toNat,
    UInt64.ofNat_toNat, invertTimestamp_invertTimestamp]

theorem encodeKey_of_decodeKey {encoded primaryKey : Bytes} {tableId : TableId}
    {writeTs : Timestamp} (h : decodeKey encoded = some (tableId, primaryKey, writeTs)) :
    encodeKey tableId primaryKey writeTs = encoded := by
  unfold decodeKey at h
  split_ifs at h with hlen
  simp only [Option.some.injEq, Prod.mk.injEq] at h
  obtain ⟨rfl, rfl, rfl⟩ := h
  have h4 : (encoded.take 4).length = 4 := length_take_of_le (by omega)
  have h8 : (encoded.drop (4 + (encoded.length - 4 - 8))).length = 8 := by
    rw [length_drop]
    omega
  rw [encodeKey, invertTimestamp_invertTimestamp, UInt32.toNat_ofNat_of_lt' (beNat_lt h4),
    UInt64.toNat_ofNat_of_lt' (beNat_lt h8), beBytes_beNat h4, beBytes_beNat h8, ← drop_drop, take_append_drop,
    take_append_drop]

theorem encodeKey_inj {t t' : TableId} {k k' : Bytes} {ts ts' : Timestamp}
    (h : encodeKey t k ts = encodeKey t' k' ts') : t = t' ∧ k = k' ∧ ts = ts' := by
  have := congrArg decodeKey h
  simpa [decodeKey_encodeKey] using this

/-- Newer versions of a row come first. -/
theorem encodeKey_lt (t : TableId) (k : Bytes) {ts ts' : Timestamp} (h : ts < ts') :
    encodeKey t k ts' < encodeKey t k ts := by
  refine append_left_lt (append_left_lt (beBytes_lt ?_ ?_))
  · exact (invertTimestamp ts).toNat_lt
  · have h1 := UInt64.lt_iff_toNat_lt.mp h
    have h2 := ts'.toNat_lt
    rw [toNat_invertTimestamp, toNat_invertTimestamp]
    omega

theorem encodeKeyPrefixNewest_le (t : TableId) (k : Bytes) (ts : Timestamp) :
    encodeKeyPrefixNewest t k ≤ encodeKey t k ts := by
  by_cases hmax : ts = -1
  · rw [hmax]
    exact le_refl _
  · refine le_of_lt (encodeKey_lt t k ?_)
    rw [UInt64.lt_iff_toNat_lt]
    have hne : ts.toNat ≠ (-1 : UInt64).toNat := fun h => hmax (UInt64.toNat_inj.mp h)
    have h1 : (-1 : UInt64).toNat = 2 ^ 64 - 1 := by decide
    have h2 := ts.toNat_lt
    omega

/-! ## Point operations -/

abbrev MVCCStore := SortedMap Bytes Bytes

/-- The value that marks a deleted row. -/
def tombstone : Bytes := [0]

/-- The value of a deleted row. -/
def isTombstone (value : Bytes) : Bool := decide (value = tombstone)

namespace MVCCStore

/-- `Put`. -/
def put (s : MVCCStore) (tableId : TableId) (key : Bytes) (writeTs : Timestamp) (value : Bytes) :
    MVCCStore :=
  s.insert (encodeKey tableId key writeTs) value

/-- `Delete`. -/
def delete (s : MVCCStore) (tableId : TableId) (key : Bytes) (writeTs : Timestamp) : MVCCStore :=
  s.insert (encodeKey tableId key writeTs) tombstone

/-- `ReplayPut`. -/
def replayPut (s : MVCCStore) (tableId : TableId) (key : Bytes) (writeTs : Timestamp)
    (value : Bytes) : MVCCStore :=
  put s tableId key writeTs value

/-- The loop of `Get`, from the position of the iterator. -/
def getLoop (tableId : TableId) (key : Bytes) (snapshotTs : Timestamp) :
    List (Bytes × Bytes) → Option (Bytes × Timestamp)
  | [] => none
  | e :: it =>
    match decodeKey e.1 with
    | none => none
    | some (tid, pk, wts) =>
      if tid ≠ tableId ∨ pk ≠ key then none
      else if wts ≤ snapshotTs then
        if isTombstone e.2 then none else some (e.2, wts)
      else getLoop tableId key snapshotTs it

/-- `Get`: the value and its timestamp; `none` is `NotFound`. -/
def get (s : MVCCStore) (tableId : TableId) (key : Bytes) (snapshotTs : Timestamp) :
    Option (Bytes × Timestamp) :=
  getLoop tableId key snapshotTs (s.seek (encodeKeyPrefixNewest tableId key))

/-- What was last put as the version of a row at a timestamp. -/
def version (s : MVCCStore) (tableId : TableId) (key : Bytes) (ts : Timestamp) : Option Bytes :=
  s.find (encodeKey tableId key ts)

theorem version_put (s : MVCCStore) (t t' : TableId) (k k' : Bytes) (ts ts' : Timestamp)
    (v : Bytes) :
    version (put s t k ts v) t' k' ts' =
      if t' = t ∧ k' = k ∧ ts' = ts then some v else version s t' k' ts' := by
  unfold version put
  rw [SortedMap.find_insert]
  by_cases h : t' = t ∧ k' = k ∧ ts' = ts
  · obtain ⟨rfl, rfl, rfl⟩ := h
    simp
  · rw [if_neg h, if_neg]
    exact fun heq => h (encodeKey_inj heq)

/-- Two stores with the same versions are equal, if all their keys are keys of
versions. -/
theorem ext_version {s s' : MVCCStore} (hs : ∀ e ∈ s.entries, ∃ t k ts, e.1 = encodeKey t k ts)
    (hs' : ∀ e ∈ s'.entries, ∃ t k ts, e.1 = encodeKey t k ts)
    (h : ∀ t k ts, version s t k ts = version s' t k ts) : s = s' := by
  refine SortedMap.ext_find fun key => ?_
  by_cases hkey : ∃ t k ts, key = encodeKey t k ts
  · obtain ⟨t, k, ts, rfl⟩ := hkey
    exact h t k ts
  · have hnone : ∀ s : MVCCStore, (∀ e ∈ s.entries, ∃ t k ts, e.1 = encodeKey t k ts) →
        s.find key = none := by
      intro s hs
      cases hf : s.find key with
      | none => rfl
      | some v =>
        obtain ⟨t, k, ts, hk⟩ := hs _ (s.find_eq_some_iff.mp hf)
        exact absurd ⟨t, k, ts, hk⟩ hkey
    rw [hnone s hs, hnone s' hs']

theorem put_keys {s : MVCCStore} (hs : ∀ e ∈ s.entries, ∃ t k ts, e.1 = encodeKey t k ts)
    (t : TableId) (k : Bytes) (ts : Timestamp) (v : Bytes) :
    ∀ e ∈ (put s t k ts v).entries, ∃ t k ts, e.1 = encodeKey t k ts := by
  intro e he
  rcases SortedMap.mem_insertEntry he with rfl | he
  · exact ⟨t, k, ts, rfl⟩
  · exact hs e he

/-- What the loop finds is at its position or later, and everything before it is a
version above the snapshot. -/
theorem getLoop_eq_some {t : TableId} {k : Bytes} {s : Timestamp} {v : Bytes} {ts : Timestamp} :
    ∀ {it : List (Bytes × Bytes)}, it.Pairwise (fun a b => a.1 < b.1) →
      getLoop t k s it = some (v, ts) →
      (encodeKey t k ts, v) ∈ it ∧ ts ≤ s ∧ isTombstone v = false ∧
        ∀ e ∈ it, e.1 < encodeKey t k ts → ∃ w, e.1 = encodeKey t k w ∧ ¬ w ≤ s := by
  intro it
  induction it with
  | nil => intro _ h; cases h
  | cons e it ih =>
    intro hsorted h
    obtain ⟨hhead, htail⟩ := pairwise_cons.mp hsorted
    unfold getLoop at h
    cases hd : decodeKey e.1 with
    | none => simp [hd] at h
    | some r =>
      obtain ⟨tid, pk, wts⟩ := r
      simp only [hd] at h
      split_ifs at h with hother hle htomb
      · -- the iterator stands on the version that is returned
        push Not at hother
        obtain ⟨rfl, rfl⟩ := hother
        simp only [Option.some.injEq, Prod.mk.injEq] at h
        obtain ⟨rfl, rfl⟩ := h
        have henc := encodeKey_of_decodeKey hd
        refine ⟨?_, hle, Bool.not_eq_true _ ▸ htomb, ?_⟩
        · rw [henc]
          exact mem_cons_self
        · intro x hx hlt
          rw [henc] at hlt
          rcases mem_cons.mp hx with rfl | hx
          · exact absurd hlt (lt_irrefl _)
          · exact absurd (hlt.trans (hhead x hx)) (lt_irrefl _)
      · push Not at hother
        obtain ⟨rfl, rfl⟩ := hother
        obtain ⟨h1, h2, h3, h4⟩ := ih htail h
        refine ⟨mem_cons_of_mem _ h1, h2, h3, ?_⟩
        intro x hx hlt
        rcases mem_cons.mp hx with rfl | hx
        · exact ⟨wts, (encodeKey_of_decodeKey hd).symm, hle⟩
        · exact h4 x hx hlt

/-- **A point read that finds a row finds the newest version** at or below its
snapshot. -/
theorem get_eq_some {s : MVCCStore} {t : TableId} {k : Bytes} {snap ts : Timestamp} {v : Bytes}
    (h : get s t k snap = some (v, ts)) :
    version s t k ts = some v ∧ ts ≤ snap ∧ isTombstone v = false ∧
      ∀ ts', ts < ts' → ts' ≤ snap → version s t k ts' = none := by
  obtain ⟨hmem, hle, htomb, hbefore⟩ := getLoop_eq_some (s.sorted_seek _) h
  refine ⟨s.find_eq_some_iff.mpr (SortedMap.mem_of_mem_seek hmem), hle, htomb, ?_⟩
  intro ts' hlt hle'
  cases hv : version s t k ts' with
  | none => rfl
  | some v' =>
    -- such a version would have been met before the one that was returned
    have hin : (encodeKey t k ts', v') ∈ s.entries := s.find_eq_some_iff.mp hv
    have hstart := encodeKeyPrefixNewest_le t k ts'
    obtain ⟨w, hw, hnot⟩ := hbefore _ (SortedMap.mem_seek hin hstart) (encodeKey_lt t k hlt)
    obtain ⟨-, -, rfl⟩ := encodeKey_inj hw
    exact absurd hle' hnot

end MVCCStore

/-! ## Scans -/

/-- What a scan is asked for. -/
structure ScanRange where
  tableId : TableId
  startPk : Bytes
  endPkExclusive : Bytes
  openEndExclusive : Bool
  deriving DecidableEq

/-- A row of a scan: the primary key, the value and its timestamp. -/
structure ScanRow where
  pk : Bytes
  value : Bytes
  writeTs : Timestamp
  deriving DecidableEq

namespace MVCCIterator

/-- The timestamp of a key, if it is a key of the given row. -/
def versionOf (tableId : TableId) (pk : Bytes) (key : Bytes) : Option Timestamp :=
  match decodeKey key with
  | none => none
  | some (tid, p, wts) => if tid ≠ tableId ∨ p ≠ pk then none else some wts

/-- The inner loop of `Advance` that looks for the version of a row to show, and the
position it stops at. -/
def findVisible (tableId : TableId) (pk : Bytes) (snapshotTs : Timestamp) :
    List (Bytes × Bytes) → Option (Timestamp × Bytes) × List (Bytes × Bytes)
  | [] => (none, [])
  | e :: it =>
    match versionOf tableId pk e.1 with
    | none => (none, e :: it)
    | some w => if w ≤ snapshotTs then (some (w, e.2), e :: it) else findVisible tableId pk snapshotTs it

/-- The inner loops that step over the remaining versions of a row. -/
def skipRow (tableId : TableId) (pk : Bytes) (it : List (Bytes × Bytes)) : List (Bytes × Bytes) :=
  it.dropWhile fun e => (versionOf tableId pk e.1).isSome

/-- `Advance`: the next row, and the position after it.  Every turn of the loop
moves the iterator, so as many turns as it has entries are enough. -/
def advance (r : ScanRange) (snapshotTs : Timestamp) :
    ℕ → List (Bytes × Bytes) → Option ScanRow × List (Bytes × Bytes)
  | 0, it => (none, it)
  | _ + 1, [] => (none, [])
  | fuel + 1, e :: it =>
    match decodeKey e.1 with
    | none => advance r snapshotTs fuel it
    | some (tid, pk, _) =>
      if tid ≠ r.tableId then (none, e :: it)
      else if r.openEndExclusive = false ∧ r.endPkExclusive ≤ pk then (none, e :: it)
      else if r.startPk ≠ [] ∧ pk < r.startPk then advance r snapshotTs fuel it
      else
        match findVisible r.tableId pk snapshotTs (e :: it) with
        | (none, it') => advance r snapshotTs fuel it'
        | (some (w, v), it') =>
          if isTombstone v then advance r snapshotTs fuel (skipRow r.tableId pk it')
          else (some ⟨pk, v, w⟩, skipRow r.tableId pk it')

/-- `Next`, standing after the row of `currentPk`. -/
def next (r : ScanRange) (snapshotTs : Timestamp) (currentPk : Bytes) :
    List (Bytes × Bytes) → Option ScanRow × List (Bytes × Bytes)
  | [] => (none, [])
  | e :: it =>
    match decodeKey e.1 with
    | none => (none, e :: it)
    | some (tid, _, _) =>
      if tid ≠ r.tableId then (none, e :: it)
      else
        let it' := skipRow r.tableId currentPk (e :: it)
        advance r snapshotTs it'.length it'

/-- The rows that a loop `while (it->Valid()) …; it->Next()` sees. -/
def rows (r : ScanRange) (snapshotTs : Timestamp) :
    ℕ → Option ScanRow × List (Bytes × Bytes) → List ScanRow
  | _, (none, _) => []
  | 0, (some row, _) => [row]
  | fuel + 1, (some row, it) => row :: rows r snapshotTs fuel (next r snapshotTs row.pk it)

end MVCCIterator

/-- All rows of a scan at a snapshot. -/
def MVCCStore.scan (s : MVCCStore) (r : ScanRange) (snapshotTs : Timestamp) : List ScanRow :=
  let it := s.seek (encodeKeyPrefixNewest r.tableId r.startPk)
  MVCCIterator.rows r snapshotTs it.length (MVCCIterator.advance r snapshotTs it.length it)

namespace MVCCIterator

variable {r : ScanRange} {snap : Timestamp}

/-- A row is backed by an entry of the iterator. -/
def Backed (r : ScanRange) (snap : Timestamp) (it : List (Bytes × Bytes)) (row : ScanRow) : Prop :=
  (encodeKey r.tableId row.pk row.writeTs, row.value) ∈ it ∧ row.writeTs ≤ snap ∧
    isTombstone row.value = false

theorem Backed.mono {it it' : List (Bytes × Bytes)} {row : ScanRow} (h : Backed r snap it row)
    (hs : it ⊆ it') : Backed r snap it' row :=
  ⟨hs h.1, h.2⟩

theorem versionOf_eq_some {t : TableId} {pk key : Bytes} {w : Timestamp}
    (h : versionOf t pk key = some w) : key = encodeKey t pk w := by
  unfold versionOf at h
  cases hd : decodeKey key with
  | none => simp [hd] at h
  | some x =>
    obtain ⟨tid, p, wts⟩ := x
    simp only [hd] at h
    split_ifs at h with hother
    push Not at hother
    obtain ⟨rfl, rfl⟩ := hother
    cases h
    exact (encodeKey_of_decodeKey hd).symm

theorem findVisible_spec (t : TableId) (pk : Bytes) (snap : Timestamp) (it : List (Bytes × Bytes)) :
    (findVisible t pk snap it).2 ⊆ it ∧ ∀ w v, (findVisible t pk snap it).1 = some (w, v) →
      (encodeKey t pk w, v) ∈ it ∧ w ≤ snap := by
  induction it with
  | nil => simp [findVisible]
  | cons e it ih =>
    unfold findVisible
    cases hv : versionOf t pk e.1 with
    | none => simp
    | some w =>
      dsimp only
      split_ifs with hle
      · refine ⟨fun x hx => hx, ?_⟩
        intro w' v' h
        simp only [Option.some.injEq, Prod.mk.injEq] at h
        obtain ⟨rfl, rfl⟩ := h
        rw [← versionOf_eq_some hv]
        exact ⟨mem_cons_self, hle⟩
      · refine ⟨fun x hx => mem_cons_of_mem _ (ih.1 hx), ?_⟩
        intro w' v' h
        obtain ⟨h1, h2⟩ := ih.2 w' v' h
        exact ⟨mem_cons_of_mem _ h1, h2⟩

theorem skipRow_subset (t : TableId) (pk : Bytes) (it : List (Bytes × Bytes)) :
    skipRow t pk it ⊆ it :=
  (dropWhile_sublist _).subset

/-- `Advance` shows a row that is there, and only moves forward. -/
theorem advance_spec (r : ScanRange) (snap : Timestamp) (fuel : ℕ) :
    ∀ it : List (Bytes × Bytes), (advance r snap fuel it).2 ⊆ it ∧
      ∀ row, (advance r snap fuel it).1 = some row → Backed r snap it row := by
  induction fuel with
  | zero => intro it; simp [advance]
  | succ fuel ih =>
    intro it
    cases it with
    | nil => simp [advance]
    | cons e it =>
      -- going on from a later position
      have hgo : ∀ it' : List (Bytes × Bytes), it' ⊆ e :: it →
          (advance r snap fuel it').2 ⊆ e :: it ∧
            ∀ row, (advance r snap fuel it').1 = some row → Backed r snap (e :: it) row :=
        fun it' hs => ⟨fun x hx => hs ((ih it').1 hx), fun row h => ((ih it').2 row h).mono hs⟩
      unfold advance
      cases hd : decodeKey e.1 with
      | none => exact hgo it (subset_cons_self _ _)
      | some x =>
        obtain ⟨tid, pk, wts⟩ := x
        dsimp only
        split_ifs with h1 h2 h3
        · simp
        · simp
        · exact hgo it (subset_cons_self _ _)
        · obtain ⟨hsub, hfound⟩ := findVisible_spec r.tableId pk snap (e :: it)
          generalize hf : findVisible r.tableId pk snap (e :: it) = f at hsub hfound ⊢
          obtain ⟨o, it'⟩ := f
          cases o with
          | none => exact hgo it' hsub
          | some wv =>
            obtain ⟨w, v⟩ := wv
            obtain ⟨hmem, hle⟩ := hfound w v rfl
            have hskip : skipRow r.tableId pk it' ⊆ e :: it :=
              fun x hx => hsub (skipRow_subset _ _ _ hx)
            dsimp only
            split_ifs with htomb
            · exact hgo _ hskip
            · refine ⟨hskip, ?_⟩
              intro row hrow
              cases hrow
              exact ⟨hmem, hle, Bool.not_eq_true _ ▸ htomb⟩

theorem next_spec (r : ScanRange) (snap : Timestamp) (pk : Bytes) (it : List (Bytes × Bytes)) :
    (next r snap pk it).2 ⊆ it ∧
      ∀ row, (next r snap pk it).1 = some row → Backed r snap it row := by
  cases it with
  | nil => simp [next]
  | cons e it =>
    unfold next
    cases hd : decodeKey e.1 with
    | none => simp [hd]
    | some x =>
      obtain ⟨tid, p, wts⟩ := x
      simp only [hd]
      split_ifs with h1
      · simp
      · have hskip := skipRow_subset r.tableId pk (e :: it)
        obtain ⟨h2, h3⟩ := advance_spec r snap
          (skipRow r.tableId pk (e :: it)).length (skipRow r.tableId pk (e :: it))
        exact ⟨fun x hx => hskip (h2 hx), fun row h => (h3 row h).mono hskip⟩

theorem mem_rows {all : List (Bytes × Bytes)} (fuel : ℕ) :
    ∀ p : Option ScanRow × List (Bytes × Bytes), p.2 ⊆ all →
      (∀ row, p.1 = some row → Backed r snap all row) →
        ∀ row ∈ rows r snap fuel p, Backed r snap all row := by
  induction fuel with
  | zero =>
    rintro ⟨o, it⟩ _ hrow row h
    cases o with
    | none => simp [rows] at h
    | some x =>
      obtain rfl := mem_singleton.mp h
      exact hrow row rfl
  | succ fuel ih =>
    rintro ⟨o, it⟩ hs hrow row h
    cases o with
    | none => simp [rows] at h
    | some x =>
      rcases mem_cons.mp h with rfl | h
      · exact hrow row rfl
      · obtain ⟨h1, h2⟩ := next_spec r snap x.pk it
        exact ih _ (fun y hy => hs (h1 hy)) (fun y hy => (h2 y hy).mono hs) row h

end MVCCIterator

/-- Every row of a scan is a version of the store at or below the snapshot, and not
a tombstone. -/
theorem MVCCStore.mem_scan {s : MVCCStore} {r : ScanRange} {snap : Timestamp} {row : ScanRow}
    (h : row ∈ scan s r snap) :
    version s r.tableId row.pk row.writeTs = some row.value ∧ row.writeTs ≤ snap ∧
      isTombstone row.value = false := by
  obtain ⟨h1, h2⟩ := MVCCIterator.advance_spec r snap
    (s.seek (encodeKeyPrefixNewest r.tableId r.startPk)).length
    (s.seek (encodeKeyPrefixNewest r.tableId r.startPk))
  obtain ⟨hmem, hrest⟩ := MVCCIterator.mem_rows _ _ h1 h2 row h
  exact ⟨s.find_eq_some_iff.mpr (SortedMap.mem_of_mem_seek hmem), hrest⟩

end TransDb.Storage
