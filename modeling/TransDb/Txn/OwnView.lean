import TransDb.Storage.Calls
import TransDb.Txn.Alone
import TransDb.Txn.Recover

/-!
# What a transaction sees of its own work

A write is kept in three forms: in the buffer of its transaction, in the store and in the
log.  A read inside the transaction looks at the buffer first; a scan goes through the
store and puts the buffered values over the rows it finds there; a later transaction and
recovery see the store and the log.

* `scan_agrees_with_read_iff` — **a scan shows what reads would find, if every row that
  is only buffered is in the store, too.**
* `own_view_iff` — **what a transaction reads of a row it wrote is what is read after its
  commit and after recovery, unless it wrote the tombstone byte.**
-/

namespace TransDb.Txn

open List Function Storage

/-! ## Scans and reads -/

variable {store : MVCCStore} {own writes ws : List BufferedWrite} {snap : Timestamp} {tb : TableId}
  {k v : Bytes} {rows : List ScanRow} {m m₀ : TxnManager} {fuel : ℕ}

/-- What a read finds of a row: its value. -/
theorem Op.replyAt_read_eq_ok {T : TxnId} :
    (Op.read T tb k).replyAt store own snap = ⟨.ok, none, v, []⟩ ↔
      match latestBuffered own tb k with
      | some bw => bw.isDelete = false ∧ bw.value = v
      | none => ∃ ts, MVCCStore.get store tb k snap = some (v, ts) := by
  simp only [Op.replyAt]
  cases latestBuffered own tb k with
  | some bw =>
    cases hd : bw.isDelete <;> simp [BufferedWrite.reply, Reply.of, hd, Status.notFound, Status.ok]
  | none =>
    cases MVCCStore.get store tb k snap with
    | none => simp [replyOfGet, Reply.of, Status.notFound, Status.ok]
    | some vv => simp [replyOfGet, Prod.ext_iff]

theorem mem_mergeRows :
    (k, v) ∈ mergeRows own tb rows ↔ ∃ row ∈ rows, row.pk = k ∧
      match latestBuffered own tb k with
      | some bw => bw.isDelete = false ∧ bw.value = v
      | none => row.value = v := by
  unfold mergeRows
  rw [mem_flatMap]
  refine exists_congr fun row => and_congr_right fun _ => ?_
  unfold mergeRow
  constructor
  · intro h
    cases hb : latestBuffered own tb row.pk with
    | some bw =>
      cases hd : bw.isDelete with
      | true => simp [hb, hd] at h
      | false =>
        simp only [hb, hd, Bool.false_eq_true, if_false, mem_singleton, Prod.mk.injEq] at h
        obtain ⟨rfl, rfl⟩ := h
        simp [hb, hd]
    | none =>
      simp only [hb, mem_singleton, Prod.mk.injEq] at h
      obtain ⟨rfl, rfl⟩ := h
      simp [hb]
  · rintro ⟨rfl, h⟩
    cases hb : latestBuffered own tb row.pk with
    | some bw =>
      rw [hb] at h
      obtain ⟨hd, rfl⟩ := h
      simp [hd]
    | none =>
      rw [hb] at h
      simp [h]

/-- The rows of the result are in the order of the rows of the store. -/
theorem sorted_mergeRows (own : List BufferedWrite) (tb : TableId)
    (h : rows.Pairwise fun a b => a.pk < b.pk) :
    (mergeRows own tb rows).Pairwise fun a b => a.1 < b.1 := by
  have hpk : ∀ {row : ScanRow} {x : Bytes × Bytes}, x ∈ mergeRow own tb row → x.1 = row.pk := by
    intro row x hx
    have hx' : (x.1, x.2) ∈ mergeRows own tb [row] := by simpa [mergeRows] using hx
    obtain ⟨row', hrow', hk, -⟩ := mem_mergeRows.mp hx'
    rw [mem_singleton.mp hrow'] at hk
    exact hk.symm
  refine pairwise_flatMap.mpr ⟨?_, ?_⟩
  · intro row _
    unfold mergeRow
    cases latestBuffered own tb row.pk with
    | some bw => cases hd : bw.isDelete <;> simp [hd]
    | none => simp
  · refine h.imp fun {row row'} hlt x hx y hy => ?_
    rw [hpk hx, hpk hy]
    exact hlt

/-- What a served read finds. -/
theorem serve_read_eq_ok {T : TxnId} {t : Transaction} (ht : m.txns T = some t)
    (hact : t.state = .active) (hf : 3 ≤ fuel) :
    (∃ m', m.serve fuel (.read T tb k) = some (m', ⟨.ok, none, v, []⟩)) ↔
      match latestBuffered t.writeSet tb k with
      | some bw => bw.isDelete = false ∧ bw.value = v
      | none => ∃ ts, MVCCStore.get m.store tb k t.snapshotTs = some (v, ts) := by
  obtain ⟨m1, hm1⟩ := TxnManager.serve_read ht hact tb k hf
  rw [← Op.replyAt_read_eq_ok (T := T), hm1]
  constructor
  · rintro ⟨m', heq⟩
    exact (Prod.mk.inj (Option.some.inj heq)).2
  · intro heq
    exact ⟨m1, by rw [heq]⟩

/-- The rows of a scan of the store are those that point reads of the store find. -/
theorem mem_scan_iff_get {r : ScanRange} (hfree : MVCCStore.PrefixFreeIn store r.tableId)
    {row : ScanRow} :
    row ∈ MVCCStore.scan store r snap ↔ r.contains row.pk = true ∧
      MVCCStore.get store r.tableId row.pk snap = some (row.value, row.writeTs) := by
  rw [hfree.get_iff]
  exact hfree.scan_exact.1 row

/-- **A scan shows the rows that reads at the same moment would find**, once and in the order
of their keys, exactly if every row of the range that the transaction has written, and not
deleted again, has a visible version in the store: the scan goes through the store. -/
theorem scan_agrees_with_read_iff {m : TxnManager} {T : TxnId} {t : Transaction} {r : ScanRange}
    {fuel : ℕ} (ht : m.txns T = some t) (hact : t.state = .active)
    (hfree : MVCCStore.PrefixFreeIn m.store r.tableId)
    (hf : (MVCCStore.scan m.store r t.snapshotTs).length + 3 ≤ fuel) :
    ∃ m' rows, m.serve fuel (.scan T r) = some (m', ⟨.ok, none, [], rows⟩) ∧
      rows.Pairwise (fun a b => a.1 < b.1) ∧
      ((∀ k v, (k, v) ∈ rows ↔ r.contains k = true ∧
          ∃ m'', m.serve fuel (.read T r.tableId k) = some (m'', ⟨.ok, none, v, []⟩)) ↔
        ∀ k bw, r.contains k = true → latestBuffered t.writeSet r.tableId k = some bw →
          bw.isDelete = false → MVCCStore.get m.store r.tableId k t.snapshotTs ≠ none) := by
  obtain ⟨m', hm'⟩ := TxnManager.serve_scan ht hact r hf
  refine ⟨m', _, hm', sorted_mergeRows _ _ hfree.scan_exact.2, ?_⟩
  have hf3 : 3 ≤ fuel := by omega
  constructor
  · -- a buffered row is read, so it is shown, so it is in the store
    intro hagree k bw hin hb hd
    have hread := (serve_read_eq_ok ht hact hf3).mpr
      (show match latestBuffered t.writeSet r.tableId k with
        | some bw' => bw'.isDelete = false ∧ bw'.value = bw.value
        | none => ∃ ts, MVCCStore.get m.store r.tableId k t.snapshotTs = some (bw.value, ts) by
          rw [hb]; exact ⟨hd, rfl⟩)
    obtain ⟨row, hrow, rfl, -⟩ := mem_mergeRows.mp ((hagree k bw.value).mpr ⟨hin, hread⟩)
    rw [((mem_scan_iff_get hfree).mp hrow).2]
    simp
  · intro hcond k v
    rw [mem_mergeRows, serve_read_eq_ok ht hact hf3]
    cases hb : latestBuffered t.writeSet r.tableId k with
    | some bw =>
      constructor
      · rintro ⟨row, hrow, rfl, hvalue⟩
        exact ⟨((mem_scan_iff_get hfree).mp hrow).1, hvalue⟩
      · rintro ⟨hin, hvalue⟩
        obtain ⟨⟨v', ts⟩, hget⟩ := Option.ne_none_iff_exists'.mp (hcond k bw hin hb hvalue.1)
        exact ⟨⟨k, v', ts⟩, (mem_scan_iff_get hfree).mpr ⟨hin, hget⟩, rfl, hvalue⟩
    | none =>
      constructor
      · rintro ⟨row, hrow, rfl, rfl⟩
        obtain ⟨hin, hget⟩ := (mem_scan_iff_get hfree).mp hrow
        exact ⟨hin, row.writeTs, hget⟩
      · rintro ⟨hin, ts, hget⟩
        exact ⟨⟨k, v, ts⟩, (mem_scan_iff_get hfree).mpr ⟨hin, hget⟩, rfl, rfl⟩

/-- A manager with one active transaction, on some stored rows and with some writes. -/
def oneActive (calls : List StoreCall) (writes : List BufferedWrite) : TxnManager :=
  { TxnManager.empty with
    store := StoreCall.store calls
    txns := update (fun _ => none) 1 (some ⟨1, 5, 0, .active, writes, [], []⟩) }

/-- A stored row is overwritten, and is shown with its new value. -/
theorem scan_agrees_overwritten :
    ∃ m' rows, (oneActive [.put 7 [1] 2 [8]] [⟨7, [1], [9], false⟩]).serve 9
        (.scan 1 ⟨7, [], [], true⟩) = some (m', ⟨.ok, none, [], rows⟩) ∧
      ∀ k v, (k, v) ∈ rows ↔ (ScanRange.mk 7 [] [] true).contains k = true ∧
        ∃ m'', (oneActive [.put 7 [1] 2 [8]] [⟨7, [1], [9], false⟩]).serve 9 (.read 1 7 k) =
          some (m'', ⟨.ok, none, v, []⟩) := by
  have hf : (MVCCStore.scan (StoreCall.store [.put 7 [1] 2 [8]]) ⟨7, [], [], true⟩ 5).length + 3 ≤ 9 := by
    decide +kernel
  obtain ⟨m', rows, hserve, -, hiff⟩ := scan_agrees_with_read_iff
    (m := oneActive [.put 7 [1] 2 [8]] [⟨7, [1], [9], false⟩]) (T := 1) rfl rfl
    (StoreCall.prefixFreeIn_store (by decide)) hf
  refine ⟨m', rows, hserve, hiff.mpr ?_⟩
  intro k bw _ hb _
  obtain ⟨rfl, -⟩ : [1] = k ∧ ⟨7, [1], [9], false⟩ = bw := by simpa [latestBuffered] using hb
  decide +kernel

/-- A row that the transaction has inserted is read, and not shown. -/
theorem scan_misses_inserted :
    ((oneActive [] [⟨7, [1], [9], false⟩]).serve 9 (.scan 1 ⟨7, [], [], true⟩)).map Prod.snd =
        some ⟨.ok, none, [], []⟩ ∧
      ((oneActive [] [⟨7, [1], [9], false⟩]).serve 9 (.read 1 7 [1])).map Prod.snd =
        some ⟨.ok, none, [9], []⟩ ∧
      (ScanRange.mk 7 [] [] true).contains [1] = true := by
  decide +kernel

/-! ## The keys that are stored or written -/

/-- A key of a table, in the store or among the writes. -/
def KnownKey (store : MVCCStore) (writes : List BufferedWrite) (tb : TableId) (k : Bytes) : Prop :=
  (∃ ts, MVCCStore.version store tb k ts ≠ none) ∨ ∃ w ∈ writes, w.tableId = tb ∧ w.key = k

/-- No key of a table, stored or written, is a proper prefix of another one. -/
structure KeysApart (store : MVCCStore) (writes : List BufferedWrite) : Prop where
  keys : ∀ e ∈ store.entries, ∃ tb k ts, e.1 = encodeKey tb k ts
  apart : ∀ tb k k', KnownKey store writes tb k → KnownKey store writes tb k' → k <+: k' → k = k'

/-- The writes of a commit. -/
def applyAll (store : MVCCStore) (commitTs : Timestamp) (writes : List BufferedWrite) : MVCCStore :=
  writes.foldl (fun s w => w.apply s commitTs) store

/-- The keys under which a commit puts its writes. -/
def PutBy (writes : List BufferedWrite) (commitTs : Timestamp) (key : Bytes) : Prop :=
  ∃ w ∈ writes, key = encodeKey w.tableId w.key commitTs

/-- The second store has no keys but those of the first one and of the commit. -/
def AddsOnly (writes : List BufferedWrite) (commitTs : Timestamp) (s s' : MVCCStore) : Prop :=
  ∀ key, s'.find key ≠ none → s.find key ≠ none ∨ PutBy writes commitTs key

theorem AddsOnly.applyAll {cts : Timestamp} {s : MVCCStore} (h : AddsOnly ws cts store s) :
    AddsOnly ws cts store (applyAll s cts ws) := by
  suffices hall : ∀ done, done ⊆ ws → AddsOnly ws cts store (Txn.applyAll s cts done) from
    hall ws (Subset.refl ws)
  intro done
  induction done using reverseRecOn with
  | nil => exact fun _ => h
  | append_singleton done w ih =>
    intro hsub key hkey
    obtain ⟨hdone, hw⟩ := append_subset.mp hsub
    rw [Txn.applyAll, foldl_append, foldl_cons, foldl_nil, BufferedWrite.apply_eq, MVCCStore.put,
      SortedMap.find_insert] at hkey
    split_ifs at hkey with heq
    · exact .inr ⟨w, hw mem_cons_self, heq⟩
    · exact ih hdone key hkey

/-- A store with the keys of the writes beside its own. -/
theorem KeysApart.mono {cts : Timestamp} {s : MVCCStore} (h : KeysApart store ws)
    (hadds : AddsOnly ws cts store s) : KeysApart s ws := by
  have hknown : ∀ {tb k}, KnownKey s ws tb k → KnownKey store ws tb k := by
    rintro tb k (⟨ts, hts⟩ | hw)
    · rcases hadds _ hts with hold | ⟨w, hw, heq⟩
      · exact .inl ⟨ts, hold⟩
      · obtain ⟨rfl, rfl, -⟩ := encodeKey_inj heq
        exact .inr ⟨w, hw, rfl, rfl⟩
    · exact .inr hw
  refine ⟨fun e he => ?_, fun tb k k' hk hk' hp => h.apart tb k k' (hknown hk) (hknown hk') hp⟩
  have hfind : s.find e.1 ≠ none := by
    rw [s.find_eq_some_iff.mpr he]
    exact Option.some_ne_none _
  rcases hadds _ hfind with hold | ⟨w, -, heq⟩
  · obtain ⟨v, hv⟩ := Option.ne_none_iff_exists'.mp hold
    exact h.keys (e.1, v) (store.find_eq_some_iff.mp hv)
  · exact ⟨w.tableId, w.key, cts, heq⟩

theorem KeysApart.prefixFree (h : KeysApart store writes) : MVCCStore.PrefixFree store :=
  ⟨h.keys, fun tb k k' ts ts' hk hk' hp => h.apart tb k k' (.inl ⟨ts, hk⟩) (.inl ⟨ts', hk'⟩) hp⟩

/-! ## A log that grows by the records of one transaction -/

/-- The log has grown by records of one transaction. -/
def Logged (T : TxnId) (recs : List (WALRecordType × Bytes)) (before after : List WALRecord) :
    Prop :=
  ∃ added, after = before ++ added ∧ (∀ r ∈ added, r.txnId = T) ∧
    added.map (fun r => (r.type, r.payload)) = recs

section Logged

variable {T T' : TxnId} {recs : List (WALRecordType × Bytes)} {before after : List WALRecord}

theorem Logged.append {w : WAL} (h : Logged T recs before w.records) (type : WALRecordType)
    (payload : Bytes) :
    Logged T (recs ++ [(type, payload)]) before (w.append T type payload).records := by
  obtain ⟨added, hrecords, hids, rfl⟩ := h
  refine ⟨added ++ [⟨w.nextLsn, T, type, payload⟩], ?_, ?_, by rw [map_append]; rfl⟩
  · rw [WAL.records_append, hrecords, append_assoc]
  · intro r hr
    rcases mem_append.mp hr with hr | hr
    · exact hids r hr
    · rw [mem_singleton.mp hr]

theorem Logged.content (h : Logged T recs before after) :
    content after T = content before T ++ recs := by
  obtain ⟨added, rfl, hids, rfl⟩ := h
  have hall : added.filter (fun r => decide (r.txnId = T)) = added :=
    filter_eq_self.mpr fun r hr => decide_eq_true (hids r hr)
  rw [Txn.content, filter_append, map_append, hall]
  rfl

theorem Logged.lastRecord_eq (h : Logged T recs before after) (hT : T' ≠ T) :
    lastRecord after T' = lastRecord before T' := by
  obtain ⟨added, rfl, hids, -⟩ := h
  induction added using reverseRecOn with
  | nil => rw [append_nil]
  | append_singleton added r ih =>
    have hr : r.txnId = T := hids r (by simp)
    rw [← append_assoc, lastRecord_append, hr, update_of_ne hT]
    exact ih fun r' hr' => hids r' (mem_append_left _ hr')

/-- The turn for another transaction. -/
theorem Logged.recoverTxn_eq (h : Logged T recs before after) (hT : T' ≠ T) (m : TxnManager) :
    recoverTxn after m T' = recoverTxn before m T' := by
  unfold recoverTxn
  rw [h.lastRecord_eq hT]
  cases hlast : lastRecord before T' with
  | none => rfl
  | some x =>
    obtain ⟨type, n⟩ := x
    obtain ⟨r, hget, -⟩ := lastRecord_eq_some hlast
    have hlt : n < before.length := (List.getElem?_eq_some_iff.mp hget).1
    obtain ⟨added, rfl, -⟩ := h
    simp only [getElem?_append_left hlt, take_append_of_le_length hlt.le]

theorem insertionSort_concat {α : Type} {r : α → α → Prop} [DecidableRel r] {x : α} {l : List α}
    (h : ∀ a ∈ l, r a x) : (l ++ [x]).insertionSort r = l.insertionSort r ++ [x] := by
  have hinsert : ∀ {a : α} {l : List α}, r a x →
      orderedInsert r a (l ++ [x]) = orderedInsert r a l ++ [x] := by
    intro a l ha
    induction l with
    | nil => simp [orderedInsert, ha]
    | cons b l ih => by_cases hb : r a b <;> simp [orderedInsert, hb, ih]
  induction l with
  | nil => rfl
  | cons a l ih =>
    obtain ⟨ha, hl⟩ := forall_mem_cons.mp h
    rw [cons_append, insertionSort_cons, insertionSort_cons, ih hl, hinsert ha]

/-- The transaction comes last in the order of recovery. -/
theorem Logged.txnOrder_eq (h : Logged T recs before after) (hne : recs ≠ [])
    (hnew : Txn.content before T = []) : txnOrder after = txnOrder before ++ [T] := by
  have hother : ∀ T' ∈ (before.map WALRecord.txnId).dedup, T' ≠ T ∧
      ((lastRecord before T').map Prod.snd).getD 0 ≤ before.length := by
    intro T' hT'
    refine ⟨?_, ?_⟩
    · rintro rfl
      obtain ⟨r, hr, hid⟩ := mem_map.mp (mem_dedup.mp hT')
      have hin : (r.type, r.payload) ∈ Txn.content before T' :=
        mem_map.mpr ⟨r, mem_filter.mpr ⟨hr, decide_eq_true hid⟩, rfl⟩
      rw [hnew] at hin
      exact not_mem_nil hin
    · cases hlast : lastRecord before T' with
      | none => exact Nat.zero_le _
      | some x =>
        obtain ⟨r, hget, -⟩ := lastRecord_eq_some hlast
        exact (List.getElem?_eq_some_iff.mp hget).1.le
  have hlast : before.length ≤ ((lastRecord after T).map Prod.snd).getD 0 := by
    obtain ⟨added, rfl, hids, rfl⟩ := h
    obtain rfl | ⟨init, r, rfl⟩ := eq_nil_or_concat' added
    · exact absurd rfl hne
    have hr : r.txnId = T := hids r (by simp)
    rw [← append_assoc, lastRecord_append, hr, update_self]
    simp
  have hids : (after.map WALRecord.txnId).dedup = (before.map WALRecord.txnId).dedup ++ [T] := by
    obtain ⟨added, rfl, hids, rfl⟩ := h
    have hadded : added.map WALRecord.txnId = replicate added.length T :=
      eq_replicate_iff.mpr ⟨length_map _, by simpa using hids⟩
    have hlen : added.length ≠ 0 := fun hnil => hne (by rw [length_eq_zero_iff.mp hnil]; rfl)
    rw [map_append, Disjoint.dedup_append, hadded, replicate_dedup hlen]
    intro T' hT' hin
    rw [hadded] at hin
    exact (hother T' (mem_dedup.mpr hT')).1 (eq_of_mem_replicate hin)
  unfold txnOrder
  rw [hids, insertionSort_concat]
  · congr 1
    have hmap := map_insertionSort (s := fun a b => ((lastRecord before a).map Prod.snd).getD 0 ≤
        ((lastRecord before b).map Prod.snd).getD 0)
      (fun a b => ((lastRecord after a).map Prod.snd).getD 0 ≤
        ((lastRecord after b).map Prod.snd).getD 0) id (before.map WALRecord.txnId).dedup (by
        intro a ha b hb
        rw [id, id, h.lastRecord_eq (hother a ha).1, h.lastRecord_eq (hother b hb).1])
    rwa [map_id, map_id] at hmap
  · intro a ha
    dsimp only
    rw [h.lastRecord_eq (hother a ha).1]
    exact (hother a ha).2.trans hlast

end Logged

/-! ## A transaction that writes, alone -/

/-- The manager while a transaction that began in `m₀` has made some changes. -/
structure Writing (m₀ : TxnManager) (snap : Timestamp) (ws : List BufferedWrite) (m : TxnManager) :
    Prop where
  store : m.store = m₀.store
  txn : ∃ t, m.txns m₀.nextTxnId = some t ∧ t.state = .active ∧ t.snapshotTs = snap ∧
    t.writeSet = ws ∧ t.readSet = []
  log : Logged m₀.nextTxnId ((.begin, WAL.serializeBeginPayload snap) ::
    ws.map BufferedWrite.record) m₀.wal.records m.wal.records
  locks : ∀ lk, m.lockMgr.owner lk = m₀.lockMgr.owner lk ∨ m.lockMgr.owner lk = m₀.nextTxnId

theorem Writing.begun (m₀ : TxnManager) (snap : Timestamp) : Writing m₀ snap [] (m₀.begun snap) where
  store := rfl
  txn := ⟨.fresh m₀.nextTxnId snap, update_self _ _ _, rfl, rfl, rfl, rfl⟩
  log := (show Logged m₀.nextTxnId [] _ _ from ⟨[], (append_nil _).symm, by simp, rfl⟩).append _ _
  locks := fun _ => .inl rfl

/-- One more change. -/
theorem Writing.change (h : Writing m₀ snap ws m) (c : Change)
    (hlock : m₀.lockMgr.owner c.buffered.lockKey = 0) (hf : 2 ≤ fuel) :
    ∃ m', m.serve fuel (c.op m₀.nextTxnId) = some (m', .of .ok) ∧
      Writing m₀ snap (ws ++ [c.buffered]) m' := by
  obtain ⟨t, ht, hact, hsnap, hws, hread⟩ := h.txn
  have hfree : m.lockMgr.owner c.buffered.lockKey = 0 ∨
      m.lockMgr.owner c.buffered.lockKey = m₀.nextTxnId := by
    rcases h.locks c.buffered.lockKey with heq | heq
    · exact .inl (heq.trans hlock)
    · exact .inr heq
  refine ⟨_, TxnManager.serve_change ht hact c hfree hf, ?_⟩
  refine ⟨h.store, ⟨_, update_self _ _ _, hact, hsnap, by rw [hws], hread⟩, ?_, ?_⟩
  · rw [map_append, map_singleton, ← cons_append]
    exact h.log.append _ _
  · intro lk
    show (m.lockMgr.acquire c.buffered.lockKey m₀.nextTxnId).1.owner lk = _ ∨
      (m.lockMgr.acquire c.buffered.lockKey m₀.nextTxnId).1.owner lk = _
    rw [LockManager.owner_acquire]
    split_ifs
    · exact .inr rfl
    · exact h.locks lk

/-- **All changes of a transaction**, one after the other. -/
theorem Writing.changes (h : Writing m₀ snap ws m) {changes : List Change}
    (hlocks : ∀ c ∈ changes, m₀.lockMgr.owner c.buffered.lockKey = 0) (hf : 2 ≤ fuel) :
    ∃ m', m.serveAll fuel (changes.map (Change.op m₀.nextTxnId)) =
        some (m', changes.map fun _ => .of .ok) ∧
      Writing m₀ snap (ws ++ changes.map Change.buffered) m' := by
  induction changes generalizing m ws with
  | nil => exact ⟨m, rfl, by simpa using h⟩
  | cons c changes ih =>
    obtain ⟨m1, hm1, h1⟩ := h.change c (hlocks c mem_cons_self) hf
    obtain ⟨m2, hm2, h2⟩ := ih h1 fun c' hc' => hlocks c' (mem_cons_of_mem _ hc')
    refine ⟨m2, ?_, ?_⟩
    · rw [map_cons, TxnManager.serveAll_cons hm1, hm2]
      rfl
    · simpa using h2

/-- The manager after the commit of that transaction. -/
structure Committed (m₀ : TxnManager) (snap cts : Timestamp) (ws : List BufferedWrite)
    (m : TxnManager) : Prop where
  store : m.store = applyAll m₀.store cts ws
  log : Logged m₀.nextTxnId (((.begin, WAL.serializeBeginPayload snap) ::
    ws.map BufferedWrite.record) ++ [(.prepare, WAL.serializePreparePayload cts)] ++
      [(.commit, WAL.serializeCommitPayload cts)]) m₀.wal.records m.wal.records

/-- `Prepare` and `Commit`. -/
theorem Writing.commit (h : Writing m₀ snap ws m) (cts : Timestamp) (hf : ws.length + 4 ≤ fuel) :
    ∃ m', m.serveAll fuel [.prepare m₀.nextTxnId cts, .commit m₀.nextTxnId cts] =
        some (m', [.of .ok, .of .ok]) ∧ Committed m₀ snap cts ws m' := by
  obtain ⟨t, ht, hact, -, hws, hread⟩ := h.txn
  have hprepare := TxnManager.serve_prepare ht hact hread cts (show 1 ≤ fuel by omega)
  obtain ⟨m', hcommit, hstore, hwal, -⟩ := TxnManager.serve_commit
    (m := m.preparedAt m₀.nextTxnId t cts) (update_self _ _ _) rfl cts
    (show t.writeSet.length + 4 ≤ fuel by rw [hws]; exact hf)
  refine ⟨m', ?_, hstore.trans ?_, ?_⟩
  · rw [TxnManager.serveAll_cons hprepare, TxnManager.serveAll_cons hcommit]
    rfl
  · show t.writeSet.foldl _ m.store = _
    rw [hws, h.store]
    rfl
  · rw [hwal]
    exact (h.log.append _ _).append _ _

/-! ## Recovery after the commit -/

/-- The manager after a crash, before `Recover`: the store and the log are on disk. -/
def TxnManager.crash (m : TxnManager) : TxnManager :=
  { TxnManager.reopen m.wal.records with store := m.store }

/-- Two runs of recovery from stores of which the second one has some more keys. -/
def Beside (ws : List BufferedWrite) (cts : Timestamp) (m m' : TxnManager) : Prop :=
  m'.lockMgr = m.lockMgr ∧ AddsOnly ws cts m.store m'.store

theorem AddsOnly.replayRecord {cts ts : Timestamp} {s s' s₁ : MVCCStore}
    (h : AddsOnly ws cts s s') {r : WALRecordType × Bytes} (hr : replayRecord ts s r = .ok s₁) :
    ∃ s₁', replayRecord ts s' r = .ok s₁' ∧ AddsOnly ws cts s₁ s₁' := by
  have hinsert : ∀ key v, AddsOnly ws cts (s.insert key v) (s'.insert key v) := by
    intro key v key' hkey
    rw [SortedMap.find_insert] at hkey ⊢
    split_ifs at hkey ⊢ with heq
    · exact .inl (Option.some_ne_none _)
    · exact h key' hkey
  obtain ⟨type, payload⟩ := r
  cases type with
  | write =>
    simp only [Txn.replayRecord] at hr ⊢
    cases hparse : WAL.deserializeWritePayload payload with
    | none => simp [hparse] at hr
    | some wi =>
      simp only [hparse, Except.ok.injEq] at hr ⊢
      exact ⟨_, rfl, hr ▸ hinsert _ _⟩
  | delete =>
    simp only [Txn.replayRecord] at hr ⊢
    cases hparse : WAL.deserializeDeletePayload payload with
    | none => simp [hparse] at hr
    | some di =>
      simp only [hparse, Except.ok.injEq] at hr ⊢
      exact ⟨_, rfl, hr ▸ hinsert _ _⟩
  | _ =>
    cases hr
    exact ⟨s', rfl, h⟩

/-- One turn succeeds beside one that does. -/
theorem Beside.recoverTxn {records : List WALRecord} {cts : Timestamp} {m m' m₁ : TxnManager}
    {T : TxnId} (h : Beside ws cts m m') (hm : recoverTxn records m T = .ok m₁) :
    ∃ m₁', recoverTxn records m' T = .ok m₁' ∧ Beside ws cts m₁ m₁' := by
  unfold Txn.recoverTxn at hm ⊢
  cases hlast : lastRecord records T with
  | none =>
    rw [hlast] at hm
    cases hm
    exact ⟨m', rfl, h⟩
  | some last =>
    obtain ⟨type, i⟩ := last
    rw [hlast] at hm
    cases type with
    | commit =>
      dsimp only at hm ⊢
      split at hm
      · cases hm
      · obtain ⟨store, hstore, heq⟩ := exists_of_bind_eq_ok hm
        cases heq
        rw [forTxn_eq] at hstore ⊢
        obtain ⟨store', hstore', hadds⟩ := foldlM_rel (R := AddsOnly ws cts) h.2
          (by intro r _ s s' s₁ hs hr; exact hs.replayRecord hr) hstore
        rw [hstore']
        exact ⟨_, rfl, h.1, hadds⟩
    | prepare =>
      dsimp only at hm ⊢
      split at hm
      · cases hm
      · obtain ⟨t, ht, hrest⟩ := exists_of_bind_eq_ok hm
        obtain ⟨locks, hlocks, heq⟩ := exists_of_bind_eq_ok hrest
        cases heq
        rw [← h.1] at hlocks
        rw [ht]
        simp only [bind, Except.bind, hlocks]
        exact ⟨_, rfl, rfl, h.2⟩
    | _ =>
      cases hm
      exact ⟨m', rfl, h⟩

/-- **Recovery replays the writes of the transaction last**, if it succeeds without them. -/
theorem Committed.recover {cts : Timestamp} {r₀ : TxnManager} (h : Committed m₀ snap cts ws m)
    (hnew : content m₀.wal.records m₀.nextTxnId = []) (htidy : ∀ w ∈ ws, w.Tidy)
    (hrecover : m₀.crash.recover = .ok r₀) :
    ∃ m' s, m.crash.recover = .ok m' ∧ m'.store = applyAll s cts ws ∧
      AddsOnly ws cts r₀.store s := by
  let t : Transaction := ⟨m₀.nextTxnId, snap, cts, .prepared, ws, [], []⟩
  have hown : content m.wal.records m₀.nextTxnId =
      t.records ++ [(.commit, WAL.serializeCommitPayload cts)] := by
    rw [h.log.content, hnew, nil_append]
    simp [t, Transaction.records]
  obtain ⟨n, hlast, hpayload, hinit⟩ := lastRecord_of_content hown
  have hturn : ∀ m' : TxnManager, recoverTxn m.wal.records m' m₀.nextTxnId =
      .ok { m' with store := applyAll m'.store cts ws } := by
    intro m'
    simp only [recoverTxn, hlast, hpayload, WAL.deserializeCommitPayload_serialize, forTxn_eq, hinit,
      replay_records (t := t) rfl htidy]
    rfl
  let start (m : TxnManager) : TxnManager :=
    { m.crash with nextTxnId := maxTxnId m.wal.records + 1 }
  have hstart : Beside ws cts (start m₀) (start m) := by
    refine ⟨rfl, ?_⟩
    show AddsOnly ws cts m₀.store m.store
    rw [h.store]
    exact AddsOnly.applyAll fun _ hkey => .inl hkey
  have hturns : ∀ T ∈ txnOrder m₀.wal.records, ∀ r r' r₁, Beside ws cts r r' →
      recoverTxn m₀.wal.records r T = .ok r₁ →
        ∃ r₁', recoverTxn m.wal.records r' T = .ok r₁' ∧ Beside ws cts r₁ r₁' := by
    intro T hT r r' r₁ hr hrun
    have hne : T ≠ m₀.nextTxnId := by
      rintro rfl
      exact mem_txnOrder.mp hT hnew
    rw [h.log.recoverTxn_eq hne]
    exact hr.recoverTxn hrun
  obtain ⟨r, hr, -, hadds⟩ := foldlM_rel hstart hturns hrecover
  refine ⟨{ r with store := applyAll r.store cts ws }, r.store, ?_, rfl, hadds⟩
  show (txnOrder m.wal.records).foldlM (recoverTxn m.wal.records) (start m) = _
  rw [h.log.txnOrder_eq (by simp) hnew, foldlM_append, hr, ← hturn r]
  exact bind_pure (recoverTxn m.wal.records r m₀.nextTxnId)

/-! ## The own view -/

/-- A read of a later transaction. -/
theorem read_later (m : TxnManager) (snap : Timestamp) (tb : TableId) (k : Bytes) (hf : 3 ≤ fuel) :
    ∃ m', m.serveAll fuel [.begin snap, .read m.nextTxnId tb k] =
      some (m', [⟨.ok, some m.nextTxnId, [], []⟩, replyOfGet (MVCCStore.get m.store tb k snap)]) := by
  obtain ⟨m', hread⟩ := TxnManager.serve_read (m := m.begun snap) (update_self _ _ _) rfl tb k hf
  refine ⟨m', ?_⟩
  rw [TxnManager.serveAll_cons (m.serve_begin snap hf), TxnManager.serveAll_cons hread]
  rfl

/-- What is read after the writes of a commit, if nobody wrote the row at a later timestamp up
to the snapshot: the last write, unless that wrote the tombstone byte. -/
theorem replyOfGet_applyAll_iff {cts : Timestamp} {bw : BufferedWrite}
    (hfree : MVCCStore.PrefixFree (applyAll store cts ws)) (hbw : latestBuffered ws tb k = some bw)
    (hle : cts ≤ snap)
    (hlater : ∀ ts, cts < ts → ts ≤ snap → MVCCStore.version store tb k ts = none) :
    replyOfGet (MVCCStore.get (applyAll store cts ws) tb k snap) = bw.reply ↔
      ¬ (bw.isDelete = false ∧ bw.value = tombstone) := by
  have hnewest : MVCCStore.Newest (applyAll store cts ws) tb k snap cts bw.stored := by
    refine ⟨?_, hle, fun ts hlt hts => ?_⟩
    · rw [applyAll, version_foldl_apply, if_pos rfl, lastWrite, hbw]
      rfl
    · rw [applyAll, version_foldl_apply, if_neg (fun heq => UInt64.lt_irrefl _ (heq ▸ hlt))]
      exact hlater ts hlt hts
  cases hd : bw.isDelete with
  | true =>
    have hstored : bw.stored = tombstone := by simp [BufferedWrite.stored, hd]
    rw [hstored] at hnewest
    rw [hnewest.get_tombstone]
    simp [replyOfGet, BufferedWrite.reply, hd]
  | false =>
    have hstored : bw.stored = bw.value := by simp [BufferedWrite.stored, hd]
    rw [hstored] at hnewest
    by_cases hv : bw.value = tombstone
    · rw [hv] at hnewest
      rw [hnewest.get_tombstone]
      simp [replyOfGet, BufferedWrite.reply, hd, hv, Reply.of, Status.notFound, Status.ok]
    · rw [hfree.get_iff.mpr ⟨hnewest, StoreCall.isTombstone_eq_false_iff.mpr hv⟩]
      simp [replyOfGet, BufferedWrite.reply, hd, hv]

/-- **What a transaction reads of a row it has written is what is read of it later.**  A
transaction makes any changes in any manager in which nobody else holds the locks of its rows,
and whose log can be recovered and has committed nothing that the store does not have.  It
reads one of the rows, prepares and commits; then a later transaction reads the row, and, after
a crash and `Recover`, so does another one.  The three replies are the same exactly if the last
change of the row was not the write of the tombstone byte. -/
theorem own_view_iff {m₀ r₀ : TxnManager} {changes : List Change} (snap : Timestamp)
    {cts snap' : Timestamp} {tb : TableId} {k : Bytes} {bw : BufferedWrite} {fuel : ℕ}
    (hkeys : KeysApart m₀.store (changes.map Change.buffered))
    (hlast : latestBuffered (changes.map Change.buffered) tb k = some bw)
    (hlocks : ∀ c ∈ changes, m₀.lockMgr.owner c.buffered.lockKey = 0)
    (hnew : content m₀.wal.records m₀.nextTxnId = [])
    (hrecover : m₀.crash.recover = .ok r₀)
    (hstored : ∀ key, r₀.store.find key ≠ none → m₀.store.find key ≠ none)
    (hsize : ∀ c ∈ changes, c.buffered.key.length < 2 ^ 32 ∧ c.buffered.value.length < 2 ^ 32)
    (hle : cts ≤ snap')
    (hlater : ∀ ts, cts < ts → ts ≤ snap' → MVCCStore.version m₀.store tb k ts = none)
    (hf : changes.length + 4 ≤ fuel) :
    ∃ m₁ m₂ m₂' m₃ m₃' inside later recovered,
      m₀.serveAll fuel (.begin snap :: changes.map (Change.op m₀.nextTxnId)) =
        some (m₁, ⟨.ok, some m₀.nextTxnId, [], []⟩ :: changes.map fun _ => .of .ok) ∧
      m₁.serve fuel (.read m₀.nextTxnId tb k) = some (m₁, inside) ∧
      m₁.serveAll fuel [.prepare m₀.nextTxnId cts, .commit m₀.nextTxnId cts] =
        some (m₂, [.of .ok, .of .ok]) ∧
      m₂.serveAll fuel [.begin snap', .read m₂.nextTxnId tb k] =
        some (m₂', [⟨.ok, some m₂.nextTxnId, [], []⟩, later]) ∧
      m₂.crash.recover = .ok m₃ ∧
      m₃.serveAll fuel [.begin snap', .read m₃.nextTxnId tb k] =
        some (m₃', [⟨.ok, some m₃.nextTxnId, [], []⟩, recovered]) ∧
      (later = inside ∧ recovered = inside ↔ ¬ (bw.isDelete = false ∧ bw.value = tombstone)) := by
  have hf3 : 3 ≤ fuel := by omega
  obtain ⟨m₁, hm₁, h₁⟩ := (Writing.begun m₀ snap).changes hlocks (show 2 ≤ fuel by omega)
  rw [nil_append] at h₁
  obtain ⟨m₂, hm₂, h₂⟩ := h₁.commit cts (by simpa using hf)
  have htidy : ∀ w ∈ changes.map Change.buffered, w.Tidy := by
    intro w hw
    obtain ⟨c, hc, rfl⟩ := mem_map.mp hw
    refine ⟨(hsize c hc).1, (hsize c hc).2, ?_⟩
    cases c with
    | write => exact fun hd => nomatch hd
    | delete => exact fun _ => rfl
  obtain ⟨m₃, s, hm₃, hstore₃, hadds⟩ := h₂.recover hnew htidy hrecover
  obtain ⟨m₂', hm₂'⟩ := read_later m₂ snap' tb k hf3
  obtain ⟨m₃', hm₃'⟩ := read_later m₃ snap' tb k hf3
  obtain ⟨t, ht, hact, -, hws, -⟩ := h₁.txn
  have hinside := TxnManager.serve_read_own ht hact (hws ▸ hlast) (show 1 ≤ fuel by omega)
  refine ⟨m₁, m₂, m₂', m₃, m₃', bw.reply, _, _, ?_, hinside, hm₂, hm₂', hm₃, hm₃', ?_⟩
  · rw [TxnManager.serveAll_cons (m₀.serve_begin snap hf3), hm₁]
    rfl
  · -- recovery puts the writes into a store that has no other new keys
    have hadds : AddsOnly (changes.map Change.buffered) cts m₀.store s := fun key hkey =>
      (hadds key hkey).imp_left (hstored key)
    have hlater' : ∀ ts, cts < ts → ts ≤ snap' → MVCCStore.version s tb k ts = none := by
      intro ts hlt hts
      by_contra hne
      rcases hadds _ hne with hold | ⟨w, -, heq⟩
      · exact hold (hlater ts hlt hts)
      · obtain ⟨-, -, rfl⟩ := encodeKey_inj heq
        exact UInt64.lt_irrefl _ hlt
    have hfirst := hkeys.mono (show AddsOnly _ cts _ _ from AddsOnly.applyAll fun _ hkey => .inl hkey)
    rw [hstore₃, h₂.store, replyOfGet_applyAll_iff hfirst.prefixFree hlast hle hlater,
      replyOfGet_applyAll_iff (hkeys.mono hadds.applyAll).prefixFree hlast hle hlater']
    exact and_self_iff

/-- A row is written twice and another one is deleted. -/
def twoRows : List Change := [.write 7 [1] [8], .delete 7 [2], .write 7 [1] [9]]

/-- One of the rows is committed already, and a transaction is prepared. -/
def usedManager : TxnManager :=
  ((TxnManager.empty.serveAll 9 [.begin 1, .write 1 7 [1] [5], .prepare 1 2, .commit 1 2,
    .begin 2, .write 2 7 [3] [6], .prepare 2 4]).map Prod.fst).getD .empty

theorem own_view_twoRows :
    ∃ m₁ m₂ m₂' m₃ m₃' r,
      usedManager.serveAll 9 (.begin 3 :: twoRows.map (Change.op 3)) =
        some (m₁, ⟨.ok, some 3, [], []⟩ :: twoRows.map fun _ => .of .ok) ∧
      m₁.serve 9 (.read 3 7 [1]) = some (m₁, r) ∧
      m₁.serveAll 9 [.prepare 3 5, .commit 3 5] = some (m₂, [.of .ok, .of .ok]) ∧
      m₂.serveAll 9 [.begin 6, .read m₂.nextTxnId 7 [1]] =
        some (m₂', [⟨.ok, some m₂.nextTxnId, [], []⟩, r]) ∧
      m₂.crash.recover = .ok m₃ ∧
      m₃.serveAll 9 [.begin 6, .read m₃.nextTxnId 7 [1]] =
        some (m₃', [⟨.ok, some m₃.nextTxnId, [], []⟩, r]) := by
  have hid : usedManager.nextTxnId = 3 := by decide +kernel
  have hentries : usedManager.store.entries = [(encodeKey 7 [1] 2, [5])] := by decide +kernel
  have hversion : ∀ tb k ts, MVCCStore.version usedManager.store tb k ts ≠ none →
      tb = 7 ∧ k = [1] ∧ ts = 2 := by
    intro tb k ts hne
    obtain ⟨v, hv⟩ := Option.ne_none_iff_exists'.mp hne
    have hin := (SortedMap.find_eq_some_iff _).mp hv
    rw [hentries, mem_singleton] at hin
    exact encodeKey_inj (congrArg Prod.fst hin)
  have hkeys : KeysApart usedManager.store (twoRows.map Change.buffered) := by
    have hknown : ∀ tb k, KnownKey usedManager.store (twoRows.map Change.buffered) tb k →
        k = [1] ∨ k = [2] := by
      rintro tb k (⟨ts, hts⟩ | ⟨w, hw, rfl, rfl⟩)
      · exact .inl (hversion tb k ts hts).2.1
      · revert w
        decide
    refine ⟨fun e he => ⟨7, [1], 2, ?_⟩, fun tb k k' hk hk' => ?_⟩
    · rw [hentries, mem_singleton] at he
      rw [he]
    · rcases hknown tb k hk with rfl | rfl <;> rcases hknown tb k' hk' with rfl | rfl <;> decide
  have hrecovered : usedManager.crash.recover.toOption.map (fun r => r.store.entries) =
      some usedManager.store.entries := by decide +kernel
  obtain ⟨r₀, hr₀, hsame⟩ := Option.map_eq_some_iff.mp hrecovered
  have hrecover : usedManager.crash.recover = .ok r₀ := by
    cases h : usedManager.crash.recover with
    | error e => simp [h, Except.toOption] at hr₀
    | ok r => simpa [h, Except.toOption] using hr₀
  have hstored : ∀ key, r₀.store.find key ≠ none → usedManager.store.find key ≠ none := by
    intro key
    rw [SortedMap.find, hsame]
    exact id
  have hlast : latestBuffered (twoRows.map Change.buffered) 7 [1] = some ⟨7, [1], [9], false⟩ := by
    decide
  have hlater : ∀ ts, (5 : Timestamp) < ts → ts ≤ 6 →
      MVCCStore.version usedManager.store 7 [1] ts = none := by
    intro ts hlt _
    by_contra hne
    obtain ⟨-, -, rfl⟩ := hversion 7 [1] ts hne
    exact absurd hlt (by decide)
  obtain ⟨m₁, m₂, m₂', m₃, m₃', inside, later, recovered, h1, h2, h3, h4, h5, h6, hiff⟩ :=
    own_view_iff 3 hkeys hlast (by decide +kernel) (by decide +kernel) hrecover hstored (by decide)
      (by decide) hlater (show twoRows.length + 4 ≤ 9 by decide)
  rw [hid] at h1 h2 h3
  obtain ⟨rfl, rfl⟩ := hiff.mpr (by decide)
  exact ⟨m₁, m₂, m₂', m₃, m₃', recovered, h1, h2, h3, h4, h5, h6⟩

/-- The value of one zero byte is read inside the transaction, and is gone after its commit. -/
theorem tombstone_value_is_lost :
    (TxnManager.empty.serveAll 9 [.begin 1, .write 1 7 [1] [0], .read 1 7 [1], .prepare 1 2,
        .commit 1 2, .begin 3, .read 2 7 [1]]).map Prod.snd =
      some [⟨.ok, some 1, [], []⟩, .of .ok, ⟨.ok, none, [0], []⟩, .of .ok, .of .ok,
        ⟨.ok, some 2, [], []⟩, .of .notFound] := by
  decide +kernel

end TransDb.Txn
