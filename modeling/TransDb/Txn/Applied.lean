import Mathlib.Data.List.Induction
import TransDb.Txn.LifeCycle

/-!
# What commits put into the store

A commit writes its buffered writes one after the other, so a version in the store
is always the last write of its row among those that some transaction has put so far.

* `lastWrite`, `version_foldl_apply` — what a list of writes does to the versions.
* `Phase.applied` — the writes a transaction has put into the store so far.
* `StoreSim` — **the versions in the store are just those writes**, as long as commits
  have different timestamps; `StoreSim.step` keeps it.
-/

namespace TransDb.Txn

open List Function Storage

/-! ## Lists of writes -/

/-- What `ApplyWrites` puts into the store for a write. -/
def BufferedWrite.stored (w : BufferedWrite) : Bytes := if w.isDelete then tombstone else w.value

theorem BufferedWrite.apply_eq (w : BufferedWrite) (s : MVCCStore) (cts : Timestamp) :
    w.apply s cts = MVCCStore.put s w.tableId w.key cts w.stored := by
  unfold BufferedWrite.apply BufferedWrite.stored
  cases w.isDelete <;> rfl

/-- The value that the last of a list of writes leaves for a row. -/
def lastWrite (writes : List BufferedWrite) (tableId : TableId) (key : Bytes) : Option Bytes :=
  (latestBuffered writes tableId key).map BufferedWrite.stored

theorem lastWrite_append (ws : List BufferedWrite) (w : BufferedWrite) (tb : TableId) (k : Bytes) :
    lastWrite (ws ++ [w]) tb k =
      if w.tableId = tb ∧ w.key = k then some w.stored else lastWrite ws tb k := by
  unfold lastWrite latestBuffered
  rw [reverse_append, reverse_singleton, singleton_append, find?_cons]
  by_cases h : w.tableId = tb ∧ w.key = k
  · simp [h]
  · simp [h]

variable {ws : List BufferedWrite} {ts : Timestamp} {t : Transaction} {T : TxnId} {c : Call}

theorem mem_of_lastWrite {tb : TableId} {k v : Bytes} (h : lastWrite ws tb k = some v) :
    ∃ w ∈ ws, w.tableId = tb ∧ w.key = k ∧ w.stored = v := by
  obtain ⟨w, hw, hstored⟩ := Option.map_eq_some_iff.mp h
  have hrow : w.tableId = tb ∧ w.key = k := by simpa using find?_some hw
  exact ⟨w, mem_reverse.mp (mem_of_find?_eq_some hw), hrow.1, hrow.2, hstored⟩

theorem version_apply (w : BufferedWrite) (s : MVCCStore) (cts : Timestamp) (tb : TableId)
    (k : Bytes) (ts : Timestamp) :
    MVCCStore.version (w.apply s cts) tb k ts =
      if (w.tableId = tb ∧ w.key = k) ∧ ts = cts then some w.stored
      else MVCCStore.version s tb k ts := by
  rw [BufferedWrite.apply_eq, MVCCStore.version_put]
  by_cases h : tb = w.tableId ∧ k = w.key ∧ ts = cts
  · obtain ⟨rfl, rfl, rfl⟩ := h
    simp
  · rw [if_neg h, if_neg]
    rintro ⟨⟨rfl, rfl⟩, rfl⟩
    exact h ⟨rfl, rfl, rfl⟩

/-- What a list of writes does to the versions: the last write of a row counts. -/
theorem version_foldl_apply (ws : List BufferedWrite) (s : MVCCStore) (cts : Timestamp)
    (tb : TableId) (k : Bytes) (ts : Timestamp) :
    MVCCStore.version (ws.foldl (fun s w => w.apply s cts) s) tb k ts =
      if ts = cts then (lastWrite ws tb k).or (MVCCStore.version s tb k ts)
      else MVCCStore.version s tb k ts := by
  induction ws using reverseRecOn with
  | nil => simp [lastWrite, latestBuffered]
  | append_singleton ws w ih =>
    rw [foldl_append, foldl_cons, foldl_nil, version_apply, lastWrite_append, ih]
    by_cases hts : ts = cts
    · by_cases hw : w.tableId = tb ∧ w.key = k
      · simp [hts, hw]
      · simp [hts, hw]
    · simp [hts]

theorem keys_foldl_apply (ws : List BufferedWrite) {s : MVCCStore}
    (hs : ∀ e ∈ s.entries, ∃ tb k ts, e.1 = encodeKey tb k ts) (cts : Timestamp) :
    ∀ e ∈ (ws.foldl (fun s w => w.apply s cts) s).entries, ∃ tb k ts, e.1 = encodeKey tb k ts := by
  induction ws generalizing s with
  | nil => exact hs
  | cons w ws ih =>
    have hput := MVCCStore.put_keys hs w.tableId w.key cts w.stored
    rw [← BufferedWrite.apply_eq] at hput
    exact ih hput

/-! ## The store follows the phases -/

/-- The timestamp of a commit and the writes it has put into the store so far. -/
def Phase.applied {ι : Type*} : Phase ι → Option (Timestamp × List BufferedWrite)
  | .committing _ t ts rest => some (ts, t.writeSet.take (t.writeSet.length - rest.length))
  | .committed t ts => some (ts, t.writeSet)
  | _ => none

/-- The transaction and the timestamp of a commit, from its beginning on. -/
def Phase.commitOf {ι : Type*} : Phase ι → Option (Transaction × Timestamp)
  | .committing _ t ts _ => some (t, ts)
  | .committed t ts => some (t, ts)
  | _ => none

variable {ι : Type*} {p : Phase ι}

theorem Phase.commitOf_of_applied (h : p.applied = some (ts, ws)) :
    ∃ t, p.commitOf = some (t, ts) := by
  cases p with
  | committing i t ts' rest =>
    cases h
    exact ⟨t, rfl⟩
  | committed t ts' =>
    cases h
    exact ⟨t, rfl⟩
  | _ => cases h

theorem Phase.applied_subset (h : p.applied = some (ts, ws)) :
    ∃ t, p.archived = some t ∧ ws ⊆ t.writeSet := by
  cases p with
  | committing i t ts' rest =>
    cases h
    exact ⟨t, rfl, (take_sublist _ _).subset⟩
  | committed t ts' =>
    cases h
    exact ⟨t, rfl, fun w hw => hw⟩
  | _ => cases h

theorem Phase.archived_of_commitOf (h : p.commitOf = some (t, ts)) :
    p.archived = some t := by
  cases p with
  | committing | committed =>
    cases h
    rfl
  | _ => cases h

variable {s s' : MVCCStore}

/-- A commit that has begun is not taken back. -/
theorem Move.commitOf_mono {i : ι} {p p' : Phase ι}
    (h : Move i T c s p s' p') {x : Transaction × Timestamp} (hx : p.commitOf = some x) :
    p'.commitOf = some x := by
  cases h with
  | stay | put | close => exact hx
  | _ => cases hx

/-- A commit begins with the call that asks for it. -/
theorem Move.commitOf_cases {i : ι} {p p' : Phase ι}
    (h : Move i T c s p s' p') (hx : p'.commitOf = some (t, ts)) :
    p.commitOf = some (t, ts) ∨ c = .commit T ts := by
  cases h with
  | stay | put | close => exact .inl hx
  | commit =>
    cases hx
    exact .inr rfl
  | _ => cases hx

/-- What a step does to the writes in the store. -/
theorem Move.applied {i : ι} {p p' : Phase ι} (h : Move i T c s p s' p') (hok : p.Ok) :
    (s' = s ∧ p'.applied = p.applied) ∨
    (∃ ts, c = .commit T ts ∧ s' = s ∧ p.applied = none ∧ p'.applied = some (ts, [])) ∨
    (∃ ts ws w, s' = w.apply s ts ∧ p.applied = some (ts, ws) ∧
      p'.applied = some (ts, ws ++ [w])) := by
  cases h with
  | commit s ts ht => exact .inr (.inl ⟨ts, rfl, rfl, rfl, by simp [Phase.applied]⟩)
  | put s t ts w rest =>
    obtain ⟨-, done, hdone⟩ := hok
    refine .inr (.inr ⟨ts, done, w, rfl, ?_, ?_⟩)
    · simp [Phase.applied, ← hdone]
    · have hsplit : t.writeSet = (done ++ [w]) ++ rest := by simp [← hdone]
      simp only [Phase.applied]
      rw [hsplit, length_append, Nat.add_sub_cancel, take_left]
  | close s t ts => exact .inl ⟨rfl, by simp [Phase.applied]⟩
  | _ => exact .inl ⟨rfl, rfl⟩

/-- The versions in the store are the writes of the commits. -/
structure StoreSim {ι : Type*} (s : MVCCStore) (phase : TxnId → Phase ι) : Prop where
  version : ∀ tb k ts v, MVCCStore.version s tb k ts = some v ↔
    ∃ T ws, (phase T).applied = some (ts, ws) ∧ lastWrite ws tb k = some v
  keys : ∀ e ∈ s.entries, ∃ tb k ts, e.1 = encodeKey tb k ts
  distinct : ∀ T T' ts ws ws', (phase T).applied = some (ts, ws) →
    (phase T').applied = some (ts, ws') → T = T'

section

variable {phase : TxnId → Phase ι}

theorem StoreSim.init : StoreSim (ι := ι) SortedMap.empty (fun _ => .unborn) where
  version := fun tb k ts v => by
    simp [MVCCStore.version, SortedMap.find_empty, Phase.applied]
  keys := fun e he => by cases he
  distinct := fun _ _ _ _ _ h => by cases h

theorem StoreSim.congr (h : StoreSim s phase) {phase' : TxnId → Phase ι}
    (heq : ∀ T, (phase' T).applied = (phase T).applied) : StoreSim s phase' where
  version := by simpa only [heq] using h.version
  keys := h.keys
  distinct := by simpa only [heq] using h.distinct

/-- **A step keeps the versions in step with the commits**, if a commit that begins
takes a timestamp of its own. -/
theorem StoreSim.step (h : StoreSim s phase) {i : ι} {p : Phase ι}
    (hmove : Move i T c s (phase T) s' p) (hok : (phase T).Ok)
    (hfresh : ∀ ts, c = .commit T ts → ∀ T' ws, (phase T').applied = some (ts, ws) → T' = T) :
    StoreSim s' (update phase T p) := by
  -- the other transactions stay where they are
  have hother : ∀ {T'}, T' ≠ T → update phase T p T' = phase T' :=
    fun hne => update_of_ne hne _ _
  have hself : update phase T p T = p := update_self _ _ _
  rcases hmove.applied hok with ⟨rfl, heq⟩ | ⟨ts, rfl, rfl, hnone, heq⟩ | ⟨ts, ws, w, rfl, hold, heq⟩
  · refine h.congr fun T' => ?_
    by_cases hT : T' = T
    · rw [hT, hself, heq]
    · rw [hother hT]
  · refine ⟨?_, h.keys, ?_⟩
    · intro tb k ts' v
      rw [h.version]
      constructor
      · rintro ⟨T', ws, happ, hw⟩
        have hT : T' ≠ T := by
          rintro rfl
          rw [hnone] at happ
          cases happ
        exact ⟨T', ws, by rw [hother hT]; exact happ, hw⟩
      · rintro ⟨T', ws, happ, hw⟩
        by_cases hT : T' = T
        · rw [hT, hself, heq] at happ
          cases happ
          cases hw
        · rw [hother hT] at happ
          exact ⟨T', ws, happ, hw⟩
    · intro T1 T2 ts' ws ws' h1 h2
      by_cases hT1 : T1 = T
      · by_cases hT2 : T2 = T
        · rw [hT1, hT2]
        · rw [hT1, hself, heq] at h1
          rw [hother hT2] at h2
          cases h1
          exact hT1.trans (hfresh ts rfl T2 ws' h2).symm
      · by_cases hT2 : T2 = T
        · rw [hT2, hself, heq] at h2
          rw [hother hT1] at h1
          cases h2
          exact (hfresh ts rfl T1 ws h1).trans hT2.symm
        · rw [hother hT1] at h1
          rw [hother hT2] at h2
          exact h.distinct T1 T2 ts' ws ws' h1 h2
  · -- before and after the put, the same transactions have the same timestamps
    have hback : ∀ {T' ts' ws'}, (update phase T p T').applied = some (ts', ws') →
        ∃ ws0, (phase T').applied = some (ts', ws0) := by
      intro T' ts' ws' happ
      by_cases hT : T' = T
      · rw [hT, hself, heq] at happ
        cases happ
        exact ⟨ws, hT ▸ hold⟩
      · rw [hother hT] at happ
        exact ⟨ws', happ⟩
    refine ⟨?_, ?_, ?_⟩
    · intro tb k ts' v
      rw [version_apply]
      by_cases hts : ts' = ts
      · subst hts
        -- only `T` commits at this timestamp
        have honly : (∃ T' ws', (update phase T p T').applied = some (ts', ws') ∧
            lastWrite ws' tb k = some v) ↔ lastWrite (ws ++ [w]) tb k = some v := by
          constructor
          · rintro ⟨T', ws', happ, hw⟩
            obtain ⟨ws0, hws0⟩ := hback happ
            obtain rfl := h.distinct _ _ _ _ _ hws0 hold
            rw [hself, heq] at happ
            cases happ
            exact hw
          · intro hw
            exact ⟨T, ws ++ [w], by rw [hself, heq], hw⟩
        have hbefore : MVCCStore.version s tb k ts' = some v ↔ lastWrite ws tb k = some v := by
          rw [h.version]
          constructor
          · rintro ⟨T', ws', happ, hw⟩
            obtain rfl := h.distinct _ _ _ _ _ happ hold
            rw [hold] at happ
            cases happ
            exact hw
          · intro hw
            exact ⟨T, ws, hold, hw⟩
        rw [honly, lastWrite_append]
        by_cases hrow : w.tableId = tb ∧ w.key = k
        · simp [hrow]
        · simp [hrow, hbefore]
      · rw [if_neg (fun hand => hts hand.2), h.version]
        refine exists_congr fun T' => exists_congr fun ws' => and_congr_left fun _ => ?_
        by_cases hT : T' = T
        · rw [hT, hself, heq, hold]
          constructor
          · intro heq'
            cases heq'
            exact absurd rfl hts
          · intro heq'
            cases heq'
            exact absurd rfl hts
        · rw [hother hT]
    · rw [BufferedWrite.apply_eq]
      exact MVCCStore.put_keys h.keys _ _ _ _
    · intro T1 T2 ts' ws1 ws2 h1 h2
      obtain ⟨ws1', h1'⟩ := hback h1
      obtain ⟨ws2', h2'⟩ := hback h2
      exact h.distinct T1 T2 ts' ws1' ws2' h1' h2'

end

/-! ## Commits in the log -/

/-- The log has a `COMMIT` record of the transaction at this timestamp. -/
def CommitIn (records : List WALRecord) (T : TxnId) (ts : Timestamp) : Prop :=
  (WALRecordType.commit, WAL.serializeCommitPayload ts) ∈ content records T

/-- The records of a transaction that is not over. -/
theorem Transaction.type_of_mem_records {r : WALRecordType × Bytes} (h : r ∈ t.records) :
    r.1 ≠ .commit ∧ r.1 ≠ .abort ∧ (r.1 = .prepare → t.state = .prepared) := by
  unfold Transaction.records at h
  rcases mem_append.mp h with h | h
  · rcases mem_cons.mp h with rfl | h
    · simp
    · obtain ⟨w, -, rfl⟩ := mem_map.mp h
      unfold BufferedWrite.record
      split_ifs <;> simp
  · split_ifs at h with hp
    · obtain rfl := mem_singleton.mp h
      simp [hp]
    · cases h

/-- A `COMMIT` record belongs to a committed transaction. -/
theorem Phase.committed_of_mem_content {payload : Bytes}
    (h : (WALRecordType.commit, payload) ∈ p.content)
    (himp : ∀ i ts cts ws done, p ≠ .importing i ts cts ws done) :
    ∃ t ts, p = .committed t ts ∧ payload = WAL.serializeCommitPayload ts := by
  cases p with
  | unborn | drawn | logged => simp [Phase.content] at h
  | importing => exact absurd rfl (himp _ _ _ _ _)
  | live t | aborting _ t | committing _ t =>
    exact absurd rfl (Transaction.type_of_mem_records h).1
  | aborted t =>
    rcases mem_append.mp h with h | h
    · exact absurd rfl (Transaction.type_of_mem_records h).1
    · simp at h
  | committed t ts =>
    rcases mem_append.mp h with h | h
    · exact absurd rfl (Transaction.type_of_mem_records h).1
    · exact ⟨t, ts, rfl, by simpa using h⟩

/-- The log has a `COMMIT` record of the transactions that are committed. -/
theorem Sim.commitIn_iff {m : TxnManager} {calls : ι → Option Call}
    {phase : TxnId → Phase ι} (h : Sim m calls phase)
    (himp : ∀ T i ts cts ws done, phase T ≠ .importing i ts cts ws done) :
    CommitIn m.wal.records T ts ↔ ∃ t, phase T = .committed t ts := by
  unfold CommitIn
  rw [h.content T]
  constructor
  · intro hmem
    obtain ⟨t, ts', hp, hpay⟩ := Phase.committed_of_mem_content hmem (himp T)
    have := congrArg WAL.deserializeCommitPayload hpay
    simp only [WAL.deserializeCommitPayload_serialize, Option.some.injEq] at this
    exact ⟨t, by rw [hp, this]⟩
  · rintro ⟨t, hp⟩
    rw [hp]
    exact mem_append_right _ (mem_singleton.mpr rfl)

end TransDb.Txn
