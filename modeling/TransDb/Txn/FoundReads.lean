import TransDb.Txn.Sessions

/-!
# The rows that reads find

A read or scan gets versions from the store, enters them in the read set, and reports them
to its client.  What is known of every version that is fetched is known of every row that
was reported, unless it is an own write.

* `Call.fetches` — the versions that a call gets from the store in its next step.
* `ReadFrom` — the reported value is an own write, or comes from a version in the read set.
* `Finding` — the invariant; `Finding.step` **carries what is known of the versions over to
  the rows that were found.**
-/

namespace TransDb.Txn

open List Function Storage

/-! ## Versions and rows -/

/-- The versions that a call gets from the store in its next step. -/
def Call.fetches (store : MVCCStore) : Call → List (TableId × ScanRow)
  | .readStore _ tb k ts =>
    match MVCCStore.get store tb k ts with
    | some (v, vts) => [(tb, ⟨k, v, vts⟩)]
    | none => []
  | .scanStore _ r ts _ => (MVCCStore.scan store r ts).map fun row => (r.tableId, row)
  | _ => []

theorem Call.version_of_fetches {store : MVCCStore} {c : Call} {x : TableId × ScanRow}
    (h : x ∈ c.fetches store) :
    MVCCStore.version store x.1 x.2.pk x.2.writeTs = some x.2.value := by
  cases c with
  | readStore T tb k ts =>
    simp only [Call.fetches] at h
    cases hg : MVCCStore.get store tb k ts with
    | none =>
      rw [hg] at h
      cases h
    | some vv =>
      rw [hg] at h
      obtain rfl := mem_singleton.mp h
      exact (MVCCStore.get_eq_some hg).1
  | scanStore T r ts ws =>
    obtain ⟨row, hrow, rfl⟩ := mem_map.mp h
    exact (MVCCStore.mem_scan hrow).1
  | _ => cases h

/-- The read is in the read set of the transaction. -/
def HasRead {ι : Type*} (phase : TxnId → Phase ι) (T : TxnId) (r : ReadEntry) : Prop :=
  ∃ t, (phase T).archived = some t ∧ r ∈ t.readSet

/-- A row with this value is the last own write of it, or a version with `P` that the
transaction has in its read set. -/
def ReadFrom {ι : Type*} (P : TableId → Bytes → Timestamp → Bytes → Prop)
    (phase : TxnId → Phase ι) (T : TxnId) (own : List BufferedWrite) (tb : TableId) (k v : Bytes) :
    Prop :=
  match latestBuffered own tb k with
  | some w => w.isDelete = false ∧ v = w.value
  | none => ∃ ts, P tb k ts v ∧ HasRead phase T ⟨tb, k, ts⟩

/-- What a read or scan in progress has found so far. -/
def ReadCallFrom {ι : Type*} (P : TableId → Bytes → Timestamp → Bytes → Prop)
    (phase : TxnId → Phase ι) : Call → Prop
  | .readStore T tb k _ => latestBuffered (writesOf (phase T).archived) tb k = none
  | .readRecord T tb k v ts => latestBuffered (writesOf (phase T).archived) tb k = none ∧
      P tb k ts v
  | .scanStore T _ _ ws => writesOf (phase T).archived = ws
  | .scanRow T tb ws rest out => writesOf (phase T).archived = ws ∧
      (∀ row ∈ rest, P tb row.pk row.writeTs row.value) ∧
      ∀ e ∈ out, ReadFrom P phase T ws tb e.1 e.2
  | _ => True

/-- All rows that reads have found so far come from versions with `P`. -/
structure Finding (P : TableId → Bytes → Timestamp → Bytes → Prop) (s : Clients)
    (phase : TxnId → Phase ThreadId) : Prop where
  reading : ∀ th op c, s.threads.calls th = some (op, c) → ReadCallFrom P phase c
  found : ∀ T x, x ∈ foundReads T s.threads.history →
    ReadFrom P phase T x.own x.tableId x.key x.value

theorem Move.readSet_mono {ι : Type*} {i : ι} {T : TxnId} {c : Call} {s s' : MVCCStore}
    {p p' : Phase ι} (h : Move i T c s p s' p') {t : Transaction} (ht : p.archived = some t)
    {r : ReadEntry} (hr : r ∈ t.readSet) : ∃ t', p'.archived = some t' ∧ r ∈ t'.readSet := by
  cases h with
  | draw | log | insert | drawImport | logImport | insertImport => cases ht
  | read | scanRow =>
    cases ht
    exact ⟨_, rfl, mem_append_left _ hr⟩
  | write | prepare =>
    cases ht
    exact ⟨_, rfl, hr⟩
  | _ => exact ⟨t, ht, hr⟩

section Update

variable {ι : Type*} {P P' : TableId → Bytes → Timestamp → Bytes → Prop} {phase : TxnId → Phase ι}
  {i : ι} {T : TxnId} {c : Call} {st st' : MVCCStore} {p : Phase ι}

theorem HasRead.update (hmove : Move i T c st (phase T) st' p) {T' : TxnId} {r : ReadEntry}
    (h : HasRead phase T' r) : HasRead (update phase T p) T' r := by
  refine update_mono (P := fun p : Phase ι => ∃ t, p.archived = some t ∧ r ∈ t.readSet) ?_ h
  rintro - ⟨t, ht, hr⟩
  exact hmove.readSet_mono ht hr

variable (hmove : Move i T c st (phase T) st' p) (hP : ∀ tb k ts v, P tb k ts v → P' tb k ts v)
include hmove hP

theorem ReadFrom.update {T' : TxnId} {own : List BufferedWrite} {tb : TableId} {k v : Bytes}
    (h : ReadFrom P phase T' own tb k v) : ReadFrom P' (update phase T p) T' own tb k v := by
  unfold ReadFrom at h ⊢
  cases hown : latestBuffered own tb k with
  | some w =>
    rw [hown] at h
    exact h
  | none =>
    rw [hown] at h
    obtain ⟨ts, hts, hread⟩ := h
    exact ⟨ts, hP tb k ts v hts, hread.update hmove⟩

/-- Steps that leave the write set of the reader alone keep what it has found. -/
theorem ReadCallFrom.update {c' : Call} (h : ReadCallFrom P phase c') {op : Op}
    (hserves : c'.Serves op) (hkeep : ∀ T', op.txnId = some T' →
      writesOf (update phase T p T').archived = writesOf (phase T').archived) :
    ReadCallFrom P' (update phase T p) c' := by
  cases c' with
  | readStore T' tb k ts =>
    have hsame := hkeep T' (by rw [show op = _ from hserves]; rfl)
    show latestBuffered _ tb k = none
    rw [hsame]
    exact h
  | readRecord T' tb k v ts =>
    have hsame := hkeep T' (by rw [show op = _ from hserves]; rfl)
    refine ⟨?_, hP _ _ _ _ h.2⟩
    rw [hsame]
    exact h.1
  | scanStore T' r ts ws =>
    exact (hkeep T' (by rw [show op = _ from hserves]; rfl)).trans h
  | scanRow T' tb ws rest out =>
    obtain ⟨r, hop, -⟩ := hserves
    refine ⟨(hkeep T' (by rw [hop]; rfl)).trans h.1, ?_, ?_⟩
    · exact fun row hrow => hP _ _ _ _ (h.2.1 row hrow)
    · exact fun e he => (h.2.2 e he).update hmove hP
  | _ => trivial

end Update

/-! ## Steps -/

section Steps

variable {P P' : TableId → Bytes → Timestamp → Bytes → Prop} {s : Clients}
  {phase : TxnId → Phase ThreadId} {th : ThreadId} {op : Op} {c : Call} {timedOut : Bool}
  {m : TxnManager} {o : Outcome} {T : TxnId} {p : Phase ThreadId}

/-- The write set of a live transaction. -/
theorem Sessions.writesOf_live (h : Sessions s phase) {t : Transaction}
    (ht : s.threads.mgr.txns T = some t) : writesOf (phase T).archived = t.writeSet := by
  rw [h.follows.sim.live ht]
  rfl

variable {calls : ThreadId → Option Call} {T' : TxnId} {r : Reply}

/-- A read that was just recorded is in the read set. -/
theorem hasRead_of_recorded {t : Transaction} {r : ReadEntry}
    (hsim : Sim (m.setTxn T (some { t with readSet := t.readSet ++ [r] })) calls phase) :
    HasRead phase T r := by
  have htxn := hsim.txns T
  simp only [TxnManager.setTxn, update_self] at htxn
  exact ⟨_, Phase.archived_of_txn htxn.symm, mem_append_right _ (mem_singleton.mpr rfl)⟩

/-- What a read or scan has found after a step. -/
theorem Finding.reading_next (h : Finding P s phase) (hsessions : Sessions s phase)
    (hc : s.threads.calls th = some (op, c)) (hs : c.step s.threads.mgr timedOut = some (m, o))
    (hP : ∀ tb k ts v, P tb k ts v → P' tb k ts v)
    (hfetch : ∀ x ∈ c.fetches s.threads.mgr.store, P' x.1 x.2.pk x.2.writeTs x.2.value)
    (hmove : Move th T c s.threads.mgr.store (phase T) m.store p)
    (hsim : Sim m calls (update phase T p)) {c' : Call} (hnext : o.next = some c') :
    ReadCallFrom P' (update phase T p) c' := by
  have hread := h.reading th op c hc
  have hsame : ∀ T', (∀ w, c ≠ .buffer T' w) →
      writesOf (update phase T p T').archived = writesOf (phase T').archived :=
    fun _ hne => hsessions.writesOf_same hc hmove hne
  cases Call.steps hs with
  | @read T' tb k t ht hb =>
    cases hnext
    show latestBuffered _ tb k = none
    rw [hsame T' (by simp), hsessions.writesOf_live ht]
    exact hb
  | @readFound T' tb k ts v vts hg =>
    cases hnext
    refine ⟨?_, hfetch (tb, ⟨k, v, vts⟩) (by simp [Call.fetches, hg])⟩
    rw [hsame T' (by simp)]
    exact hread
  | scan ht =>
    cases hnext
    exact (hsame _ (by simp)).trans (hsessions.writesOf_live ht)
  | @scanStore T' r ts ws =>
    cases hnext
    refine ⟨(hsame T' (by simp)).trans hread, ?_, by simp⟩
    exact fun row hrow => hfetch (r.tableId, row) (mem_map_of_mem hrow)
  | @scanOwn T' tb ws row rest out bw hb =>
    cases hnext
    obtain ⟨hws, hrest, hout⟩ := hread
    refine ⟨(hsame T' (by simp)).trans hws,
      fun row' hrow' => hP _ _ _ _ (hrest row' (mem_cons_of_mem _ hrow')), ?_⟩
    intro e he
    by_cases hd : bw.isDelete = true
    · rw [if_pos hd] at he
      exact (hout e he).update hmove hP
    · rw [if_neg hd] at he
      rcases mem_append.mp he with he | he
      · exact (hout e he).update hmove hP
      · obtain rfl := mem_singleton.mp he
        unfold ReadFrom
        simp only [hb, and_true]
        simpa using hd
  | @scanRow T' tb ws row rest out t hb ht hact =>
    cases hnext
    obtain ⟨hws, hrest, hout⟩ := hread
    refine ⟨(hsame T' (by simp)).trans hws,
      fun row' hrow' => hP _ _ _ _ (hrest row' (mem_cons_of_mem _ hrow')), ?_⟩
    intro e he
    rcases mem_append.mp he with he | he
    · exact (hout e he).update hmove hP
    · obtain rfl := mem_singleton.mp he
      unfold ReadFrom
      simp only [hb]
      exact ⟨row.writeTs, hP _ _ _ _ (hrest row mem_cons_self), hasRead_of_recorded hsim⟩
  | _ => cases hnext <;> trivial

theorem ne_ok_of_checkActive {e : Status} (h : checkActive m T = .error e) :
    e ≠ .ok := by
  rcases checkActive_error h with rfl | rfl <;> decide

section

variable (h : Finding P s phase) (hsessions : Sessions s phase)
include h hsessions

/-- What a read returns. -/
theorem Finding.read_done {tb : TableId} {k : Bytes}
    (hc : s.threads.calls th = some (.read T' tb k, c))
    (hs : c.step s.threads.mgr timedOut = some (m, .done r)) (hok : r.status = .ok)
    (hP : ∀ tb k ts v, P tb k ts v → P' tb k ts v) (hsim : Sim m calls (update phase T p)) :
    ReadFrom P' (update phase T p) T' (writesOf (phase T').archived) tb k r.value := by
  have hserves := hsessions.serves th _ c hc
  have hread := h.reading th _ c hc
  cases Call.steps hs with
  | readRefused hk => exact absurd hok (ne_ok_of_checkActive hk)
  | readMissing | recordLate => cases hok
  | @readOwn _ _ _ t bw ht hb =>
    cases hserves
    unfold ReadFrom
    rw [hsessions.writesOf_live ht, hb]
    by_cases hd : bw.isDelete = true
    · rw [if_pos hd] at hok
      cases hok
    · rw [if_neg hd]
      exact ⟨by simpa using hd, rfl⟩
  | @record _ _ _ v vts =>
    cases hserves
    obtain ⟨hnone, hvalue⟩ := hread
    unfold ReadFrom
    rw [hnone]
    exact ⟨vts, hP _ _ _ _ hvalue, hasRead_of_recorded hsim⟩
  | beginInsert =>
    obtain ⟨ts, hop⟩ := hserves
    cases hop
  | scanEnd | scanLate =>
    obtain ⟨range, hop, -⟩ := hserves
    cases hop
  | abortUnknown | releaseKeys => cases hserves.2.1
  | _ => cases hserves

/-- What a scan returns. -/
theorem Finding.scan_done {range : ScanRange} (hc : s.threads.calls th = some (.scan T' range, c))
    (hs : c.step s.threads.mgr timedOut = some (m, .done r)) (hok : r.status = .ok)
    (hP : ∀ tb k ts v, P tb k ts v → P' tb k ts v)
    (hmove : Move th T c s.threads.mgr.store (phase T) m.store p) :
    ∀ e ∈ r.rows, ReadFrom P' (update phase T p) T' (writesOf (phase T').archived)
      range.tableId e.1 e.2 := by
  have hserves := hsessions.serves th _ c hc
  have hread := h.reading th _ c hc
  cases Call.steps hs with
  | scanRefused hk => exact absurd hok (ne_ok_of_checkActive hk)
  | scanLate => cases hok
  | scanEnd =>
    obtain ⟨range', hop, htb⟩ := hserves
    cases hop
    subst htb
    intro e he
    rw [hread.1]
    exact (hread.2.2 e he).update hmove hP
  | beginInsert =>
    obtain ⟨ts, hop⟩ := hserves
    cases hop
  | abortUnknown | releaseKeys => cases hserves.2.1
  | _ => cases hserves

/-- The rows that a reply reports. -/
theorem Finding.found_done (hc : s.threads.calls th = some (op, c))
    (hs : c.step s.threads.mgr timedOut = some (m, .done r))
    (hP : ∀ tb k ts v, P tb k ts v → P' tb k ts v)
    (hmove : Move th T c s.threads.mgr.store (phase T) m.store p)
    (hsim : Sim m calls (update phase T p)) {x : FoundRead}
    (hx : x ∈ Event.found T' (ownWrites T' s.threads.history) (.returned th op r)) :
    ReadFrom P' (update phase T p) T' x.own x.tableId x.key x.value := by
  rw [hsessions.own T'] at hx
  cases op with
  | read t tb k =>
    simp only [Event.found] at hx
    split_ifs at hx with hcond
    · obtain ⟨rfl, hok⟩ := hcond
      obtain rfl := mem_singleton.mp hx
      exact h.read_done hsessions hc hs hok hP hsim
    · cases hx
  | scan t range =>
    simp only [Event.found] at hx
    split_ifs at hx with hcond
    · obtain ⟨rfl, hok⟩ := hcond
      obtain ⟨e, he, rfl⟩ := mem_map.mp hx
      exact h.scan_done hsessions hc hs hok hP hmove e he
    · cases hx
  | _ => cases hx

end

theorem Finding.init : Finding P Clients.init (fun _ => .unborn) where
  reading := fun _ _ _ h => by cases h
  found := fun _ _ h => by cases h

theorem Finding.enter (h : Finding P s phase) (snapshot : ThreadId → Option Timestamp) :
    Finding P { s with threads := s.threads.enter th op, snapshot := snapshot } phase := by
  refine ⟨?_, fun T x hx => h.found T x hx⟩
  intro j op' c' hj
  rcases Threads.calls_enter_cases hj with ⟨-, -, rfl⟩ | ⟨-, hj⟩
  · cases op <;> trivial
  · exact h.reading j op' c' hj

/-- **A step keeps what is known of the rows that were found**, if it is known of the versions
that are fetched. -/
theorem Finding.step (h : Finding P s phase) (hsessions : Sessions s phase)
    (hc : s.threads.calls th = some (op, c)) (hs : c.step s.threads.mgr timedOut = some (m, o))
    (hmove : Move th T c s.threads.mgr.store (phase T) m.store p)
    (hsim : Sim m calls (update phase T p)) (hP : ∀ tb k ts v, P tb k ts v → P' tb k ts v)
    (hfetch : ∀ x ∈ c.fetches s.threads.mgr.store, P' x.1 x.2.pk x.2.writeTs x.2.value)
    (snapshot : ThreadId → Option Timestamp) :
    Finding P' { s with threads := s.threads.after th op m o, snapshot := snapshot }
      (update phase T p) := by
  have hserves := hsessions.serves th op c hc
  refine ⟨?_, ?_⟩
  · intro j op' c' hj
    rcases Threads.calls_after_cases hj with ⟨-, -, rfl⟩ | ⟨hjt, hj⟩
    · exact h.reading_next hsessions hc hs hP hfetch hmove hsim rfl
    · -- the driver of a reader is not the one that writes now
      refine (h.reading j op' c' hj).update hmove hP (hsessions.serves j op' c' hj) ?_
      intro T' hT'
      refine hsessions.writesOf_same hc hmove ?_
      rintro w rfl
      have hdrives := hsessions.driven th op _ T' hc (Op.txnId_of_asWrite hserves).1
      exact hjt (hsessions.driver j th T' (hsessions.driven j op' c' T' hj hT') hdrives)
  · intro T' x hx
    have hx : x ∈ foundReads T' (s.threads.after th op m o).history := hx
    cases o with
    | more c' => exact (h.found T' x hx).update hmove hP
    | done r =>
      rcases mem_append.mp hx with hnew | hold
      · exact h.found_done hsessions hc hs hP hmove hsim hnew
      · exact (h.found T' x hold).update hmove hP

end Steps

end TransDb.Txn
