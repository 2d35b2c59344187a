import TransDb.Txn.Validation

/-!
# Validated reads are serializable

A transaction that commits has validated its reads: at its commit timestamp the rows
still had the versions it had read.  That gives serializability in the order of the
timestamps if no writer below that timestamp was still hidden, and if no version was
read that the same commit put a second time.

* `Serial` — the invariant; `Serial.step` keeps it.
* `reads_serializable` — **every row found by a committed transaction is its own last
  write or the value of the last committed writer before it.**
* `read_misses_hidden_writer` — a run in which a read is not serializable.
-/

namespace TransDb.Txn

open Function Storage

/-! ## The invariant -/

/-- **The invariant** of the order. -/
structure Serial (s : Clients) (phase : TxnId → Phase ThreadId) : Prop where
  sessions : Sessions s phase
  reading : ∀ th op c, s.threads.calls th = some (op, c) → ReadCall phase c
  validated : ∀ T t, (phase T).archived = some t → t.state = .prepared →
    Sealed s.commitTs phase t
  found : ∀ T x, x ∈ foundReads T s.threads.history →
    ValueOk phase T x.own x.tableId x.key x.value

theorem Serial.init : Serial Clients.init (fun _ => .unborn) where
  sessions := Sessions.init
  reading := fun _ _ _ h => by cases h
  validated := fun _ _ h => by cases h
  found := fun _ _ h => by cases h

section Runs

variable {s : Clients} {phase : TxnId → Phase ThreadId} {th : ThreadId} {op : Op} {c : Call}
  {timedOut : Bool} {m : TxnManager} {o : Outcome} {T : TxnId} {p : Phase ThreadId}

/-- What reads have found so far. -/
theorem Serial.finding (h : Serial s phase) : Finding (FinalValue phase) s phase :=
  ⟨h.reading, h.found⟩

theorem Serial.enter (h : Serial s phase) (hth : s.threads.calls th = none)
    (hpermits : s.permits (.start th op) = true) (snapshot : ThreadId → Option Timestamp) :
    Serial { s with threads := s.threads.enter th op, snapshot := snapshot } phase :=
  have hfinding := h.finding.enter snapshot
  ⟨h.sessions.enter hth hpermits snapshot, hfinding.reading, h.validated, hfinding.found⟩

/-- Nothing is hidden from a transaction by a timestamp that is drawn after its own. -/
theorem Serial.draw (h : Serial s phase) (hclock : s.clock < s.clock + 1)
    (hdrives : s.threads.drives th T = true) (hidle : s.threads.calls th = none)
    (hnone : s.commitTs T = none) :
    Serial { s with
      clock := s.clock + 1
      commitTs := update s.commitTs T (some s.clock) } phase := by
  refine ⟨h.sessions.draw hclock hdrives hidle hnone, h.reading, ?_, h.found⟩
  intro T' t ht hp
  exact (h.validated T' t ht hp).draw T
    (h.sessions.drawn_lt T' _ (h.sessions.prepared T' t ht hp))

/-- Orderly steps fetch versions that are final. -/
theorem Sessions.fetches_final (h : Sessions s phase) (hc : s.threads.calls th = some (op, c))
    (horderly : s.orderly (.act (.step th timedOut)) = true) {x : TableId × ScanRow}
    (hx : x ∈ c.fetches s.threads.mgr.store) :
    FinalValue phase x.1 x.2.pk x.2.writeTs x.2.value := by
  refine h.final_of_version (Call.version_of_fetches hx) ?_
  simp only [Clients.orderly, Threads.pcs_eq_some hc] at horderly
  cases c with
  | readStore T tb k ts =>
    simp only [Call.fetches] at hx
    cases hg : MVCCStore.get s.threads.mgr.store tb k ts with
    | none =>
      rw [hg] at hx
      cases hx
    | some vv =>
      rw [hg] at hx
      obtain rfl := List.mem_singleton.mp hx
      simpa only [hg] using horderly
  | scanStore T r ts ws =>
    obtain ⟨row, hrow, rfl⟩ := List.mem_map.mp hx
    exact List.all_eq_true.mp horderly row hrow
  | _ => cases hx

theorem Serial.step (h : Serial s phase) (hc : s.threads.calls th = some (op, c))
    (hs : c.step s.threads.mgr timedOut = some (m, o))
    (horderly : s.orderly (.act (.step th timedOut)) = true) :
    ∃ phase', Serial { s with threads := s.threads.after th op m o } phase' := by
  obtain ⟨T, p, hmove, hsessions⟩ := h.sessions.step hc hs s.snapshot
  have hsim := hsessions.follows.sim
  simp only [Threads.mgr_after] at hsim
  have hfinding := h.finding.step h.sessions hc hs hmove hsim
    (fun tb k ts v hfinal => hfinal.update hmove)
    (fun x hx => (h.sessions.fetches_final hc horderly hx).update hmove) s.snapshot
  refine ⟨update phase T p, hsessions, hfinding.reading, ?_, hfinding.found⟩
  intro T' t
  refine h.sessions.sealed_step hc hmove (g := fun t => t) h.validated ?_
  rintro R t ts rfl hlive hts hv
  simp only [Clients.orderly, Threads.pcs_eq_some hc] at horderly
  exact h.sessions.seal hlive hts hv horderly

theorem run_serial {acts : List ClientAction}
    (hC : clients.Meets (fun s a => s.orderly a = true) clients.init acts)
    (h : clients.run acts = some s) : ∃ phase, Serial s phase := by
  refine Machine.inv_run_of_meets (I := fun s => ∃ phase, Serial s phase) ⟨_, Serial.init⟩ ?_ hC h
  rintro s a s' ⟨phase, hserial⟩ horderly hstep
  rcases Clients.step_cases hstep with
    ⟨th, -, hclock, rfl⟩ | ⟨th, T, -, hclock, hdrives, hidle, hnone, rfl⟩ |
    ⟨th, op, -, hth, hpermits, rfl⟩ | ⟨th, timedOut, op, c, m, o, rfl, hc, hs, rfl⟩
  · exact ⟨phase, hserial.sessions.drawSnapshot hclock _, hserial.reading, hserial.validated,
      hserial.found⟩
  · exact ⟨phase, hserial.draw hclock hdrives hidle hnone⟩
  · exact ⟨phase, hserial.enter hth hpermits _⟩
  · exact hserial.step hc hs horderly

/-- **Committed reads are serializable in the order of the commit timestamps**, in every
orderly run. -/
theorem reads_serializable {acts : List ClientAction}
    (hC : clients.Meets (fun s a => s.orderly a = true) clients.init acts)
    (h : clients.run acts = some s) :
    ∀ W ∈ s.threads.committed, ∀ x ∈ foundReads W.1 s.threads.history,
      s.threads.SerialRead W.2 x := by
  obtain ⟨phase, hserial⟩ := run_serial hC h
  have hsessions := hserial.sessions
  rintro ⟨T, c⟩ hT x hx
  obtain ⟨t, hcommit⟩ := hsessions.mem_committed.mp hT
  have harch := Phase.archived_of_commitOf hcommit
  have hprepared := hsessions.follows.sim.prepared_of_commitOf hcommit
  have hts : t.prepareCommitTs = c :=
    Option.some.inj ((hsessions.prepared T t harch hprepared).symm.trans
      (hsessions.commits T t c hcommit))
  have hvalue := hserial.found T x hx
  unfold ValueOk ReadFrom at hvalue
  unfold Threads.SerialRead
  cases hown : latestBuffered x.own x.tableId x.key with
  | some w =>
    rw [hown] at hvalue
    exact hvalue
  | none =>
    rw [hown] at hvalue
    obtain ⟨ts, ⟨W, tW, hW, hlast⟩, tr, htr, hr⟩ := hvalue
    obtain rfl : t = tr := Option.some.inj (harch.symm.trans htr)
    obtain ⟨hbelow, hnewest⟩ := hserial.validated T t harch hprepared _ hr
    rw [hts] at hbelow hnewest
    refine ⟨(W, ts), hsessions.mem_committed.mpr ⟨tW, hW⟩, hbelow, ?_, ?_⟩
    · rw [hsessions.wrote_of_commitOf hW]
      exact hlast
    · rintro ⟨W', ts'⟩ hW' hlt hwrites
      obtain ⟨tW', hcommit'⟩ := hsessions.mem_committed.mp hW'
      rw [hsessions.wrote_of_commitOf hcommit'] at hwrites
      exact hnewest W' tW' ts' (Phase.mayCommit_of_commitOf hcommit')
        (hsessions.commits W' tW' ts' hcommit') hlt (touches_of_lastWrite hwrites)

end Runs

/-- Another transaction reads the row that was committed, writes it and commits. -/
def readThenWrite : List ClientAction :=
  commitRow ++
    [.drawSnapshot 1] ++ clientCall 1 (.begin 3) 3 ++ clientCall 1 (.read 2 7 [1]) 3 ++
    clientCall 1 (.write 2 7 [1] [6]) 2 ++ [.drawCommit 1 2] ++ clientCall 1 (.prepare 2 4) 1 ++
    clientCall 1 (.commit 2 4) 5

theorem reads_serializable_readThenWrite :
    ∃ s, clients.run readThenWrite = some s ∧ (2, 4) ∈ s.threads.committed ∧
      ⟨[], 7, [1], [5]⟩ ∈ foundReads 2 s.threads.history ∧
      s.threads.SerialRead 4 ⟨[], 7, [1], [5]⟩ := by
  obtain ⟨s, hs, hcommitted, hfound⟩ : ∃ s, clients.run readThenWrite = some s ∧
      (2, 4) ∈ s.threads.committed ∧ ⟨[], 7, [1], [5]⟩ ∈ foundReads 2 s.threads.history := by
    decide +kernel
  exact ⟨s, hs, hcommitted, hfound,
    reads_serializable (by decide +kernel) hs (2, 4) hcommitted _ hfound⟩

/-- A transaction prepares a new value of the row; before it commits, another one with a
later timestamp reads the old value, is validated and commits. -/
def hiddenWriter : List ClientAction :=
  commitRow ++
    [.drawSnapshot 1] ++ clientCall 1 (.begin 3) 3 ++ clientCall 1 (.write 2 7 [1] [6]) 2 ++
    [.drawCommit 1 2] ++ clientCall 1 (.prepare 2 4) 1 ++
    [.drawSnapshot 2] ++ clientCall 2 (.begin 5) 3 ++ clientCall 2 (.read 3 7 [1]) 3 ++
    [.drawCommit 2 3] ++ clientCall 2 (.prepare 3 6) 1 ++ clientCall 2 (.commit 3 6) 4 ++
    clientCall 1 (.commit 2 4) 5

/-- **Validation can miss a writer**: the transaction with timestamp 6 read the value of
timestamp 2, though a transaction with timestamp 4 wrote the row. -/
theorem read_misses_hidden_writer :
    ∃ s, clients.run hiddenWriter = some s ∧ (3, 6) ∈ s.threads.committed ∧
      (2, 4) ∈ s.threads.committed ∧ s.threads.wrote 2 7 [1] = some [6] ∧
      ⟨[], 7, [1], [5]⟩ ∈ foundReads 3 s.threads.history ∧
      ¬ s.threads.SerialRead 6 ⟨[], 7, [1], [5]⟩ := by decide +kernel

end TransDb.Txn
