import TransDb.Raft.Segments

/-!
# Applying a log

`ApplyCommitted` hands one entry after the other to `Apply`, and nobody else calls the
manager.  `Apply` comes to the end of every entry, and the replica is then what the log
says: the versions of the committed segments are in its store, and what is in `txns_` are
the open segments.

* `Replica.applyEntry`, `Replica.applyLog` — entries and logs to their end.
* `Mapped` — what is in `txns_` is in the map of the state machine.
* `Applies` — all that holds while a log is applied; `Applies.move` **keeps it**.
* `applyLog_spec` — **a log is applied to its end.**
* `replica_computes_log` — **what a replica has then.**
-/

namespace TransDb.Raft

open Option List Function Storage Txn

/-! ## Entries to their end -/

/-- Go on with `Apply` until it is done with the entry. -/
def Replica.settle : ℕ → Replica → Option Replica
  | 0, R => if R.applying.isNone then some R else none
  | n + 1, R =>
    match R.applying with
    | none => some R
    | some a => (R.applyStep false a).bind (settle n)

/-- `Apply` of one entry. -/
def Replica.applyEntry (fuel : ℕ) (R : Replica) (e : RaftLogEntry) : Option Replica :=
  { R with applying := some (.entry e) }.settle fuel

/-- `ApplyCommitted`: one entry after the other. -/
def Replica.applyLog (fuel : ℕ) (R : Replica) (log : List RaftLogEntry) : Option Replica :=
  log.foldlM (Replica.applyEntry fuel) R

theorem Replica.settle_of_idle {R : Replica} (h : R.applying = none) (n : ℕ) :
    R.settle n = some R := by
  cases n with
  | zero => simp [settle, h]
  | succ n => simp [settle, h]

variable {R R' : Replica}

theorem Replica.settle_succ {a : Applying} (ha : R.applying = some a)
    (hs : R.applyStep false a = some R') (n : ℕ) : R.settle (n + 1) = R'.settle n := by
  simp [settle, ha, hs]

/-- More fuel does not change the end. -/
theorem Replica.settle_mono {n m : ℕ} (h : R.settle n = some R') (hnm : n ≤ m) :
    R.settle m = some R' := by
  induction n generalizing R m with
  | zero =>
    simp only [settle] at h
    split_ifs at h with hidle
    cases h
    exact settle_of_idle (isNone_iff_eq_none.mp hidle) m
  | succ n ih =>
    cases ha : R.applying with
    | none =>
      rw [settle_of_idle ha] at h ⊢
      exact h
    | some a =>
      obtain ⟨m, rfl⟩ := Nat.exists_eq_succ_of_ne_zero (Nat.ne_zero_of_lt hnm)
      simp only [settle, ha] at h ⊢
      obtain ⟨R1, hs, h⟩ := bind_eq_some_iff.mp h
      rw [hs, bind_some]
      exact ih h (Nat.le_of_succ_le_succ hnm)

theorem Replica.applyLog_mono {log : List RaftLogEntry} {n m : ℕ}
    (h : R.applyLog n log = some R') (hnm : n ≤ m) : R.applyLog m log = some R' := by
  induction log generalizing R with
  | nil => exact h
  | cons e log ih =>
    simp only [applyLog, foldlM_cons] at h ⊢
    obtain ⟨R1, hs, h⟩ := bind_eq_some_iff.mp h
    have hs' : R.applyEntry m e = some R1 := settle_mono hs hnm
    rw [bind_eq_bind, hs', bind_some]
    exact ih h

theorem Replica.applyLog_concat {R R1 : Replica} {log : List RaftLogEntry} {n : ℕ}
    (h : R.applyLog n log = some R1) (e : RaftLogEntry) :
    R.applyLog n (log ++ [e]) = R1.applyEntry n e := by
  simp only [applyLog] at h ⊢
  rw [foldlM_append, h]
  simp

/-- The steps that are left for the entry. -/
def Replica.stepsLeft (R : Replica) : ℕ :=
  match R.applying with
  | none => 0
  | some (.entry e) => ((R.applyCommand e.command).inCall.map (Call.stepsLeft R.mgr)).getD 0 + 2
  | some (.run _ c _) => c.stepsLeft R.mgr + 1
  | some _ => 1

/-! ## What is in `txns_` -/

/-- What is in `txns_` is in the map of the state machine, or will be; what a decision
takes out of the map it has removed before. -/
structure Mapped (R : Replica) : Prop where
  live : ∀ l, R.mgr.txns l ≠ none →
    (∃ T, R.sm.txnIdMap T = some l) ∨ ∃ T, R.applying = some (.setImported T l)
  gone : ∀ T c l, R.applying = some (.run T c .decided) → c.isCheck = false →
    R.sm.txnIdMap T = some l → R.mgr.txns l = none

theorem Mapped.init : Mapped .empty where
  live := fun _ h => absurd rfl h
  gone := fun _ _ _ h => by cases h

section Moves

variable {log : List RaftLogEntry} {T : RaftTxnId} {l : TxnId} {c : Call} {timedOut : Bool}

theorem check_cases (h : c.isCheck = true) (hl : c.target = some l) :
    (∃ ts, c = .commit l ts) ∨ ∃ e, c = .abort l e := by
  cases c with
  | commit l' ts =>
    cases hl
    exact .inl ⟨ts, rfl⟩
  | abort l' e =>
    cases hl
    exact .inr ⟨e, rfl⟩
  | _ => cases h

/-- A check that goes on has removed the transaction. -/
theorem check_removes (h : c.isCheck = true) (hl : c.target = some l) {m m' : TxnManager}
    {c' : Call} (hs : c.step m timedOut = some (m', .more c')) : m'.txns l = none := by
  rcases check_cases h hl with ⟨ts, rfl⟩ | ⟨e, rfl⟩
  · simp only [Call.step] at hs
    repeat' split at hs
    all_goals cases hs
    exact update_self ..
  · simp only [Call.step] at hs
    split at hs
    · cases hs
    · cases hs
      exact update_self ..

/-- The check of a decision goes on if the transaction is prepared. -/
theorem Prepared.check_more {b : PrepareBatch} (hp : Prepared R l b) (h : c.isCheck = true)
    (hl : c.target = some l) {m : TxnManager} {o : Outcome}
    (hs : c.step R.mgr timedOut = some (m, o)) : ∃ c', o = .more c' := by
  rcases check_cases h hl with ⟨ts, rfl⟩ | ⟨e, rfl⟩
  · exact ⟨_, hp.commit_step hs⟩
  · obtain ⟨t, ht, -⟩ := hp
    simp only [Call.step, ht] at hs
    cases hs
    exact ⟨_, rfl⟩

/-- The call of a decision works on the transaction in the map. -/
theorem Applying.Runs.target {cmd : Command} {map : RaftTxnId → Option TxnId}
    (h : (Applying.run T c .decided).Runs map cmd) (hl : map T = some l) : c.target = some l := by
  obtain ⟨l', hl', ⟨-, hserves⟩ | ⟨ts, -, hserves⟩⟩ := h
  · cases hl.symm.trans hl'
    exact hserves.target
  · cases hl.symm.trans hl'
    exact hserves.target

/-- **A move of the Raft thread keeps `txns_` in the map.** -/
theorem Mapped.move (h : Mapped R) (hon : OnLog log R) (hst : ∀ T, Standing log R T)
    (hm : RaftMove log R R') : Mapped R' := by
  cases hm with
  | start hidle he =>
    refine ⟨?_, fun T c l ha => by cases ha⟩
    intro l hl
    rcases h.live l hl with hmap | ⟨T, ha⟩
    · exact .inl hmap
    · rw [hidle] at ha
      cases ha
  | @step a _ ha hstep =>
    obtain ⟨-, hruns⟩ := hon.runs a ha
    -- while an entry is looked at everything is in the map
    have hlive : (∀ T l, a ≠ .setImported T l) → ∀ l, R.mgr.txns l ≠ none →
        ∃ T, R.sm.txnIdMap T = some l := by
      intro hne l hl
      rcases h.live l hl with hmap | ⟨T, ha'⟩
      · exact hmap
      · rw [ha] at ha'
        exact absurd (some.inj ha') (hne T l)
    cases hstep with
    | skip | unknown | present | «import» =>
      exact ⟨fun l hl => .inl (hlive (by simp) l hl), fun T c l ha' => by cases ha'⟩
    | @decide e T l op hcmd hmap =>
      refine ⟨fun l hl => .inl (hlive (by simp) l hl), ?_⟩
      intro T' c l' ha' hcheck
      cases ha'
      rcases hcmd with ⟨-, rfl⟩ | ⟨ts, -, rfl⟩ <;> cases hcheck
    | @more T c c' next R1 timedOut hcall =>
      obtain ⟨m, hs, rfl⟩ := Replica.call_eq hcall
      refine ⟨?_, ?_⟩
      · intro l hl
        rcases Call.txns_before hs hl with hold | ⟨r, hr, -⟩
        · exact .inl (hlive (by simp) l hold)
        · cases hr
      · intro T' c'' l ha' hcheck hmap
        cases ha'
        by_cases hc : c.isCheck = true
        · exact check_removes hc (hruns.target hmap) hs
        · have hnone := h.gone T c l ha (Bool.eq_false_iff.mpr hc) hmap
          by_contra hl
          rcases Call.txns_before hs hl with hold | ⟨r, hr, -⟩
          · exact hold hnone
          · cases hr
    | @imported T c r R1 timedOut hcall =>
      obtain ⟨m, hs, rfl⟩ := Replica.call_eq hcall
      refine ⟨?_, fun T c l ha' => by cases ha'⟩
      intro l hl
      rcases Call.txns_before hs hl with hold | ⟨r', hr, hrl⟩
      · exact .inl (hlive (by simp) l hold)
      · cases hr
        exact .inr ⟨T, by rw [hrl]; rfl⟩
    | @decided T c r R1 timedOut hcall =>
      obtain ⟨m, hs, rfl⟩ := Replica.call_eq hcall
      refine ⟨?_, fun T c l ha' => by cases ha'⟩
      -- what the entry takes out of the map is not in `txns_` any more
      have hgone : ∀ l, R.sm.txnIdMap T = some l → R.mgr.txns l = none := by
        intro l hmap
        by_cases hc : c.isCheck = true
        · have htarget := hruns.target hmap
          cases hst T with
          | settled hagrees =>
            obtain ⟨b, -, hp⟩ := hagrees.isSome hmap
            obtain ⟨c', hmore⟩ := hp.check_more hc htarget hs
            cases hmore
          | closing hrun hpast =>
            rw [ha] at hrun
            cases hrun
            rw [hc] at hpast
            cases hpast
        · exact h.gone T c l ha (Bool.eq_false_iff.mpr hc) hmap
      intro l hl
      rcases Call.txns_before hs hl with hold | ⟨r', hr, hrl⟩
      · obtain ⟨T', hmap⟩ := hlive (by simp) l hold
        have hT : T' ≠ T := by
          rintro rfl
          exact hold (hgone l hmap)
        exact .inl ⟨T', (update_of_ne hT ..).trans hmap⟩
      · cases hr
        -- a decision makes no transaction
        have hserves : ∃ op, c.Serves op ∧ op.txnId ≠ none := by
          obtain ⟨l', -, ⟨-, hserves⟩ | ⟨ts, -, hserves⟩⟩ := hruns
          · exact ⟨_, hserves, by simp [Op.txnId]⟩
          · exact ⟨_, hserves, by simp [Op.txnId]⟩
        obtain ⟨op, hserves, hop⟩ := hserves
        rw [← hserves.target] at hop
        rcases (c.step_returns hs hrl).2 with ⟨ts, rfl⟩ | ⟨ts, cts, ws, rfl⟩ <;> exact absurd rfl hop
    | @register T l =>
      refine ⟨?_, fun T c l ha' => by cases ha'⟩
      intro l' hl'
      rcases h.live l' hl' with ⟨T', hmap⟩ | ⟨T', ha'⟩
      · have hT : T' ≠ T := by
          rintro rfl
          cases hst T' with
          | settled hagrees _ himport =>
            have hnone := himport _ ha rfl
            rw [hnone] at hagrees
            cases hmap.symm.trans hagrees
          | closing hrun =>
            rw [ha] at hrun
            cases hrun
        exact .inl ⟨T', (update_of_ne hT ..).trans hmap⟩
      · rw [ha] at ha'
        cases ha'
        exact .inl ⟨T, update_self ..⟩

end Moves

/-! ## Applying a log -/

/-- All that holds of a replica while a log is applied to it. -/
structure Applies (log : List RaftLogEntry) (R : Replica) : Prop where
  onLog : OnLog log R
  ok : ∃ phase, ReplicaOk R (fun _ : Option Empty => R.inCall) phase
  standing : ∀ T, Standing log R T
  puts : PutsAgree log R
  mapped : Mapped R

theorem Applies.init (log : List RaftLogEntry) : Applies log .empty where
  onLog := OnLog.init log
  ok := ⟨_, ReplicaOk.init⟩
  standing := Standing.init log
  puts := fun j hj => absurd hj (Nat.not_lt_zero j)
  mapped := Mapped.init

section Apply

variable {log : List RaftLogEntry} {a : Applying}

theorem Applies.move (h : Applies log R) (hm : RaftMove log R R')
    (hok : ∃ phase, ReplicaOk R' (fun _ : Option Empty => R'.inCall) phase) : Applies log R' := by
  obtain ⟨phase, hphase⟩ := h.ok
  exact {
    onLog := h.onLog.move hm
    ok := hok
    standing := fun T => (h.standing T).move h.onLog hphase hm
    puts := h.puts.move h.onLog hphase (fun T _ _ => h.standing T) hm
    mapped := h.mapped.move h.onLog h.standing hm }

/-- The next entry. -/
theorem Applies.start (h : Applies log R) (hidle : R.applying = none) {e : RaftLogEntry}
    (he : log[R.lastApplied]? = some e) : Applies log { R with applying := some (.entry e) } := by
  obtain ⟨phase, hok⟩ := h.ok
  refine h.move (.start hidle he) ⟨phase, ?_, rfl, hok.known, hok.map, ?_⟩
  · have hcall : R.inCall = none := by simp [Replica.inCall, hidle]
    have hsim := hok.sim
    rw [hcall] at hsim
    exact hsim
  · rintro a ⟨⟩
    trivial

/-- A step of `Apply`. -/
theorem Applies.step (h : Applies log R) (ha : R.applying = some a)
    (hplain : (commandAt log R.lastApplied).plain = true) (hs : R.applyStep false a = some R') :
    Applies log R' := by
  obtain ⟨phase, hok⟩ := h.ok
  refine h.move (.step ha (.of hs (h.onLog.runs a ha).2 hplain)) ?_
  obtain ⟨⟨phase', hok'⟩, -⟩ := hok.apply ha hs
  refine ⟨phase', ?_⟩
  have hcalls : update (fun _ : Option Empty => R.inCall) none R'.inCall =
      fun _ => R'.inCall := by
    funext i
    rw [Subsingleton.elim i none, update_self]
  rw [hcalls] at hok'
  exact hok'

theorem Replica.stepsLeft_of_idle (h : R.applying = none) : R.stepsLeft = 0 := by
  simp [stepsLeft, h]

/-- The first step of an entry is the last, or `Apply` calls the manager. -/
theorem Replica.applyCommand_cases (R : Replica) (cmd : Command) :
    (∃ sm, R.applyCommand cmd = R.finish sm) ∨
      ∃ T op next, R.applyCommand cmd = R.enterCall T op next := by
  cases cmd with
  | skip | badPrepare => exact .inl ⟨_, rfl⟩
  | «begin» T ts => exact .inr ⟨T, _, _, rfl⟩
  | _ =>
    simp only [applyCommand]
    split
    all_goals first
      | exact .inl ⟨_, rfl⟩
      | exact .inr ⟨_, _, _, rfl⟩

theorem Replica.stepsLeft_applyCommand {e : RaftLogEntry} (ha : R.applying = some (.entry e)) :
    (R.applyCommand e.command).stepsLeft < R.stepsLeft := by
  have hleft : R.stepsLeft =
      ((R.applyCommand e.command).inCall.map (Call.stepsLeft R.mgr)).getD 0 + 2 := by
    simp only [stepsLeft, ha]
  rw [hleft]
  rcases R.applyCommand_cases e.command with ⟨sm, heq⟩ | ⟨T, op, next, heq⟩
  · rw [heq]
    exact Nat.succ_pos _
  · rw [heq]
    exact Nat.lt_succ_self _

/-- **`Apply` never waits**, and there is less to do after each step. -/
theorem Applies.goes_on (h : Applies log R) (ha : R.applying = some a) :
    ∃ R', R.applyStep false a = some R' ∧ R'.stepsLeft < R.stepsLeft := by
  obtain ⟨-, hruns⟩ := h.onLog.runs a ha
  cases a with
  | entry e => exact ⟨_, rfl, Replica.stepsLeft_applyCommand ha⟩
  | setImported T l =>
    refine ⟨_, rfl, ?_⟩
    rw [Replica.stepsLeft_of_idle (R := R.finish _) rfl]
    simp [Replica.stepsLeft, ha]
  | setPrepared => exact absurd hruns id
  | run T c next =>
    have hleft : R.stepsLeft = c.stepsLeft R.mgr + 1 := by simp only [Replica.stepsLeft, ha]
    have hserves : ∃ op, c.Serves op ∧ ((∃ l, op = .abort l) ∨ (∃ l ts, op = .commit l ts) ∨
        ∃ ts cts ws, op = .importPreparedTxn ts cts ws) ∧ (next = .imported ∨ next = .decided) := by
      cases next with
      | imported =>
        obtain ⟨b, -, -, hserves⟩ := hruns
        exact ⟨_, hserves, .inr (.inr ⟨_, _, _, rfl⟩), .inl rfl⟩
      | decided =>
        obtain ⟨l, -, ⟨-, hserves⟩ | ⟨ts, -, hserves⟩⟩ := hruns
        · exact ⟨_, hserves, .inl ⟨l, rfl⟩, .inr rfl⟩
        · exact ⟨_, hserves, .inr (.inl ⟨l, ts, rfl⟩), .inr rfl⟩
      | _ => exact absurd hruns id
    obtain ⟨op, hserves, hop, hnext⟩ := hserves
    obtain ⟨m, o, hs, hpos, hless⟩ := hserves.goes_on hop R.mgr
    have hcall : R.call T c false =
        some ({ R with mgr := m, begunFor := Replica.noteBegun R.begunFor T o }, o) := by
      simp only [Replica.call, hs, map_some]
    cases o with
    | more c' =>
      refine ⟨_, by simp only [Replica.applyStep, hcall]; rfl, ?_⟩
      rw [hleft]
      exact Nat.succ_lt_succ (hless c' rfl)
    | done r =>
      refine ⟨_, by simp only [Replica.applyStep, hcall]; rfl, ?_⟩
      rw [hleft]
      rcases hnext with rfl | rfl
      · exact Nat.succ_lt_succ hpos
      · exact Nat.succ_pos _

/-- **`Apply` comes to the end of its entry.** -/
theorem Applies.settles (h : Applies log R) (hbusy : R.applying ≠ none)
    (hplain : (commandAt log R.lastApplied).plain = true) {n : ℕ} (hn : R.stepsLeft ≤ n) :
    ∃ R', R.settle n = some R' ∧ Applies log R' ∧ R'.applying = none ∧
      R'.lastApplied = R.lastApplied + 1 := by
  induction n generalizing R with
  | zero =>
    obtain ⟨a, ha⟩ := ne_none_iff_exists'.mp hbusy
    obtain ⟨R1, -, hless⟩ := h.goes_on ha
    exact absurd (lt_of_lt_of_le hless hn) (Nat.not_lt_zero _)
  | succ n ih =>
    obtain ⟨a, ha⟩ := ne_none_iff_exists'.mp hbusy
    obtain ⟨R1, hs, hless⟩ := h.goes_on ha
    have h1 := h.step ha hplain hs
    have hsteps := ApplySteps.of hs (h.onLog.runs a ha).2 hplain
    rw [Replica.settle_succ ha hs]
    rcases hsteps.runs (h.onLog.runs a ha).2 with ⟨a', ha', hlast, -⟩ | ⟨hidle, hlast⟩
    · obtain ⟨R', hR', happ, hidle, hlast'⟩ := ih h1 (by rw [ha']; simp) (by rw [hlast]; exact hplain)
        (Nat.lt_succ_iff.mp (lt_of_lt_of_le hless hn))
      exact ⟨R', hR', happ, hidle, by rw [hlast', hlast]⟩
    · exact ⟨R1, Replica.settle_of_idle hidle n, h1, hidle, hlast⟩

/-- **A log is applied to its end**, whatever fuel there is beyond some bound. -/
theorem applyLog_spec {R₀ : Replica} (h : Applies log R₀) (hidle : R₀.applying = none)
    (hfirst : R₀.lastApplied = 0) (hplain : ∀ e ∈ log, e.command.plain = true) {k : ℕ}
    (hk : k ≤ log.length) :
    ∃ fuel R, (∀ n, fuel ≤ n → R₀.applyLog n (log.take k) = some R) ∧ Applies log R ∧
      R.applying = none ∧ R.lastApplied = k := by
  induction k with
  | zero => exact ⟨0, R₀, fun _ _ => rfl, h, hidle, hfirst⟩
  | succ k ih =>
    obtain ⟨fuel, R, hR, happ, hidle, hlast⟩ := ih (Nat.le_of_succ_le hk)
    have he : log[R.lastApplied]? = some log[k] := by
      rw [hlast]
      exact getElem?_eq_getElem hk
    have hcmd : (commandAt log R.lastApplied).plain = true := by
      rw [commandAt_of_eq he]
      exact hplain _ (getElem_mem hk)
    have hstart := happ.start hidle he
    obtain ⟨steps, hsteps⟩ : ∃ steps, Replica.stepsLeft { R with applying := some (.entry log[k]) } ≤
        steps := ⟨_, le_refl _⟩
    obtain ⟨R', hR', happ', hidle', hlast'⟩ :=
      hstart.settles (some_ne_none _) hcmd hsteps
    refine ⟨max fuel steps, R', ?_, happ', hidle', hlast'.trans (congrArg (· + 1) hlast)⟩
    intro n hn
    rw [take_succ_eq_append_getElem hk, Replica.applyLog_concat (hR n (le_of_max_le_left hn))]
    exact Replica.settle_mono hR' (le_of_max_le_right hn)

end Apply

/-! ## What a replica has computed -/

/-- The types of the entries that a shard proposes. -/
def RaftEntryType.proposed : RaftEntryType → Bool
  | .noop => true
  | .txnPrepareBatch => true
  | .txnCommit => true
  | .txnAbort => true
  | _ => false

theorem RaftLogEntry.command_plain {e : RaftLogEntry} (h : e.type.proposed = true) :
    e.command.plain = true := by
  cases htype : e.type with
  | noop => simp only [command, htype, Command.plain]
  | txnAbort =>
    simp only [command, htype]
    split_ifs <;> rfl
  | txnPrepareBatch =>
    simp only [command, htype]
    split <;> rfl
  | txnCommit =>
    simp only [command, htype]
    split
    · simp only [walCommand]
      split <;> rfl
    · rfl
  | _ => rw [htype] at h; cases h

/-- The replica has what the log says: the versions of the committed segments and no other
key, and a prepared transaction for every open segment and no other transaction. -/
structure Computes (log : List RaftLogEntry) (R : Replica) : Prop where
  versions : ∀ tb k ts v, MVCCStore.version R.mgr.store tb k ts = some v ↔
    ∃ T b j, CommittedAt log T ts b j ∧ lastWrite b.writes tb k = some v ∧
      ∀ T' b' j', j < j' → CommittedAt log T' ts b' j' → lastWrite b'.writes tb k = none
  keys : ∀ e ∈ R.mgr.store.entries, ∃ tb k ts, e.1 = encodeKey tb k ts
  prepared : ∀ T i b, OpenAt log T i b log.length → ∃ l, R.sm.txnIdMap T = some l ∧ Prepared R l b
  opened : ∀ l t, R.mgr.txns l = some t → ∃ T i b, OpenAt log T i b log.length ∧
    R.sm.txnIdMap T = some l ∧ Prepared R l b
  distinct : ∀ T T' l, R.sm.txnIdMap T = some l → R.sm.txnIdMap T' = some l → T = T'

section Computes

variable {log : List RaftLogEntry}

theorem CommittedAt.lt {T : RaftTxnId} {ts : Timestamp} {b : PrepareBatch} {j : ℕ}
    (h : CommittedAt log T ts b j) : j < log.length := by
  refine lt_of_commandAt ?_
  rw [h.1]
  simp

theorem keys_storeOf (ps : List (Timestamp × BufferedWrite)) :
    ∀ e ∈ (storeOf ps).entries, ∃ tb k ts, e.1 = encodeKey tb k ts := by
  induction ps using reverseRecOn with
  | nil => simp [storeOf, SortedMap.empty]
  | append_singleton ps p ih =>
    have happend : storeOf (ps ++ [p]) = p.2.apply (storeOf ps) p.1 := by
      simp [storeOf, foldl_append]
    rw [happend, BufferedWrite.apply_eq]
    exact MVCCStore.put_keys ih _ _ _ _

section

variable (h : Applies log R) (hidle : R.applying = none)
include h hidle

/-- Between two entries the store is what the log says. -/
theorem Applies.store_eq : R.mgr.store = storeOf (logPuts log R.lastApplied) := by
  have hputs : R.allPuts = logPuts log R.lastApplied := by
    rw [Replica.allPuts, range_succ, flatMap_append, flatMap_singleton,
      h.onLog.recorded.puts_of_idle hidle, append_nil]
    refine flatMap_congr ?_
    intro j hj
    exact h.puts j (mem_range.mp hj)
  rw [h.onLog.recorded.store, hputs]

/-- A log that is applied to its end has been computed. -/
theorem Applies.computes (hlast : R.lastApplied = log.length) : Computes log R := by
  have hagrees : ∀ T, Agrees R T (openBatches (log.take log.length) T) := by
    intro T
    rw [← hlast]
    exact (h.standing T).agrees hidle
  have hstore := h.store_eq hidle
  rw [hlast] at hstore
  refine ⟨?_, ?_, ?_, ?_, ?_⟩
  · intro tb k ts v
    rw [hstore, version_logPuts (le_refl _)]
    constructor
    · rintro ⟨T, b, j, -, hcom, hv, hafter⟩
      exact ⟨T, b, j, hcom, hv, fun T' b' j' hlt hcom' => hafter T' b' j' hlt hcom'.lt hcom'⟩
    · rintro ⟨T, b, j, hcom, hv, hafter⟩
      exact ⟨T, b, j, hcom.lt, hcom, hv, fun T' b' j' hlt _ hcom' => hafter T' b' j' hlt hcom'⟩
  · rw [hstore]
    exact keys_storeOf _
  · intro T i b hopen
    have hagree := hagrees T
    rw [(openBatches_iff (le_refl _)).mpr ⟨i, hopen⟩] at hagree
    exact hagree
  · intro l t ht
    rcases h.mapped.live l (by rw [ht]; simp) with ⟨T, hmap⟩ | ⟨T, ha⟩
    · obtain ⟨b, hb, hp⟩ := (hagrees T).isSome hmap
      obtain ⟨i, hopen⟩ := (openBatches_iff (le_refl _)).mp hb
      exact ⟨T, i, b, hopen, hmap, hp⟩
    · rw [hidle] at ha
      cases ha
  · intro T T' l hT hT'
    obtain ⟨phase, hok⟩ := h.ok
    exact some.inj ((hok.map T l hT).symm.trans (hok.map T' l hT'))

/-- A decision that finds no open segment. -/
theorem Applies.unknown {T : RaftTxnId}
    (hlt : R.lastApplied < log.length) (hdec : Decides log T R.lastApplied)
    (hnone : ∀ i b, ¬ OpenAt log T i b R.lastApplied) {n : ℕ} (hn : n ≠ 0) :
    R.applyEntry n log[R.lastApplied] = some { R with lastApplied := R.lastApplied + 1 } := by
  have hclosed : openBatches (log.take R.lastApplied) T = none := by
    cases hopen : openBatches (log.take R.lastApplied) T with
    | none => rfl
    | some b =>
      obtain ⟨i, hi⟩ := (openBatches_iff (Nat.le_of_lt hlt)).mp hopen
      exact absurd hi (hnone i b)
  have hagrees := (h.standing T).agrees hidle
  rw [hclosed] at hagrees
  have hmap : R.sm.txnIdMap T = none := hagrees
  have hcmd : commandAt log R.lastApplied = log[R.lastApplied].command :=
    commandAt_of_eq (getElem?_eq_getElem hlt)
  have hfinish : Replica.applyCommand { R with applying := some (.entry log[R.lastApplied]) }
      log[R.lastApplied].command = { R with lastApplied := R.lastApplied + 1 } := by
    rw [← hcmd]
    rcases hdec with hdec | ⟨ts, hdec⟩
    · simp only [hdec, Replica.applyCommand, hmap, Replica.finish, hidle]
    · simp only [hdec, Replica.applyCommand, hmap, Replica.finish, hidle]
  obtain ⟨n, rfl⟩ := Nat.exists_eq_succ_of_ne_zero hn
  rw [Replica.applyEntry, Replica.settle_succ rfl rfl, hfinish]
  exact Replica.settle_of_idle (R := { R with lastApplied := R.lastApplied + 1 }) hidle n

end

/-- **The replicated state machine computes the decided transactions.**  A log that is
applied to an empty replica leaves the versions of the segments that were committed, of
two with one timestamp the later, and a prepared transaction for each open segment; a
decision that finds no open segment changes nothing. -/
theorem replica_computes_log (log : List RaftLogEntry)
    (htypes : ∀ e ∈ log, e.type.proposed = true) :
    ∃ fuel R, (∀ n, fuel ≤ n → Replica.empty.applyLog n log = some R) ∧
      R.applying = none ∧ R.lastApplied = log.length ∧ Computes log R ∧
      ∀ j T, Decides log T j → (∀ i b, ¬ OpenAt log T i b j) →
        ∃ Rj, Replica.empty.applyLog fuel (log.take j) = some Rj ∧
          Replica.empty.applyLog fuel (log.take (j + 1)) = some { Rj with lastApplied := j + 1 } := by
  have hplain : ∀ e ∈ log, e.command.plain = true := fun e he => e.command_plain (htypes e he)
  have hspec := fun {k : ℕ} => applyLog_spec (k := k) (Applies.init log) rfl rfl hplain
  obtain ⟨fuel, R, hR, happ, hidle, hlast⟩ := hspec (le_refl log.length)
  rw [take_length] at hR
  refine ⟨fuel + 1, R, fun n hn => hR n (Nat.le_of_succ_le hn), hidle, hlast,
    happ.computes hidle hlast, ?_⟩
  intro j T hdec hnone
  have hj : j < log.length := by
    refine lt_of_commandAt ?_
    rcases hdec with hdec | ⟨ts, hdec⟩ <;> (rw [hdec]; simp)
  -- the first entries alone come to their end with the same fuel
  have hprefix : ∃ Rj, Replica.empty.applyLog (fuel + 1) (log.take j) = some Rj := by
    have hall := hR (fuel + 1) (Nat.le_succ fuel)
    rw [← take_append_drop j log, Replica.applyLog, foldlM_append] at hall
    obtain ⟨Rj, hRj, -⟩ := bind_eq_some_iff.mp hall
    exact ⟨Rj, hRj⟩
  obtain ⟨Rj, hRj⟩ := hprefix
  obtain ⟨fuel', Rj', hRj', happ', hidle', hlast'⟩ := hspec (Nat.le_of_lt hj)
  have hsame : Rj = Rj' := by
    have hmono := Replica.applyLog_mono hRj (le_max_left (fuel + 1) fuel')
    exact some.inj (hmono.symm.trans (hRj' _ (le_max_right (fuel + 1) fuel')))
  subst hsame
  subst hlast'
  refine ⟨Rj, hRj, ?_⟩
  rw [take_succ_eq_append_getElem hj, Replica.applyLog_concat hRj]
  exact happ'.unknown hidle' hj hdec hnone (Nat.succ_ne_zero fuel)

/-- Two transactions write one row and are committed with one timestamp. -/
def collidingCommits : List RaftLogEntry :=
  [⟨1, 1, .txnPrepareBatch, packPrepareBatchPayload 7 1 5 [⟨0, [1], [10], false⟩]⟩,
    ⟨2, 1, .txnCommit, packTxnPayload (WAL.serializeCommitPayload 5) 7⟩,
    ⟨3, 1, .txnPrepareBatch, packPrepareBatchPayload 8 1 5 [⟨0, [1], [20], false⟩]⟩,
    ⟨4, 1, .txnCommit, packTxnPayload (WAL.serializeCommitPayload 5) 8⟩]

theorem replica_computes_collidingCommits :
    (∀ e ∈ collidingCommits, e.type.proposed = true) ∧
      ∃ fuel R, Replica.empty.applyLog fuel collidingCommits = some R ∧ Computes collidingCommits R := by
  have htypes : ∀ e ∈ collidingCommits, e.type.proposed = true := by decide
  obtain ⟨fuel, R, hR, -, -, hcomputes, -⟩ := replica_computes_log collidingCommits htypes
  exact ⟨htypes, fuel, R, hR fuel (le_refl fuel), hcomputes⟩

/-- The first of the two segments is committed, and its write is not in the store. -/
theorem later_commit_hides_segment :
    ∃ T ts b j v R, CommittedAt collidingCommits T ts b j ∧ lastWrite b.writes 0 [1] = some v ∧
      Replica.empty.applyLog 10 collidingCommits = some R ∧
      MVCCStore.version R.mgr.store 0 [1] ts ≠ some v := by
  have heval : (Replica.empty.applyLog 10 collidingCommits).map
      (fun R => MVCCStore.version R.mgr.store 0 [1] 5) = some (some [20]) := by decide +kernel
  obtain ⟨R, hR, hversion⟩ := map_eq_some_iff.mp heval
  have hopen : openBatches (collidingCommits.take 1) 7 =
      some ⟨7, 1, 5, [⟨0, [1], [10], false⟩]⟩ := by decide +kernel
  have hcmd : commandAt collidingCommits 1 = .commit 7 5 := by decide +kernel
  refine ⟨7, 5, _, 1, [10], R, ⟨hcmd, (openBatches_iff (by decide)).mp hopen⟩, rfl, hR, ?_⟩
  rw [hversion]
  decide

end Computes

end TransDb.Raft
