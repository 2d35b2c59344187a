import TransDb.Raft.ReplicaSim
import TransDb.Txn.Applied

/-!
# The meaning of a log, and the steps of `Apply`

A `TXN_PREPARE_BATCH` opens a transaction, unless it is open already; the next decision
for it closes it, and a `TXN_COMMIT` puts the writes of the batch into the store.  That
is the meaning of the log.

* `openBatches`, `putsOf` — the meaning of a log.
* `ApplySteps` — what a step of `Apply` does for the commands that a shard proposes.
* `Recorded` — the store of a replica is what the entries have put into it;
  `Recorded.apply` **keeps it**.
-/

namespace TransDb.Raft

open List Function Storage Txn

/-! ## The meaning of a log -/

/-- What a command does to the open batches. -/
def openStep (o : RaftTxnId → Option PrepareBatch) : Command → RaftTxnId → Option PrepareBatch
  | .prepareBatch b =>
    if (o b.raftTxnId).isSome then o else update o b.raftTxnId (some b)
  | .commit T _ => update o T none
  | .abort T => update o T none
  | _ => o

/-- For every transaction the batch that no decision has followed yet. -/
def openBatches (log : List RaftLogEntry) : RaftTxnId → Option PrepareBatch :=
  log.foldl (fun o e => openStep o e.command) (fun _ => none)

/-- What a command puts into the store. -/
def putsOf (o : RaftTxnId → Option PrepareBatch) : Command → List (Timestamp × BufferedWrite)
  | .commit T ts =>
    match o T with
    | some b => b.writes.map fun w => (ts, w)
    | none => []
  | _ => []

/-- The commands that a shard proposes. -/
def Command.plain : Command → Bool
  | .skip => true
  | .abort _ => true
  | .prepareBatch _ => true
  | .commit _ _ => true
  | _ => false

theorem openBatches_take_succ {log : List RaftLogEntry} {n : ℕ} {e : RaftLogEntry}
    (h : log[n]? = some e) :
    openBatches (log.take (n + 1)) = openStep (openBatches (log.take n)) e.command := by
  unfold openBatches
  rw [take_add_one, h, foldl_append]
  rfl

/-- A batch that is open is in the log. -/
theorem mem_of_openBatches {log : List RaftLogEntry} {T : RaftTxnId} {b : PrepareBatch}
    (h : openBatches log T = some b) : b.raftTxnId = T ∧ ∃ e ∈ log, e.command = .prepareBatch b := by
  induction log using reverseRecOn with
  | nil => cases h
  | append_singleton log e ih =>
    have hstep : openStep (openBatches log) e.command T = some b := by
      simpa [openBatches, foldl_append] using h
    have hold : openBatches log T = some b →
        b.raftTxnId = T ∧ ∃ e' ∈ log ++ [e], e'.command = .prepareBatch b := by
      intro hold
      obtain ⟨hT, e', he', hcmd⟩ := ih hold
      exact ⟨hT, e', mem_append_left _ he', hcmd⟩
    cases hcmd : e.command with
    | prepareBatch b' =>
      simp only [hcmd, openStep] at hstep
      split_ifs at hstep
      · exact hold hstep
      · rcases update_eq_cases hstep with ⟨rfl, hstep'⟩ | ⟨-, hstep⟩
        · cases hstep'
          exact ⟨rfl, e, mem_append_right _ (mem_singleton.mpr rfl), hcmd⟩
        · exact hold hstep
    | commit T' ts | abort T' =>
      simp only [hcmd, openStep] at hstep
      rcases update_eq_cases hstep with ⟨rfl, hstep'⟩ | ⟨-, hstep⟩
      · cases hstep'
      · exact hold hstep
    | _ =>
      simp only [hcmd, openStep] at hstep
      exact hold hstep

/-! ## Prepared local transactions -/

/-- The local transaction is prepared with the writes of the batch. -/
def Prepared (R : Replica) (l : TxnId) (b : PrepareBatch) : Prop :=
  ∃ t, R.mgr.txns l = some t ∧ t.state = .prepared ∧ t.writeSet = b.writes ∧
    t.prepareCommitTs = b.commitTs

section Calls

variable {κ : Type*} [DecidableEq κ] {R R' : Replica} {calls : Option κ → Option Call}
  {phase : TxnId → Phase (Option κ)} {T : RaftTxnId} {c : Call} {timedOut : Bool} {out : Outcome}
  {i : Option κ} {l : TxnId} {b : PrepareBatch}

theorem ReplicaOk.txns_of_prepared (h : ReplicaOk R calls phase) (hc : calls i = some c)
    (hs : R.call T c timedOut = some (R', out)) {t : Transaction} (ht : R.mgr.txns l = some t)
    (hp : t.state = .prepared) (ha : ∀ e, c ≠ .abort l e) (hcm : ∀ ts, c ≠ .commit l ts) :
    R'.mgr.txns l = some t := by
  obtain ⟨l', p, hmove, hsim, -⟩ := h.move hc hs
  have hlive := h.sim.live ht
  rw [hsim.txns l]
  by_cases hl : l = l'
  · subst hl
    rw [hlive] at hmove
    rw [update_self]
    rcases hmove.live_of_prepared hp with rfl | ⟨e, rfl⟩ | ⟨ts, rfl⟩
    · rfl
    · exact absurd rfl (ha e)
    · exact absurd rfl (hcm ts)
  · rw [update_of_ne hl, hlive]
    rfl

theorem Prepared.call (hp : Prepared R l b) (h : ReplicaOk R calls phase) (hc : calls i = some c)
    (hs : R.call T c timedOut = some (R', out)) (ha : ∀ e, c ≠ .abort l e)
    (hcm : ∀ ts, c ≠ .commit l ts) : Prepared R' l b := by
  obtain ⟨t, ht, hstate, hws, hts⟩ := hp
  exact ⟨t, h.txns_of_prepared hc hs ht hstate ha hcm, hstate, hws, hts⟩

end Calls

/-! ## The entry that is being applied -/

/-- `Apply` stands at a place for this command. -/
def Applying.Runs (map : RaftTxnId → Option TxnId) (cmd : Command) : Applying → Prop
  | .entry e => e.command = cmd
  | .run T c .imported => ∃ b, cmd = .prepareBatch b ∧ b.raftTxnId = T ∧
      c.Serves (.importPreparedTxn b.snapshotTs b.commitTs b.writes)
  | .run T c .decided => ∃ l, map T = some l ∧
      ((cmd = .abort T ∧ c.Serves (.abort l)) ∨ ∃ ts, cmd = .commit T ts ∧ c.Serves (.commit l ts))
  | .setImported T _ => ∃ b, cmd = .prepareBatch b ∧ b.raftTxnId = T
  | _ => False

/-- The steps of `Apply` for the commands of a shard. -/
inductive ApplySteps (R : Replica) (cmd : Command) : Applying → Replica → Prop where
  | skip {e} (hcmd : cmd = .skip) : ApplySteps R cmd (.entry e) (R.finish R.sm)
  | unknown {e T} (hcmd : cmd = .abort T ∨ ∃ ts, cmd = .commit T ts)
      (hmap : R.sm.txnIdMap T = none) : ApplySteps R cmd (.entry e) (R.finish R.sm)
  | decide {e T l op} (hcmd : (cmd = .abort T ∧ op = .abort l) ∨
      ∃ ts, cmd = .commit T ts ∧ op = .commit l ts) (hmap : R.sm.txnIdMap T = some l) :
      ApplySteps R cmd (.entry e) (R.enterCall T op .decided)
  | present {e b l} (hcmd : cmd = .prepareBatch b) (hmap : R.sm.txnIdMap b.raftTxnId = some l) :
      ApplySteps R cmd (.entry e)
        (R.finish (R.sm.setPrepareResult b.raftTxnId (some ⟨true, ""⟩)))
  | «import» {e b} (hcmd : cmd = .prepareBatch b) (hmap : R.sm.txnIdMap b.raftTxnId = none) :
      ApplySteps R cmd (.entry e)
        (R.enterCall b.raftTxnId (.importPreparedTxn b.snapshotTs b.commitTs b.writes) .imported)
  | more {T c c' next R'} (timedOut : Bool)
      (hcall : R.call T c timedOut = some (R', .more c')) :
      ApplySteps R cmd (.run T c next) { R' with
        applying := some (.run T c' next)
        puts := Replica.notePut R.puts R.lastApplied c }
  | imported {T c r R'} (timedOut : Bool) (hcall : R.call T c timedOut = some (R', .done r)) :
      ApplySteps R cmd (.run T c .imported)
        { R' with applying := some (.setImported T (r.txnId.getD 0)) }
  | decided {T c r R'} (timedOut : Bool) (hcall : R.call T c timedOut = some (R', .done r)) :
      ApplySteps R cmd (.run T c .decided) (R'.finish (R'.sm.forgetTxn T))
  | register {T l} :
      ApplySteps R cmd (.setImported T l)
        (R.finish ((R.sm.registerLocalTxn T l).setPrepareResult T (some ⟨true, ""⟩)))

theorem ApplySteps.of {R R' : Replica} {cmd : Command} {a : Applying} {timedOut : Bool}
    {map : RaftTxnId → Option TxnId} (hs : R.applyStep timedOut a = some R')
    (hruns : a.Runs map cmd) (hplain : cmd.plain = true) : ApplySteps R cmd a R' := by
  cases a with
  | entry e =>
    have hcmd : e.command = cmd := hruns
    simp only [Replica.applyStep, hcmd, Option.some.injEq] at hs
    subst hs
    cases cmd with
    | skip => exact .skip rfl
    | abort T =>
      cases hmap : R.sm.txnIdMap T with
      | none =>
        simp only [Replica.applyCommand, hmap]
        exact .unknown (.inl rfl) hmap
      | some l =>
        simp only [Replica.applyCommand, hmap]
        exact .decide (.inl ⟨rfl, rfl⟩) hmap
    | commit T ts =>
      cases hmap : R.sm.txnIdMap T with
      | none =>
        simp only [Replica.applyCommand, hmap]
        exact .unknown (.inr ⟨ts, rfl⟩) hmap
      | some l =>
        simp only [Replica.applyCommand, hmap]
        exact .decide (.inr ⟨ts, rfl, rfl⟩) hmap
    | prepareBatch b =>
      cases hmap : R.sm.txnIdMap b.raftTxnId with
      | none =>
        simp only [Replica.applyCommand, hmap]
        exact .import rfl hmap
      | some l =>
        simp only [Replica.applyCommand, hmap]
        exact .present rfl hmap
    | _ => cases hplain
  | run T c next =>
    rcases Replica.applyStep_run hs with ⟨R1, c', hcall, rfl⟩ | ⟨R1, r, hcall, rfl⟩
    · exact .more timedOut hcall
    · cases next with
      | imported => exact .imported timedOut hcall
      | decided => exact .decided timedOut hcall
      | _ => exact absurd hruns id
  | setImported T l =>
    cases hs
    exact .register
  | setPrepared => exact absurd hruns id

section Apply

variable {κ : Type*} [DecidableEq κ] {R R' : Replica} {calls : Option κ → Option Call}
  {phase : TxnId → Phase (Option κ)} {cmd : Command} {a : Applying}

/-- `Apply` stays with its command until it is done with the entry. -/
theorem ApplySteps.runs (h : ApplySteps R cmd a R') (hruns : a.Runs R.sm.txnIdMap cmd) :
    (∃ a', R'.applying = some a' ∧ R'.lastApplied = R.lastApplied ∧
      a'.Runs R'.sm.txnIdMap cmd) ∨ (R'.applying = none ∧ R'.lastApplied = R.lastApplied + 1) := by
  cases h with
  | skip | unknown | present | register => exact .inr ⟨rfl, rfl⟩
  | @decide e T l op hcmd hmap =>
    refine .inl ⟨_, rfl, rfl, l, hmap, ?_⟩
    rcases hcmd with ⟨hcmd, rfl⟩ | ⟨ts, hcmd, rfl⟩
    · exact .inl ⟨hcmd, Op.entry_serves _⟩
    · exact .inr ⟨ts, hcmd, Op.entry_serves _⟩
  | «import» hcmd => exact .inl ⟨_, rfl, rfl, _, hcmd, rfl, Op.entry_serves _⟩
  | @more T c c' next R1 timedOut hcall =>
    obtain ⟨m, hstep, rfl⟩ := Replica.call_eq hcall
    refine .inl ⟨_, rfl, rfl, ?_⟩
    cases next with
    | imported =>
      obtain ⟨b, hcmd, hT, hserves⟩ := hruns
      exact ⟨b, hcmd, hT, hserves.next hstep rfl⟩
    | decided =>
      obtain ⟨l, hmap, ⟨hcmd, hserves⟩ | ⟨ts, hcmd, hserves⟩⟩ := hruns
      · exact ⟨l, hmap, .inl ⟨hcmd, hserves.next hstep rfl⟩⟩
      · exact ⟨l, hmap, .inr ⟨ts, hcmd, hserves.next hstep rfl⟩⟩
    | _ => exact absurd hruns id
  | imported timedOut hcall =>
    obtain ⟨m, -, rfl⟩ := Replica.call_eq hcall
    obtain ⟨b, hcmd, hT, -⟩ := hruns
    exact .inl ⟨_, rfl, rfl, b, hcmd, hT⟩
  | decided timedOut hcall =>
    obtain ⟨m, -, rfl⟩ := Replica.call_eq hcall
    exact .inr ⟨rfl, rfl⟩

end Apply

/-! ## The store of a replica -/

/-- Everything that was put, in order. -/
def Replica.allPuts (R : Replica) : List (Timestamp × BufferedWrite) :=
  (List.range (R.lastApplied + 1)).flatMap R.puts

/-- The store with these writes. -/
def storeOf (puts : List (Timestamp × BufferedWrite)) : MVCCStore :=
  puts.foldl (fun st p => p.2.apply st p.1) SortedMap.empty

/-- The store is what the entries have put into it; only a commit puts anything. -/
structure Recorded (R : Replica) : Prop where
  store : R.mgr.store = storeOf R.allPuts
  later : ∀ j, R.lastApplied < j → R.puts j = []
  quiet : R.puts R.lastApplied ≠ [] → ∃ T c l ts, R.applying = some (.run T c .decided) ∧
    c.Serves (.commit l ts) ∧ c.isCheck = false

theorem Recorded.init : Recorded .empty where
  store := rfl
  later := fun _ _ => rfl
  quiet := fun h => absurd rfl h

/-- Between two entries nothing is put. -/
theorem Recorded.puts_of_idle {R : Replica} (h : Recorded R) (hidle : R.applying = none) :
    R.puts R.lastApplied = [] := by
  by_contra hne
  obtain ⟨T, c, l, ts, hrun, -⟩ := h.quiet hne
  rw [hidle] at hrun
  cases hrun

section Record

variable {R R' : Replica} {T : RaftTxnId} {c : Call} {timedOut : Bool} {out : Outcome}
  {cmd : Command} {a : Applying}

/-- A call that is not a commit puts nothing. -/
theorem Recorded.call (h : Recorded R) (hs : R.call T c timedOut = some (R', out)) {op : Op}
    (hserves : c.Serves op) (hop : ∀ l ts, op ≠ .commit l ts) : Recorded R' := by
  obtain ⟨m, hstep, rfl⟩ := Replica.call_eq hs
  refine ⟨?_, h.later, h.quiet⟩
  rcases Call.step_store hstep with ⟨t, ts, w, rest, rfl, -⟩ | ⟨hsame, -⟩
  · exact absurd hserves (hop t ts)
  · exact hsame.trans h.store

/-- An entry is done. -/
theorem Recorded.finish (hstore : R.mgr.store = storeOf R.allPuts)
    (hlater : ∀ j, R.lastApplied < j → R.puts j = []) (sm : RaftStateMachine) :
    Recorded (R.finish sm) := by
  have hnext : R.puts (R.lastApplied + 1) = [] := hlater _ (Nat.lt_succ_self _)
  refine ⟨?_, fun j hj => hlater j (Nat.lt_of_succ_lt hj), fun hne => absurd hnext hne⟩
  show R.mgr.store = storeOf ((range (R.lastApplied + 1 + 1)).flatMap R.puts)
  rw [range_succ, flatMap_append, hstore]
  simp [Replica.allPuts, hnext]

theorem Replica.notePut_of_ne {puts : ℕ → List (Timestamp × BufferedWrite)} {n : ℕ}
    (hno : ∀ t ts w rest, c ≠ .applyWrites t ts (w :: rest)) : Replica.notePut puts n c = puts := by
  cases c with
  | applyWrites t ts rest =>
    cases rest with
    | nil => rfl
    | cons w rest => exact absurd rfl (hno t ts w rest)
  | _ => rfl

theorem Recorded.more (h : Recorded R) {next : ApplyEnd} (ha : R.applying = some (.run T c next))
    (hruns : (Applying.run T c next).Runs R.sm.txnIdMap cmd) {c' : Call}
    (hs : R.call T c timedOut = some (R', .more c')) :
    Recorded { R' with
      applying := some (.run T c' next)
      puts := Replica.notePut R.puts R.lastApplied c } := by
  obtain ⟨m, hstep, rfl⟩ := Replica.call_eq hs
  -- the commit that is running goes on
  have hgo : ∀ {l ts}, c.Serves (.commit l ts) → next = .decided →
      ∃ T0 c0 l0 ts0, some (Applying.run T c' next) = some (.run T0 c0 .decided) ∧
        c0.Serves (.commit l0 ts0) ∧ c0.isCheck = false := by
    rintro l ts hserves rfl
    exact ⟨T, c', l, ts, rfl, hserves.next hstep rfl, hserves.isCheck_next (.inr ⟨l, ts, rfl⟩) hstep⟩
  rcases Call.step_store hstep with ⟨t, ts, w, rest, rfl, hput, -⟩ | ⟨hsame, hno⟩
  · refine ⟨?_, ?_, fun _ => @hgo t ts rfl ?_⟩
    · show m.store = storeOf ((range (R.lastApplied + 1)).flatMap
        (update R.puts R.lastApplied (R.puts R.lastApplied ++ [(ts, w)])))
      have hbefore : (range R.lastApplied).flatMap (update R.puts R.lastApplied
          (R.puts R.lastApplied ++ [(ts, w)])) = (range R.lastApplied).flatMap R.puts := by
        refine flatMap_congr ?_
        intro j hj
        exact update_of_ne (Nat.ne_of_lt (mem_range.mp hj)) ..
      rw [hput, h.store, Replica.allPuts, range_succ, flatMap_append, flatMap_append,
        hbefore]
      simp [storeOf, foldl_append]
    · intro j hj
      show update R.puts R.lastApplied (R.puts R.lastApplied ++ [(ts, w)]) j = []
      rw [update_of_ne (Nat.ne_of_gt hj)]
      exact h.later j hj
    · cases next with
      | decided => rfl
      | imported =>
        obtain ⟨b, -, -, hserves⟩ := hruns
        cases hserves
      | _ => exact absurd hruns id
  · rw [Replica.notePut_of_ne hno]
    refine ⟨hsame.trans h.store, h.later, ?_⟩
    intro hne
    obtain ⟨T0, c0, l, ts, hrun, hserves, -⟩ := h.quiet hne
    rw [ha] at hrun
    cases hrun
    exact hgo hserves rfl

/-- **A step of `Apply` keeps the record.** -/
theorem Recorded.apply (h : Recorded R) (ha : R.applying = some a)
    (hruns : a.Runs R.sm.txnIdMap cmd) (hstep : ApplySteps R cmd a R') : Recorded R' := by
  -- between two calls nothing is put
  have hquiet : (∀ T c, a ≠ .run T c .decided) → R.puts R.lastApplied = [] := by
    intro hne
    by_contra hputs
    obtain ⟨T, c, -, -, hrun, -⟩ := h.quiet hputs
    rw [ha] at hrun
    exact hne T c (Option.some.inj hrun)
  -- a call that returns puts nothing
  have hdone : ∀ {T c timedOut R1 r}, R.call T c timedOut = some (R1, .done r) →
      R1.mgr.store = storeOf R1.allPuts ∧ ∀ j, R1.lastApplied < j → R1.puts j = [] := by
    intro T c timedOut R1 r hcall
    obtain ⟨m, hs, rfl⟩ := Replica.call_eq hcall
    rcases Call.step_store hs with ⟨t, ts, w, rest, -, -, ho⟩ | ⟨hsame, -⟩
    · cases ho
    · exact ⟨hsame.trans h.store, h.later⟩
  cases hstep with
  | skip | unknown | present | register => exact Recorded.finish h.store h.later _
  | decide | «import» =>
    exact ⟨h.store, h.later, fun hne => absurd (hquiet (by simp)) hne⟩
  | more timedOut hcall => exact h.more ha hruns hcall
  | imported timedOut hcall =>
    obtain ⟨hstore, hlater⟩ := hdone hcall
    obtain ⟨m, -, rfl⟩ := Replica.call_eq hcall
    exact ⟨hstore, hlater, fun hne => absurd (hquiet (by simp)) hne⟩
  | decided timedOut hcall =>
    obtain ⟨hstore, hlater⟩ := hdone hcall
    exact Recorded.finish hstore hlater _

end Record

end TransDb.Raft
