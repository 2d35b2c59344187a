import TransDb.Raft.Agreement

/-!
# Following a log

A replica takes the entries of a log one after the other.  What it puts into its store is
what the log says, for every transaction on which it agrees with the log when the commit
is applied.

* `commandAt`, `OnLog` — the replica is at work on the next entry of the log.
* `RaftMove` — what the Raft thread of a replica does.
* `Standing` — the replica agrees with the log on a transaction.
* `Tracked` — so it does, or it will when the batch of the transaction is applied.
* `MapOk`, `PreparedAt` — what is known of a transaction before it has a batch.
* `PutsAgree` — every entry has put what the log says; `PutsAgree.move` **keeps it**.
-/

namespace TransDb.Raft

open List Function Storage Txn

/-! ## Logs -/

/-- The command of an entry; there is nothing to do past the end. -/
def commandAt (log : List RaftLogEntry) (n : ℕ) : Command :=
  ((log[n]?).map RaftLogEntry.command).getD .skip

section Log

variable {log : List RaftLogEntry} {e : RaftLogEntry} {n i j : ℕ} {T : RaftTxnId} {b b' : PrepareBatch}

theorem commandAt_of_eq (h : log[n]? = some e) : commandAt log n = e.command := by
  simp [commandAt, h]

theorem commandAt_mem (h : commandAt log n ≠ .skip) :
    ∃ e, log[n]? = some e ∧ e.command = commandAt log n := by
  cases he : log[n]? with
  | none => exact absurd (by simp [commandAt, he]) h
  | some e => exact ⟨e, rfl, (commandAt_of_eq he).symm⟩

theorem lt_of_commandAt (h : commandAt log n ≠ .skip) : n < log.length := by
  obtain ⟨e, he, -⟩ := commandAt_mem h
  exact (List.getElem?_eq_some_iff.mp he).1

theorem commandAt_append (h : n < log.length) : commandAt (log ++ [e]) n = commandAt log n := by
  simp [commandAt, getElem?_append_left h]

theorem commandAt_append_last : commandAt (log ++ [e]) log.length = e.command := by
  simp [commandAt]

/-- The commands of a log with one more entry. -/
theorem commandAt_append_cases {cmd : Command} (h : commandAt (log ++ [e]) n = cmd)
    (hne : cmd ≠ .skip) : commandAt log n = cmd ∧ n < log.length ∨
      n = log.length ∧ e.command = cmd := by
  have hlt := lt_of_commandAt (h ▸ hne)
  rw [length_append] at hlt
  rcases Nat.lt_or_eq_of_le (Nat.lt_succ_iff.mp hlt) with hlt | rfl
  · exact .inl ⟨(commandAt_append hlt).symm.trans h, hlt⟩
  · exact .inr ⟨rfl, commandAt_append_last.symm.trans h⟩

theorem openBatches_succ (h : n < log.length) :
    openBatches (log.take (n + 1)) = openStep (openBatches (log.take n)) (commandAt log n) := by
  have he := getElem?_eq_getElem h
  rw [openBatches_take_succ he, commandAt_of_eq he]

/-- A batch that is open was among the commands. -/
theorem commandAt_of_openBatches (h : openBatches (log.take n) T = some b) :
    b.raftTxnId = T ∧ ∃ j < n, commandAt log j = .prepareBatch b := by
  obtain ⟨hT, e, he, hcmd⟩ := mem_of_openBatches h
  obtain ⟨j, hj, rfl⟩ := mem_iff_getElem.mp he
  have hlen := length_take_le n log
  refine ⟨hT, j, lt_of_lt_of_le hj hlen, ?_⟩
  have hat : log[j]? = some (log.take n)[j] := by
    rw [← getElem?_take_of_lt (lt_of_lt_of_le hj hlen)]
    exact getElem?_eq_getElem hj
  rw [commandAt_of_eq hat, hcmd]

/-- No transaction has two batches. -/
def OneBatch (log : List RaftLogEntry) : Prop :=
  ∀ i j b b', commandAt log i = .prepareBatch b → commandAt log j = .prepareBatch b' →
    b.raftTxnId = b'.raftTxnId → i = j

section

variable (h : OneBatch log) (hb : commandAt log i = .prepareBatch b)
include h hb

theorem OneBatch.closed_before : openBatches (log.take i) b.raftTxnId = none := by
  cases ho : openBatches (log.take i) b.raftTxnId with
  | none => rfl
  | some b' =>
    obtain ⟨hT, j, hj, hcmd⟩ := commandAt_of_openBatches ho
    exact absurd (h j i b' b hcmd hb hT) (Nat.ne_of_lt hj)

/-- A batch opens its transaction. -/
theorem OneBatch.opens : openBatches (log.take (i + 1)) b.raftTxnId = some b := by
  obtain ⟨e, he, -⟩ := commandAt_mem (by rw [hb]; simp)
  rw [openBatches_succ (List.getElem?_eq_some_iff.mp he).1, hb]
  simp [openStep, h.closed_before hb]

/-- It stays open until a decision. -/
theorem OneBatch.open_until (hin : i < n) (hn : n ≤ log.length)
    (hno : ∀ j, i < j → j < n → (∀ ts, commandAt log j ≠ .commit b.raftTxnId ts) ∧
      commandAt log j ≠ .abort b.raftTxnId) : openBatches (log.take n) b.raftTxnId = some b := by
  induction n, hin using Nat.le_induction with
  | base => exact h.opens hb
  | succ n hle ih =>
    have hold := ih (Nat.le_of_succ_le hn) fun j hij hj => hno j hij (Nat.lt_succ_of_lt hj)
    obtain ⟨hcommit, habort⟩ := hno n hle (Nat.lt_succ_self n)
    rw [openBatches_succ hn, ← hold]
    refine openStep_of_other ?_
    cases hcmd : commandAt log n with
    | prepareBatch b' =>
      intro hT
      exact absurd (h n i b' b hcmd hb hT) (Nat.ne_of_gt hle)
    | commit T' ts =>
      rintro rfl
      exact hcommit ts hcmd
    | abort T' =>
      rintro rfl
      exact habort hcmd
    | _ => trivial

end

end Log

/-! ## Replicas on a log -/

/-- The replica is at work on the next entry of the log; only a commit puts anything. -/
structure OnLog (log : List RaftLogEntry) (R : Replica) : Prop where
  bound : R.lastApplied ≤ log.length
  runs : ∀ a, R.applying = some a → R.lastApplied < log.length ∧
    a.Runs R.sm.txnIdMap (commandAt log R.lastApplied)
  quiet : R.puts R.lastApplied ≠ [] → ∃ T ts, commandAt log R.lastApplied = .commit T ts
  recorded : Recorded R

/-- The Raft thread takes the next entry, or goes on with the one it has. -/
inductive RaftMove (log : List RaftLogEntry) (R : Replica) : Replica → Prop where
  | start {e : RaftLogEntry} (hidle : R.applying = none) (he : log[R.lastApplied]? = some e) :
      RaftMove log R { R with applying := some (.entry e) }
  | step {a : Applying} {R' : Replica} (ha : R.applying = some a)
      (h : ApplySteps R (commandAt log R.lastApplied) a R') : RaftMove log R R'

/-- The replica agrees with the log on a transaction. -/
def Standing (log : List RaftLogEntry) (R : Replica) (T : RaftTxnId) : Prop :=
  Agree R (openBatches (log.take R.lastApplied) T) (commandAt log R.lastApplied) T

/-- Entry `i` is the batch of the transaction: it has been applied and the replica agrees
with the log on the transaction, or the local transaction is as the batch says. -/
def Tracked (log : List RaftLogEntry) (R : Replica) (l : TxnId) (b : PrepareBatch) (i : ℕ) : Prop :=
  R.lastApplied ≤ i ∧ Ready R b.raftTxnId l b (commandAt log R.lastApplied) ∨
    i < R.lastApplied ∧ Standing log R b.raftTxnId

/-- Every entry has put what the log says. -/
def PutsAgree (log : List RaftLogEntry) (R : Replica) : Prop :=
  ∀ j < R.lastApplied, R.puts j = putsOf (openBatches (log.take j)) (commandAt log j)

theorem OnLog.init (log : List RaftLogEntry) : OnLog log .empty where
  bound := Nat.zero_le _
  runs := fun _ h => by cases h
  quiet := fun h => absurd rfl h
  recorded := Recorded.init

theorem Standing.init (log : List RaftLogEntry) (T : RaftTxnId) : Standing log .empty T :=
  Agree.of_idle (show Agrees .empty T none from rfl) (by rintro _ ⟨⟩) _

section Append

variable {log : List RaftLogEntry} {R : Replica} {T : RaftTxnId} {l : TxnId} {b : PrepareBatch}
  {i : ℕ}

/-- The log grows, and the command that is being applied stays. -/
theorem OnLog.command_append (h : OnLog log R) (e : RaftLogEntry) :
    R.applying = none ∨ commandAt (log ++ [e]) R.lastApplied = commandAt log R.lastApplied := by
  cases ha : R.applying with
  | none => exact .inl rfl
  | some a => exact .inr (commandAt_append (h.runs a ha).1)

theorem OnLog.append (h : OnLog log R) (e : RaftLogEntry) : OnLog (log ++ [e]) R where
  bound := by
    rw [length_append]
    exact Nat.le_succ_of_le h.bound
  runs := by
    intro a ha
    obtain ⟨hlt, hruns⟩ := h.runs a ha
    rw [length_append, commandAt_append hlt]
    exact ⟨Nat.lt_succ_of_lt hlt, hruns⟩
  quiet := by
    intro hne
    obtain ⟨T, ts, hcmd⟩ := h.quiet hne
    have hne : commandAt log R.lastApplied ≠ .skip := by rw [hcmd]; simp
    exact ⟨T, ts, (commandAt_append (lt_of_commandAt hne)).trans hcmd⟩
  recorded := h.recorded

theorem Standing.append (hs : Standing log R T) (h : OnLog log R) (e : RaftLogEntry) :
    Standing (log ++ [e]) R T := by
  unfold Standing
  rw [take_append_of_le_length h.bound]
  rcases h.command_append e with hidle | hcmd
  · exact Agree.of_idle (hs.agrees hidle) (by simp [hidle]) _
  · rw [hcmd]
    exact hs

theorem Ready.append (hr : Ready R T l b (commandAt log R.lastApplied)) (h : OnLog log R)
    (e : RaftLogEntry) : Ready R T l b (commandAt (log ++ [e]) R.lastApplied) := by
  rcases h.command_append e with hidle | hcmd
  · exact Ready.of_idle (hr.settled (by simp [hidle])) (by simp [hidle]) _
  · rw [hcmd]
    exact hr

theorem Tracked.append (ht : Tracked log R l b i) (h : OnLog log R) (e : RaftLogEntry) :
    Tracked (log ++ [e]) R l b i :=
  ht.imp (fun hr => ⟨hr.1, hr.2.append h e⟩) fun hs => ⟨hs.1, hs.2.append h e⟩

theorem PutsAgree.append (hp : PutsAgree log R) (h : OnLog log R) (e : RaftLogEntry) :
    PutsAgree (log ++ [e]) R := by
  intro j hj
  have hlt := lt_of_lt_of_le hj h.bound
  rw [take_append_of_le_length (Nat.le_of_lt hlt), commandAt_append hlt]
  exact hp j hj

end Append

/-! ## Moves of the Raft thread -/

variable {κ : Type*} [DecidableEq κ] {log : List RaftLogEntry} {R R' : Replica}
  {calls : Option κ → Option Call} {phase : TxnId → Phase (Option κ)} {T T' : RaftTxnId} {l : TxnId}
  {b : PrepareBatch} {i : ℕ} {cmd : Command} {a : Applying} {ts : Timestamp} {k : Option κ} {c : Call}
  {timedOut : Bool} {out : Outcome}

/-- What a step of `Apply` notes. -/
theorem ApplySteps.puts_cases (h : ApplySteps R cmd a R') (hruns : a.Runs R.sm.txnIdMap cmd) :
    R'.puts = R.puts ∨ ∃ T ts, cmd = .commit T ts ∧ R'.lastApplied = R.lastApplied ∧
      ∀ j, j ≠ R.lastApplied → R'.puts j = R.puts j := by
  cases h with
  | @more T c c' next R1 timedOut hcall =>
    obtain ⟨m, hstep, rfl⟩ := Replica.call_eq hcall
    rcases Call.step_store hstep with ⟨t, ts, w, rest, rfl, -, -⟩ | ⟨-, hno⟩
    · cases next with
      | imported =>
        obtain ⟨b, -, -, hserves⟩ := hruns
        cases hserves
      | decided =>
        obtain ⟨l, -, ⟨-, hserves⟩ | ⟨ts', hcmd, -⟩⟩ := hruns
        · cases hserves
        · exact .inr ⟨T, ts', hcmd, rfl, fun j hj => update_of_ne hj ..⟩
      | _ => exact absurd hruns id
    · exact .inl (Replica.notePut_of_ne hno)
  | imported timedOut hcall | decided timedOut hcall =>
    exact .inl (Replica.call_frame hcall).2.2.1
  | _ => exact .inl rfl

/-- **The Raft thread follows the log.** -/
theorem OnLog.move (h : OnLog log R) (hm : RaftMove log R R') : OnLog log R' := by
  cases hm with
  | start hidle he =>
    have hlt := (List.getElem?_eq_some_iff.mp he).1
    refine ⟨h.bound, ?_, h.quiet, h.recorded.store, h.recorded.later, ?_⟩
    · intro a ha
      cases ha
      exact ⟨hlt, (commandAt_of_eq he).symm⟩
    · intro hne
      obtain ⟨T, c, l, ts, hrun, -⟩ := h.recorded.quiet hne
      rw [hidle] at hrun
      cases hrun
  | @step a _ ha hstep =>
    obtain ⟨hlt, hruns⟩ := h.runs a ha
    have hrec := h.recorded.apply ha hruns hstep
    have hputs := hstep.puts_cases hruns
    rcases hstep.runs hruns with ⟨a', ha', hlast, hruns'⟩ | ⟨hidle, hlast⟩
    · refine ⟨hlast ▸ h.bound, ?_, ?_, hrec⟩
      · intro a'' ha''
        cases ha'.symm.trans ha''
        rw [hlast]
        exact ⟨hlt, hruns'⟩
      · rw [hlast]
        rcases hputs with hsame | ⟨T, ts, hcmd, -⟩
        · rw [hsame]
          exact h.quiet
        · exact fun _ => ⟨T, ts, hcmd⟩
    · refine ⟨by rw [hlast]; exact hlt, ?_, ?_, hrec⟩
      · intro a' ha'
        rw [hidle] at ha'
        cases ha'
      intro hne
      obtain ⟨T, c, l, ts, hrun, -⟩ := hrec.quiet hne
      rw [hidle] at hrun
      cases hrun

theorem Standing.move (hs : Standing log R T) (h : OnLog log R) (hok : ReplicaOk R calls phase)
    (hm : RaftMove log R R') : Standing log R' T := by
  cases hm with
  | @start e hidle he =>
    have hagrees : Agrees { R with applying := some (.entry e) } T _ :=
      (hs.agrees hidle).of_eq rfl rfl
    exact Agree.of_idle hagrees (by rintro _ ⟨⟩; exact ⟨e, rfl⟩) _
  | @step a _ ha hstep =>
    obtain ⟨hlt, hruns⟩ := h.runs a ha
    rcases Agree.apply hs hok h.recorded ha hruns hstep with ⟨hlast, hagree⟩ | ⟨hlast, hidle, hagrees, -⟩
    · unfold Standing
      rw [hlast]
      exact hagree
    · refine Agree.of_idle ?_ (by simp [hidle]) _
      rw [hlast, openBatches_succ hlt]
      exact hagrees

omit [DecidableEq κ] in
theorem RaftMove.lastApplied (hm : RaftMove log R R') (h : OnLog log R) :
    R'.lastApplied = R.lastApplied ∨ R'.lastApplied = R.lastApplied + 1 := by
  cases hm with
  | start => exact .inl rfl
  | @step a _ ha hstep =>
    rcases hstep.runs (h.runs a ha).2 with ⟨-, -, hlast, -⟩ | ⟨-, hlast⟩
    · exact .inl hlast
    · exact .inr hlast

/-- An entry that is not the batch of the transaction leaves it ready. -/
theorem Ready.move (hr : Ready R T l b (commandAt log R.lastApplied)) (h : OnLog log R)
    (hok : ReplicaOk R calls phase)
    (hno : ∀ b', commandAt log R.lastApplied = .prepareBatch b' → b'.raftTxnId ≠ T)
    (hm : RaftMove log R R') : Ready R' T l b (commandAt log R'.lastApplied) := by
  cases hm with
  | start hidle he =>
    refine Ready.of_idle ?_ (by simp) _
    exact (hr.settled (by simp [hidle])).imp_right fun hp => ⟨hp.1, hp.2.of_eq rfl⟩
  | @step a _ ha hstep =>
    obtain ⟨-, hruns⟩ := h.runs a ha
    rcases hr.apply hok ha hruns hstep (fun b' hcmd hT => absurd hT (hno b' hcmd)) with
      ⟨hsame, hr'⟩ | ⟨-, -, -, hother⟩
    · rw [hsame]
      exact hr'
    · exact hother hno _

/-- **The Raft thread keeps track of a transaction** over the entry that is its batch. -/
theorem Tracked.move (ht : Tracked log R l b i) (h : OnLog log R) (hok : ReplicaOk R calls phase)
    (hone : OneBatch log) (hb : commandAt log i = .prepareBatch b) (hm : RaftMove log R R') :
    Tracked log R' l b i := by
  rcases ht with ⟨hle, hr⟩ | ⟨hlt, hs⟩
  · rcases Nat.lt_or_eq_of_le hle with hlt | heq
    · refine .inl ⟨?_, hr.move h hok ?_ hm⟩
      · rcases hm.lastApplied h with hlast | hlast <;> omega
      · intro b' hcmd hT
        exact absurd (hone _ _ b' b hcmd hb hT) (Nat.ne_of_lt hlt)
    · -- the entry is the batch
      cases hm with
      | start hidle he =>
        refine .inl ⟨hle, Ready.of_idle ?_ (by simp) _⟩
        exact (hr.settled (by simp [hidle])).imp_right fun hp => ⟨hp.1, hp.2.of_eq rfl⟩
      | @step a _ ha hstep =>
        obtain ⟨-, hruns⟩ := h.runs a ha
        have hbatch : ∀ b', commandAt log R.lastApplied = .prepareBatch b' →
            b'.raftTxnId = b.raftTxnId → b' = b := by
          intro b' hcmd _
          rw [heq, hb] at hcmd
          cases hcmd
          rfl
        rcases hr.apply hok ha hruns hstep hbatch with ⟨hsame, hr'⟩ | ⟨hnext, hidle, hmine, -⟩
        · rw [← hsame] at hle hr'
          exact .inl ⟨hle, hr'⟩
        · refine .inr ⟨by rw [hnext, heq]; exact Nat.lt_succ_self i, Agree.of_idle ?_ (by simp [hidle]) _⟩
          rw [hnext, heq, hone.opens hb]
          exact hmine ⟨b, by rw [heq]; exact hb, rfl⟩
  · refine .inr ⟨?_, hs.move h hok hm⟩
    rcases hm.lastApplied h with hlast | hlast <;> omega

/-- **What the entries put is what the log says**, if the replica agrees with the log on
the transaction that is being committed. -/
theorem PutsAgree.move (hp : PutsAgree log R) (h : OnLog log R) (hok : ReplicaOk R calls phase)
    (hs : ∀ T ts, commandAt log R.lastApplied = .commit T ts → Standing log R T)
    (hm : RaftMove log R R') : PutsAgree log R' := by
  cases hm with
  | start => exact hp
  | @step a _ ha hstep =>
    obtain ⟨hlt, hruns⟩ := h.runs a ha
    have hputs := hstep.puts_cases hruns
    have hbefore : ∀ j < R.lastApplied, R'.puts j = R.puts j := by
      intro j hj
      rcases hputs with hsame | ⟨T, ts, -, -, hsame⟩
      · rw [hsame]
      · exact hsame j (Nat.ne_of_lt hj)
    rcases hstep.runs hruns with ⟨a', ha', hlast, -⟩ | ⟨hidle, hlast⟩
    · intro j hj
      rw [hlast] at hj
      exact (hbefore j hj).trans (hp j hj)
    · intro j hj
      rw [hlast] at hj
      rcases Nat.lt_or_eq_of_le (Nat.lt_succ_iff.mp hj) with hj | rfl
      · exact (hbefore j hj).trans (hp j hj)
      -- the entry that is done
      by_cases hcommit : ∃ T ts, commandAt log R.lastApplied = .commit T ts
      · obtain ⟨T, ts, hcmd⟩ := hcommit
        rcases Agree.apply (hs T ts hcmd) hok h.recorded ha hruns hstep with ⟨hsame, -⟩ | ⟨-, -, -, hput⟩
        · rw [hsame] at hlast
          exact absurd hlast (Nat.ne_of_lt (Nat.lt_succ_self _))
        · exact hput ts hcmd
      · have hnone : R.puts R.lastApplied = [] := by
          by_contra hne
          exact hcommit (h.quiet hne)
        have hsame : R'.puts = R.puts := by
          rcases hputs with hsame | ⟨T, ts, hcmd, -⟩
          · exact hsame
          · exact absurd ⟨T, ts, hcmd⟩ hcommit
        rw [hsame, hnone]
        cases hcmd : commandAt log R.lastApplied with
        | commit T ts => exact absurd ⟨T, ts, hcmd⟩ hcommit
        | _ => rfl

omit [DecidableEq κ] in
/-- What two replicas have put that have applied the same part of the log. -/
theorem PutsAgree.allPuts_eq (h : PutsAgree log R)
    (h' : PutsAgree log R') (hrec : Recorded R) (hrec' : Recorded R') (hidle : R.applying = none)
    (hidle' : R'.applying = none) (hsame : R.lastApplied = R'.lastApplied) :
    R.allPuts = R'.allPuts := by
  unfold Replica.allPuts
  rw [← hsame]
  refine flatMap_congr ?_
  intro j hj
  rcases Nat.lt_or_eq_of_le (Nat.lt_succ_iff.mp (mem_range.mp hj)) with hlt | rfl
  · rw [h j hlt, h' j (hsame ▸ hlt)]
  · rw [hrec.puts_of_idle hidle, hsame, hrec'.puts_of_idle hidle']

/-! ## Before the batch -/

/-- The map has this local transaction for the transaction, or none. -/
def MapOk (R : Replica) (T : RaftTxnId) (l : TxnId) : Prop :=
  R.sm.txnIdMap T = none ∨ R.sm.txnIdMap T = some l

/-- The local transaction is prepared, or it is gone. -/
def PreparedAt (R : Replica) (l : TxnId) (ts : Timestamp) : Prop :=
  ∀ t, R.mgr.txns l = some t → t.state = .prepared ∧ t.prepareCommitTs = ts

/-- Only the batch of a transaction registers it. -/
theorem MapOk.move (hmap : MapOk R T l) (h : OnLog log R)
    (hno : ∀ b, commandAt log R.lastApplied = .prepareBatch b → b.raftTxnId ≠ T)
    (hm : RaftMove log R R') : MapOk R' T l := by
  cases hm with
  | start => exact hmap
  | @step a _ ha hstep =>
    obtain ⟨-, hruns⟩ := h.runs a ha
    cases hstep with
    | more _ hcall | imported _ hcall =>
      obtain ⟨m, -, rfl⟩ := Replica.call_eq hcall
      exact hmap
    | @decided T0 c r R1 _ hcall =>
      obtain ⟨m, -, rfl⟩ := Replica.call_eq hcall
      by_cases hT : T = T0
      · subst hT
        exact .inl (update_self ..)
      · unfold MapOk
        rw [show ∀ R0 : Replica, (R0.finish (R0.sm.forgetTxn T0)).sm.txnIdMap T = R0.sm.txnIdMap T
          from fun R0 => update_of_ne hT ..]
        exact hmap
    | @register T0 l0 =>
      obtain ⟨b, hcmd, hb⟩ := hruns
      have hT : T ≠ T0 := by
        rintro rfl
        exact hno b hcmd hb
      exact hmap.imp (update_of_ne hT ..).trans (update_of_ne hT ..).trans
    | _ => exact hmap

theorem PreparedAt.call (hp : PreparedAt R l ts) (hok : ReplicaOk R calls phase)
    (hc : calls k = some c) (hs : R.call T' c timedOut = some (R', out))
    (hl : R.begunFor l = some T) : PreparedAt R' l ts := by
  obtain ⟨l', p, hmove, hsim, -⟩ := hok.move hc hs
  intro t' ht'
  rw [hsim.txns l] at ht'
  by_cases hll : l = l'
  · subst hll
    rw [update_self] at ht'
    cases ht : (phase l).txn with
    | none =>
      rw [hmove.txn_none (hok.known l T hl) ht] at ht'
      cases ht'
    | some t =>
      have hprep := hp t ((hok.sim.txns l).trans ht)
      have harch := hmove.archived_of_prepared (Phase.archived_of_txn ht) hprep.1
      rw [Phase.archived_of_txn ht'] at harch
      cases harch
      exact hprep
  · rw [update_of_ne hll] at ht'
    exact hp t' ((hok.sim.txns l).trans ht')

theorem PreparedAt.move (hp : PreparedAt R l ts) (hok : ReplicaOk R calls phase)
    (hl : R.begunFor l = some T) (hm : RaftMove log R R') : PreparedAt R' l ts := by
  cases hm with
  | start => exact hp
  | @step a _ ha hstep =>
    cases hstep with
    | more _ hcall | imported _ hcall | decided _ hcall =>
      have hp' := hp.call hok (hok.raft_call ha) hcall hl
      exact hp'
    | _ => exact hp

/-! ## Moves of the handlers -/

theorem OnLog.call (h : OnLog log R) (hs : R.call T' c timedOut = some (R', out)) {op : Op}
    (hserves : c.Serves op) (hop : ∀ l ts, op ≠ .commit l ts) : OnLog log R' := by
  have hrec := h.recorded.call hs hserves hop
  obtain ⟨m, -, rfl⟩ := Replica.call_eq hs
  exact ⟨h.bound, h.runs, h.quiet, hrec⟩

/-- The state machine is changed by a handler that holds its mutex. -/
theorem OnLog.setSm (h : OnLog log R) (hfree : R.mutexFree = true) (sm : RaftStateMachine) :
    OnLog log { R with sm := sm } := by
  refine ⟨h.bound, ?_, h.quiet, h.recorded.store, h.recorded.later, h.recorded.quiet⟩
  intro a ha
  have ha : R.applying = some a := ha
  obtain ⟨hlt, hruns⟩ := h.runs a ha
  refine ⟨hlt, ?_⟩
  simp only [Replica.mutexFree, ha, Bool.not_eq_true'] at hfree
  cases a with
  | run T0 c0 next =>
    cases next with
    | imported => exact hruns
    | decided => cases hfree
    | _ => exact absurd hruns id
  | entry | setImported => exact hruns
  | setPrepared => exact absurd hruns id

theorem Standing.call (hst : Standing log R T) (hok : ReplicaOk R calls phase)
    (hc : calls k = some c) (hs : R.call T' c timedOut = some (R', out)) (hspares : Spares R c T) :
    Standing log R' T := by
  unfold Standing
  rw [(Replica.call_frame hs).2.2.2]
  exact Agree.call hst hok hc hs hspares

theorem Tracked.call (ht : Tracked log R l b i) (hok : ReplicaOk R calls phase)
    (hc : calls k = some c) (hs : R.call T' c timedOut = some (R', out))
    (hspares : Spares R c b.raftTxnId) : Tracked log R' l b i := by
  unfold Tracked
  rw [(Replica.call_frame hs).2.2.2]
  exact ht.imp (fun hr => ⟨hr.1, hr.2.call hok hc hs hspares⟩)
    fun hst => ⟨hst.1, hst.2.call hok hc hs hspares⟩

theorem Tracked.setSm (ht : Tracked log R l b i) {sm : RaftStateMachine}
    (hsm : sm.txnIdMap b.raftTxnId = R.sm.txnIdMap b.raftTxnId) :
    Tracked log { R with sm := sm } l b i :=
  ht.imp (fun hr => ⟨hr.1, hr.2.setSm hsm⟩) fun hst => ⟨hst.1, Agree.setSm hst.2 hsm⟩

end TransDb.Raft
