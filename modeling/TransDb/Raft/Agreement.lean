import TransDb.Raft.Replay

/-!
# A replica and the meaning of its log

A replica agrees with its log on a transaction as long as nobody but `Apply` decides
about the local transaction that stands for it.

* `Agree` — the replica agrees with the log on a transaction; `Agree.call` and
  `Agree.apply` **keep it**, and `Agree.apply` says what an entry puts.
* `Ready` — before its batch is applied, a transaction is as the batch will say;
  `Ready.apply` **leads to** `Agree`.
-/

namespace TransDb.Raft

open Function Storage Txn

/-- Between two entries: an open batch stands in the map, prepared. -/
def Agrees (R : Replica) (T : RaftTxnId) : Option PrepareBatch → Prop
  | none => R.sm.txnIdMap T = none
  | some b => ∃ l, R.sm.txnIdMap T = some l ∧ Prepared R l b

/-- `Apply` is importing the transaction. -/
def Applying.imports (T : RaftTxnId) : Applying → Prop
  | .run T' _ .imported => T' = T
  | .setImported T' _ => T' = T
  | _ => False

/-- The call is at the check of a decision. -/
def AtCheck (c : Call) (cmd : Command) (T : RaftTxnId) : Prop :=
  ∃ l, (c = .abort l .ok ∧ cmd = .abort T) ∨ ∃ ts, c = .commit l ts ∧ cmd = .commit T ts

/-- What a replica that applies a command knows of a transaction that is open with `o`
before the command. -/
inductive Agree (R : Replica) (o : Option PrepareBatch) (cmd : Command) (T : RaftTxnId) : Prop where
  /-- The command has not decided about the transaction yet. -/
  | settled (hagrees : Agrees R T o)
      (hcheck : ∀ c, R.applying = some (.run T c .decided) → AtCheck c cmd T)
      (himport : ∀ a, R.applying = some a → a.imports T → o = none)
      (hnew : ∀ l b, R.applying = some (.setImported T l) → cmd = .prepareBatch b → Prepared R l b)
  /-- Past the check, with the writes before `c.toPut` in the store. -/
  | closing {c : Call} (hrun : R.applying = some (.run T c .decided)) (hpast : c.isCheck = false)
      (hputs : ∀ ts, cmd = .commit T ts → ∃ b done, o = some b ∧
        R.puts R.lastApplied = done.map (fun w => (ts, w)) ∧ done ++ c.toPut = b.writes)

variable {T : RaftTxnId}

theorem Agree.of_idle {R : Replica} {o : Option PrepareBatch} (h : Agrees R T o)
    (hidle : ∀ a, R.applying = some a → ∃ e, a = .entry e) (cmd : Command) : Agree R o cmd T := by
  refine .settled h ?_ ?_ ?_
  · intro c hc
    cases hidle _ hc with | intro e he => cases he
  · intro a ha himp
    obtain ⟨e, rfl⟩ := hidle a ha
    exact absurd himp id
  · intro l b hl
    cases hidle _ hl with | intro e he => cases he

/-- Between two entries agreement does not depend on the command. -/
theorem Agree.agrees {R : Replica} {o : Option PrepareBatch} {cmd : Command}
    (h : Agree R o cmd T) (hidle : R.applying = none) : Agrees R T o := by
  cases h with
  | settled hagrees => exact hagrees
  | closing hrun =>
    rw [hidle] at hrun
    cases hrun

variable {κ : Type*} [DecidableEq κ] {R R' : Replica} {calls : Option κ → Option Call}
  {phase : TxnId → Phase (Option κ)} {T' : RaftTxnId} {c c' : Call} {timedOut : Bool} {out : Outcome}
  {i : Option κ} {o : Option PrepareBatch} {cmd : Command} {a : Applying} {l : TxnId}
  {b : PrepareBatch}

/-- Nobody decides about the local transactions of `T` here. -/
def Spares (R : Replica) (c : Call) (T : RaftTxnId) : Prop :=
  ∀ l, R.begunFor l = some T → (∀ e, c ≠ .abort l e) ∧ ∀ ts, c ≠ .commit l ts

theorem Spares.of_other (hl : ∀ l, c.target = some l → R.begunFor l = some T') (hT : T' ≠ T) :
    Spares R c T := by
  intro l hT'
  constructor
  · rintro e rfl
    exact hT (Option.some.inj ((hl l rfl).symm.trans hT'))
  · rintro ts rfl
    exact hT (Option.some.inj ((hl l rfl).symm.trans hT'))

theorem Prepared.call_of_spares {l : TxnId} {b : PrepareBatch} (hp : Prepared R l b)
    (h : ReplicaOk R calls phase) (hc : calls i = some c)
    (hs : R.call T' c timedOut = some (R', out)) (hspares : Spares R c T)
    (hl : R.begunFor l = some T) : Prepared R' l b :=
  hp.call h hc hs (hspares l hl).1 (hspares l hl).2

theorem Agrees.call (ha : Agrees R T o) (h : ReplicaOk R calls phase) (hc : calls i = some c)
    (hs : R.call T' c timedOut = some (R', out)) (hspares : Spares R c T) : Agrees R' T o := by
  have hsm := (Replica.call_frame hs).1
  cases o with
  | none =>
    show R'.sm.txnIdMap T = none
    rw [hsm]
    exact ha
  | some b =>
    obtain ⟨l, hmap, hp⟩ := ha
    exact ⟨l, by rw [hsm]; exact hmap, hp.call_of_spares h hc hs hspares (h.map T l hmap)⟩

/-- **A handler's call that spares the transaction keeps the agreement on it.** -/
theorem Agree.call (ha : Agree R o cmd T) (h : ReplicaOk R calls phase) (hc : calls i = some c)
    (hs : R.call T' c timedOut = some (R', out)) (hspares : Spares R c T) : Agree R' o cmd T := by
  obtain ⟨-, happ, hputs', hlast⟩ := Replica.call_frame hs
  cases ha with
  | settled hagrees hcheck himport hnew =>
    refine .settled (hagrees.call h hc hs hspares) ?_ ?_ ?_
    · rw [happ]
      exact hcheck
    · rw [happ]
      exact himport
    · intro l b hl hcmd
      rw [happ] at hl
      exact (hnew l b hl hcmd).call_of_spares h hc hs hspares (h.applying _ hl)
  | closing hrun hpast hputs =>
    refine .closing (happ.trans hrun) hpast ?_
    rw [hputs', hlast]
    exact hputs

/-- A handler changes the state machine for another transaction. -/
theorem Agree.setSm (ha : Agree R o cmd T) {sm : RaftStateMachine}
    (hsm : sm.txnIdMap T = R.sm.txnIdMap T) : Agree { R with sm := sm } o cmd T := by
  cases ha with
  | settled hagrees hcheck himport hnew =>
    refine .settled ?_ hcheck himport hnew
    cases o with
    | none => exact hsm.trans hagrees
    | some b =>
      obtain ⟨l, hmap, hp⟩ := hagrees
      exact ⟨l, hsm.trans hmap, hp⟩
  | closing hrun hpast hputs => exact .closing hrun hpast hputs

/-! ## Steps of `Apply` -/

/-- The command says nothing about the transaction. -/
def Command.Other (T : RaftTxnId) : Command → Prop
  | .prepareBatch b => b.raftTxnId ≠ T
  | .commit T' _ => T' ≠ T
  | .abort T' => T' ≠ T
  | _ => True

theorem openStep_of_other {o : RaftTxnId → Option PrepareBatch} {cmd : Command}
    (h : cmd.Other T) : openStep o cmd T = o T := by
  cases cmd with
  | prepareBatch b =>
    simp only [openStep]
    split_ifs
    · rfl
    · exact update_of_ne (Ne.symm h) ..
  | commit T' ts | abort T' => exact update_of_ne (Ne.symm h) ..
  | _ => rfl

theorem Agrees.of_eq (ha : Agrees R T o) (hm : R'.mgr = R.mgr)
    (hsm : R'.sm.txnIdMap T = R.sm.txnIdMap T) : Agrees R' T o := by
  cases o with
  | none => exact hsm.trans ha
  | some b =>
    obtain ⟨l, hmap, t, ht, hrest⟩ := ha
    exact ⟨l, hsm.trans hmap, t, by rw [hm]; exact ht, hrest⟩

theorem Agrees.isSome (ha : Agrees R T o) {l : TxnId}
    (hmap : R.sm.txnIdMap T = some l) : ∃ b, o = some b ∧ Prepared R l b := by
  cases o with
  | none => cases hmap.symm.trans ha
  | some b =>
    obtain ⟨l', hmap', hp⟩ := ha
    rw [hmap] at hmap'
    cases hmap'
    exact ⟨b, rfl, hp⟩

theorem Agrees.eq_none (ha : Agrees R T o) (hmap : R.sm.txnIdMap T = none) : o = none := by
  cases o with
  | none => rfl
  | some b =>
    obtain ⟨l, hmap', -⟩ := ha
    cases hmap.symm.trans hmap'

/-- The check of a commit finds the transaction that is prepared. -/
theorem Prepared.commit_step {l : TxnId} {b : PrepareBatch} (hp : Prepared R l b) {ts : Timestamp}
    {m : TxnManager} {out : Outcome} (hs : (Call.commit l ts).step R.mgr timedOut = some (m, out)) :
    out = .more (.applyWrites l ts b.writes) := by
  obtain ⟨t, ht, hstate, hws, -⟩ := hp
  simp only [Call.step, ht, hstate, ne_eq, not_true_eq_false, if_false, Option.some.injEq,
    Prod.mk.injEq, hws] at hs
  exact hs.2.symm

/-- What `ImportPreparedTxn` has made when it returns. -/
theorem Prepared.of_import {b : PrepareBatch}
    (hserves : c.Serves (.importPreparedTxn b.snapshotTs b.commitTs b.writes)) {r : Reply}
    (hs : R.call T' c timedOut = some (R', .done r)) : Prepared R' (r.txnId.getD 0) b := by
  obtain ⟨m, hstep, rfl⟩ := Replica.call_eq hs
  obtain ⟨l, hl⟩ := hserves.hands_out (.inr ⟨_, _, _, rfl⟩) hstep
  rw [hl]
  rcases (c.step_returns hstep hl).2 with ⟨ts, rfl⟩ | ⟨ts, cts, ws, rfl⟩
  · obtain ⟨ts', hop⟩ := hserves
    cases hop
  · cases hserves
    cases hstep
    exact ⟨_, update_self .., rfl, rfl, rfl⟩

omit [DecidableEq κ] in
/-- The Raft thread spares every transaction but the one it decides. -/
theorem ReplicaOk.spares_of_raft (h : ReplicaOk R calls phase) {next : ApplyEnd}
    (happ : R.applying = some (.run T' c next))
    (hruns : (Applying.run T' c next).Runs R.sm.txnIdMap cmd)
    (hne : ¬ (next = .decided ∧ T' = T)) : Spares R c T := by
  cases next with
  | imported =>
    obtain ⟨b, -, -, hserves⟩ := hruns
    intro l _
    have htarget : c.target = none := hserves.target
    constructor <;> (rintro _ rfl; cases htarget)
  | decided => exact Spares.of_other (h.applying _ happ).2 fun hT => hne ⟨rfl, hT⟩
  | _ => exact absurd hruns id

/-- The Raft thread goes on in the decision of the transaction. -/
theorem Agree.more_decided (ha : Agree R o cmd T) (hrec : Recorded R)
    (happ : R.applying = some (.run T c .decided))
    (hruns : (Applying.run T c .decided).Runs R.sm.txnIdMap cmd)
    (hs : R.call T c timedOut = some (R', .more c')) :
    Agree { R' with
      applying := some (.run T c' .decided)
      puts := Replica.notePut R.puts R.lastApplied c } o cmd T := by
  obtain ⟨m, hstep, rfl⟩ := Replica.call_eq hs
  obtain ⟨l, hmap, hserves⟩ := hruns
  have hpast' : c'.isCheck = false := by
    rcases hserves with ⟨-, hserves⟩ | ⟨ts, -, hserves⟩
    · exact hserves.isCheck_next (.inl ⟨l, rfl⟩) hstep
    · exact hserves.isCheck_next (.inr ⟨l, ts, rfl⟩) hstep
  refine .closing rfl hpast' ?_
  rintro ts rfl
  rcases hserves with ⟨hcmd, -⟩ | ⟨ts', hcmd, hserves⟩
  · cases hcmd
  cases hcmd
  cases ha with
  | settled hagrees hcheck =>
    rcases hcheck c happ with ⟨l', ⟨-, hcmd⟩ | ⟨ts', rfl, hcmd⟩⟩
    · cases hcmd
    cases hcmd
    cases hserves
    obtain ⟨b, rfl, hp⟩ := hagrees.isSome hmap
    cases hp.commit_step hstep
    have hquiet : R.puts R.lastApplied = [] := by
      by_contra hne
      obtain ⟨T0, c0, l0, ts0, hrun, -, hpast⟩ := hrec.quiet hne
      rw [happ] at hrun
      cases hrun
      cases hpast
    exact ⟨b, [], rfl, hquiet, rfl⟩
  | closing hrun hpast hputs =>
    rw [happ] at hrun
    cases hrun
    obtain ⟨b, done, hb, hdone, hall⟩ := hputs ts rfl
    rcases hserves.toPut_next hpast hstep with ⟨w, rest, rfl, rfl⟩ | ⟨hno, hsame⟩
    · refine ⟨b, done ++ [w], hb, ?_, ?_⟩
      · show update R.puts R.lastApplied (R.puts R.lastApplied ++ [(ts, w)])
          R.lastApplied = _
        rw [update_self, hdone, List.map_append]
        rfl
      · rw [← hall, List.append_assoc]
        rfl
    · rw [Replica.notePut_of_ne hno, hsame]
      exact ⟨b, done, hb, hdone, hall⟩

/-- The decision of the transaction is done: what it has put. -/
theorem Agree.puts_decided {o : RaftTxnId → Option PrepareBatch} (ha : Agree R (o T) cmd T)
    (happ : R.applying = some (.run T c .decided))
    (hruns : (Applying.run T c .decided).Runs R.sm.txnIdMap cmd) {r : Reply}
    (hs : R.call T c timedOut = some (R', .done r)) {ts : Timestamp} (hcmd : cmd = .commit T ts) :
    R'.puts R.lastApplied = putsOf o cmd := by
  obtain ⟨m, hstep, rfl⟩ := Replica.call_eq hs
  subst hcmd
  cases ha with
  | settled hagrees hcheck =>
    obtain ⟨l, hmap, ⟨hcmd, -⟩ | ⟨ts', hcmd, hserves⟩⟩ := hruns
    · cases hcmd
    cases hcmd
    rcases hcheck c happ with ⟨l', ⟨-, hcmd⟩ | ⟨ts', rfl, hcmd⟩⟩
    · cases hcmd
    cases hserves
    obtain ⟨b, -, hp⟩ := hagrees.isSome hmap
    cases hp.commit_step hstep
  | closing hrun hpast hputs =>
    rw [happ] at hrun
    cases hrun
    obtain ⟨b, done, hb, hdone, hall⟩ := hputs ts rfl
    rw [Call.toPut_of_done hstep, List.append_nil] at hall
    simp only [putsOf, hb]
    rw [← hall]
    exact hdone

/-- **A step of `Apply` keeps the agreement, and leads from one entry to the next.** -/
theorem Agree.apply {o : RaftTxnId → Option PrepareBatch} (ha : Agree R (o T) cmd T)
    (h : ReplicaOk R calls phase) (hrec : Recorded R) (happ : R.applying = some a)
    (hruns : a.Runs R.sm.txnIdMap cmd) (hstep : ApplySteps R cmd a R') :
    (R'.lastApplied = R.lastApplied ∧ Agree R' (o T) cmd T) ∨
    (R'.lastApplied = R.lastApplied + 1 ∧ R'.applying = none ∧ Agrees R' T (openStep o cmd T) ∧
      ∀ ts, cmd = .commit T ts → R'.puts R.lastApplied = putsOf o cmd) := by
  -- outside a decision of the transaction
  have hsettled : (∀ c, a ≠ .run T c .decided) → Agrees R T (o T) ∧
      (a.imports T → o T = none) ∧
      (∀ l b, a = .setImported T l → cmd = .prepareBatch b → Prepared R l b) ∧
      ∀ ts, cmd = .commit T ts → R.puts R.lastApplied = [] := by
    intro hne
    cases ha with
    | settled hagrees hcheck himport hnew =>
      refine ⟨hagrees, himport a happ, fun l b hl => hnew l b (happ.trans (congrArg some hl)), ?_⟩
      rintro ts rfl
      by_contra hputs
      obtain ⟨T0, c0, l0, ts0, hrun, -, -⟩ := hrec.quiet hputs
      rw [happ] at hrun
      cases hrun
      obtain ⟨l, -, ⟨hcmd, -⟩ | ⟨ts', hcmd, -⟩⟩ := hruns <;> cases hcmd
      exact hne c0 rfl
    | closing hrun =>
      rw [happ] at hrun
      exact absurd (Option.some.inj hrun) (hne _)
  cases hstep with
  | skip hcmd =>
    subst hcmd
    obtain ⟨hagrees, -, -, -⟩ := hsettled (by simp)
    exact .inr ⟨rfl, rfl, hagrees.of_eq rfl rfl, fun ts hcmd => by cases hcmd⟩
  | @unknown e T0 hcmd hmap =>
    obtain ⟨hagrees, -, -, hquiet⟩ := hsettled (by simp)
    refine .inr ⟨rfl, rfl, ?_, ?_⟩
    · by_cases hT : T0 = T
      · subst hT
        have hnone : openStep o cmd T0 = none := by
          rcases hcmd with rfl | ⟨ts, rfl⟩ <;> exact update_self ..
        rw [hnone]
        exact hmap
      · rw [openStep_of_other (by rcases hcmd with rfl | ⟨ts, rfl⟩ <;> exact hT)]
        exact hagrees.of_eq rfl rfl
    · rintro ts rfl
      rcases hcmd with hcmd | ⟨ts', hcmd⟩ <;> cases hcmd
      simp only [putsOf, hagrees.eq_none hmap]
      exact hquiet ts rfl
  | @decide e T0 l op hcmd hmap =>
    obtain ⟨hagrees, -, -, -⟩ := hsettled (by simp)
    refine .inl ⟨rfl, .settled (hagrees.of_eq rfl rfl) ?_ ?_ ?_⟩
    · rintro c hc
      cases hc
      rcases hcmd with ⟨hcmd, rfl⟩ | ⟨ts, hcmd, rfl⟩
      · exact ⟨l, .inl ⟨rfl, hcmd⟩⟩
      · exact ⟨l, .inr ⟨ts, rfl, hcmd⟩⟩
    · rintro a' ⟨⟩ himp
      exact absurd himp id
    · rintro l' b ⟨⟩
  | @present e b l hcmd hmap =>
    subst hcmd
    obtain ⟨hagrees, -, -, -⟩ := hsettled (by simp)
    refine .inr ⟨rfl, rfl, ?_, fun ts hcmd => by cases hcmd⟩
    have hsame : openStep o (.prepareBatch b) T = o T := by
      by_cases hT : b.raftTxnId = T
      · subst hT
        obtain ⟨b', hb', -⟩ := hagrees.isSome hmap
        simp [openStep, hb']
      · exact openStep_of_other hT
    rw [hsame]
    exact hagrees.of_eq rfl rfl
  | @«import» e b hcmd hmap =>
    obtain ⟨hagrees, -, -, -⟩ := hsettled (by simp)
    refine .inl ⟨rfl, .settled (hagrees.of_eq rfl rfl) ?_ ?_ ?_⟩
    · rintro c ⟨⟩
    · rintro a' ⟨⟩ (himp : b.raftTxnId = T)
      subst himp
      exact hagrees.eq_none hmap
    · rintro l' b' ⟨⟩
  | @more T0 c c' next R1 timedOut hcall =>
    refine .inl ⟨(Replica.call_frame hcall).2.2.2, ?_⟩
    by_cases hmine : next = .decided ∧ T0 = T
    · obtain ⟨rfl, rfl⟩ := hmine
      exact ha.more_decided hrec happ hruns hcall
    · have hspares := h.spares_of_raft happ hruns hmine
      obtain ⟨hagrees, himport, -, -⟩ := hsettled (by rintro c0 ⟨⟩; exact hmine ⟨rfl, rfl⟩)
      refine .settled ((hagrees.call h (h.raft_call happ) hcall hspares).of_eq rfl rfl) ?_ ?_ ?_
      · rintro c0 ⟨⟩
        exact absurd ⟨rfl, rfl⟩ hmine
      · rintro a' ⟨⟩ himp
        refine himport ?_
        cases next with
        | imported => exact himp
        | _ => exact absurd himp id
      · rintro l' b' ⟨⟩
  | @imported T0 c r R1 timedOut hcall =>
    obtain ⟨hagrees, himport, -, -⟩ := hsettled (by simp)
    have hspares := h.spares_of_raft (T := T) happ hruns (by simp)
    obtain ⟨b, rfl, -, hserves⟩ := hruns
    refine .inl ⟨(Replica.call_frame hcall).2.2.2,
      .settled ((hagrees.call h (h.raft_call happ) hcall hspares).of_eq rfl rfl) ?_ ?_ ?_⟩
    · rintro c0 ⟨⟩
    · rintro a' ⟨⟩ himp
      exact himport himp
    · rintro l' b' ⟨⟩ ⟨⟩
      have hp : Prepared R1 (r.txnId.getD 0) b := Prepared.of_import hserves hcall
      exact hp
  | @decided T0 c r R1 timedOut hcall =>
    refine .inr ⟨congrArg (· + 1) (Replica.call_frame hcall).2.2.2, rfl, ?_⟩
    by_cases hT : T0 = T
    · subst hT
      have hputs : ∀ ts, cmd = .commit T0 ts → R1.puts R.lastApplied = putsOf o cmd :=
        fun ts hcmd => ha.puts_decided happ hruns hcall hcmd
      refine ⟨?_, hputs⟩
      have hnone : openStep o cmd T0 = none := by
        obtain ⟨l, -, ⟨rfl, -⟩ | ⟨ts, rfl, -⟩⟩ := hruns <;> exact update_self ..
      rw [hnone]
      exact update_self ..
    · obtain ⟨hagrees, -, -, -⟩ := hsettled (by rintro c0 ⟨⟩; exact hT rfl)
      have hspares := h.spares_of_raft (T := T) happ hruns (fun hmine => hT hmine.2)
      have hother : cmd.Other T ∧ ∀ ts, cmd ≠ .commit T ts := by
        obtain ⟨l, -, ⟨rfl, -⟩ | ⟨ts, rfl, -⟩⟩ := hruns
        · exact ⟨hT, by simp⟩
        · exact ⟨hT, fun ts' heq => hT (Command.commit.inj heq).1⟩
      rw [openStep_of_other hother.1]
      refine ⟨(hagrees.call h (h.raft_call happ) hcall hspares).of_eq rfl ?_,
        fun ts hcmd => absurd hcmd (hother.2 ts)⟩
      exact update_of_ne (Ne.symm hT) ..
  | @register T0 l =>
    obtain ⟨hagrees, himport, hnew, -⟩ := hsettled (by simp)
    obtain ⟨b, rfl, hb⟩ := hruns
    refine .inr ⟨rfl, rfl, ?_, fun ts hcmd => by cases hcmd⟩
    by_cases hT : T0 = T
    · subst hT
      have hopen : openStep o (.prepareBatch b) T0 = some b := by
        simp [openStep, hb, himport rfl]
      rw [hopen]
      exact ⟨l, update_self .., hnew l b rfl rfl⟩
    · have hother : (Command.prepareBatch b).Other T := by
        rw [← hb] at hT
        exact hT
      rw [openStep_of_other hother]
      exact hagrees.of_eq rfl (update_of_ne (Ne.symm hT) ..)

/-! ## Before the batch is applied -/

/-- Before its batch is applied, nothing stands in the map for the transaction, or the local
transaction is prepared as the batch will say, or a decision is about to remove it. -/
structure Ready (R : Replica) (T : RaftTxnId) (l : TxnId) (b : PrepareBatch) (cmd : Command) :
    Prop where
  map : R.sm.txnIdMap T = none ∨ R.sm.txnIdMap T = some l ∧
    (Prepared R l b ∨ ∃ c, R.applying = some (.run T c .decided))
  importing : ∀ a, R.applying = some a → a.imports T → R.sm.txnIdMap T = none
  new : ∀ l' b', R.applying = some (.setImported T l') → cmd = .prepareBatch b' → Prepared R l' b'

theorem Prepared.of_eq (hp : Prepared R l b) (hm : R'.mgr = R.mgr) : Prepared R' l b := by
  obtain ⟨t, ht, hrest⟩ := hp
  exact ⟨t, by rw [hm]; exact ht, hrest⟩

/-- Between two entries. -/
theorem Ready.of_idle (hmap : R.sm.txnIdMap T = none ∨ R.sm.txnIdMap T = some l ∧ Prepared R l b)
    (hidle : ∀ a, R.applying = some a → ∃ e, a = .entry e) (cmd : Command) :
    Ready R T l b cmd := by
  refine ⟨hmap.imp_right fun h => ⟨h.1, .inl h.2⟩, ?_, ?_⟩
  · intro a ha himp
    obtain ⟨e, rfl⟩ := hidle a ha
    exact absurd himp id
  · intro l' b' hl
    cases hidle _ hl with | intro e he => cases he

/-- While no decision about the transaction is being applied. -/
theorem Ready.settled (h : Ready R T l b cmd) (hne : ∀ c, R.applying ≠ some (.run T c .decided)) :
    R.sm.txnIdMap T = none ∨ R.sm.txnIdMap T = some l ∧ Prepared R l b :=
  h.map.imp_right fun hmap => ⟨hmap.1, hmap.2.resolve_right fun ⟨c, hc⟩ => hne c hc⟩

/-- A handler's call that spares the transaction leaves it ready. -/
theorem Ready.call (hr : Ready R T l b cmd) (h : ReplicaOk R calls phase) (hc : calls i = some c)
    (hs : R.call T' c timedOut = some (R', out)) (hspares : Spares R c T) : Ready R' T l b cmd := by
  obtain ⟨hsm, happ, -, -⟩ := Replica.call_frame hs
  refine ⟨?_, ?_, ?_⟩
  · rw [happ, hsm]
    refine hr.map.imp_right fun hmap => ⟨hmap.1, hmap.2.imp_left fun hp => ?_⟩
    exact hp.call_of_spares h hc hs hspares (h.map T l hmap.1)
  · rw [happ, hsm]
    exact hr.importing
  · intro l' b' hl hcmd
    rw [happ] at hl
    exact (hr.new l' b' hl hcmd).call_of_spares h hc hs hspares (h.applying _ hl)

theorem Ready.setSm (hr : Ready R T l b cmd) {sm : RaftStateMachine}
    (hsm : sm.txnIdMap T = R.sm.txnIdMap T) : Ready { R with sm := sm } T l b cmd := by
  refine ⟨?_, ?_, hr.new⟩
  · show sm.txnIdMap T = none ∨ sm.txnIdMap T = some l ∧ _
    rw [hsm]
    exact hr.map
  · intro a ha himp
    exact hsm.trans (hr.importing a ha himp)

/-- **A step of `Apply` leaves the transaction ready, until its batch is applied; then the
replica agrees with the log on it.** -/
theorem Ready.apply (hr : Ready R T l b cmd) (h : ReplicaOk R calls phase)
    (happ : R.applying = some a) (hruns : a.Runs R.sm.txnIdMap cmd) (hstep : ApplySteps R cmd a R')
    (hbatch : ∀ b', cmd = .prepareBatch b' → b'.raftTxnId = T → b' = b) :
    (R'.lastApplied = R.lastApplied ∧ Ready R' T l b cmd) ∨
    (R'.lastApplied = R.lastApplied + 1 ∧ R'.applying = none ∧
      ((∃ b', cmd = .prepareBatch b' ∧ b'.raftTxnId = T) → Agrees R' T (some b)) ∧
      ((∀ b', cmd = .prepareBatch b' → b'.raftTxnId ≠ T) → ∀ cmd', Ready R' T l b cmd')) := by
  -- while the command does not decide about the transaction
  have hsettled : (∀ c, a ≠ .run T c .decided) →
      R.sm.txnIdMap T = none ∨ R.sm.txnIdMap T = some l ∧ Prepared R l b :=
    fun hne => hr.settled fun c hc => hne c (Option.some.inj (happ.symm.trans hc))
  have hcalled : ∀ {T0 c0 next R1 timedOut out}, a = .run T0 c0 next →
      R.call T0 c0 timedOut = some (R1, out) → ¬ (next = .decided ∧ T0 = T) →
      R1.sm.txnIdMap T = none ∨ R1.sm.txnIdMap T = some l ∧ Prepared R1 l b := by
    rintro T0 c0 next R1 timedOut out rfl hcall hmine
    refine (hr.call h (h.raft_call happ) hcall (h.spares_of_raft happ hruns hmine)).settled ?_
    rw [(Replica.call_frame hcall).2.1, happ]
    rintro c ⟨⟩
    exact hmine ⟨rfl, rfl⟩
  -- an entry that is done and says nothing about the transaction
  have hother : ∀ {sm : RaftStateMachine}, sm.txnIdMap T = R.sm.txnIdMap T →
      (R.sm.txnIdMap T = none ∨ R.sm.txnIdMap T = some l ∧ Prepared R l b) →
      ∀ cmd', Ready (R.finish sm) T l b cmd' := by
    intro sm hsm hmap cmd'
    refine Ready.of_idle ?_ (by rintro _ ⟨⟩) cmd'
    show sm.txnIdMap T = none ∨ sm.txnIdMap T = some l ∧ _
    rw [hsm]
    exact hmap.imp_right fun hp => ⟨hp.1, hp.2.of_eq rfl⟩
  cases hstep with
  | skip hcmd =>
    subst hcmd
    refine .inr ⟨rfl, rfl, ?_, fun _ => hother rfl (hsettled (by simp))⟩
    rintro ⟨b', ⟨⟩, -⟩
  | unknown hcmd =>
    refine .inr ⟨rfl, rfl, ?_, fun _ => hother rfl (hsettled (by simp))⟩
    rintro ⟨b', rfl, -⟩
    rcases hcmd with hcmd | ⟨ts, hcmd⟩ <;> cases hcmd
  | @decide e T0 l0 op hcmd hmap =>
    refine .inl ⟨rfl, ?_, ?_, ?_⟩
    · exact (hsettled (by simp)).imp_right fun hp => ⟨hp.1, .inl (hp.2.of_eq rfl)⟩
    · rintro a' ⟨⟩ himp
      exact absurd himp id
    · rintro l' b' ⟨⟩
  | @present e b0 l0 hcmd hmap =>
    subst hcmd
    refine .inr ⟨rfl, rfl, ?_, fun _ => hother rfl (hsettled (by simp))⟩
    rintro ⟨b', ⟨⟩, rfl⟩
    rcases hsettled (by simp) with hnone | ⟨hmap', hp⟩
    · rw [hnone] at hmap
      cases hmap
    · exact ⟨l, hmap', hp.of_eq rfl⟩
  | @«import» e b0 hcmd hmap =>
    refine .inl ⟨rfl, ?_, ?_, ?_⟩
    · exact (hsettled (by simp)).imp_right fun hp => ⟨hp.1, .inl (hp.2.of_eq rfl)⟩
    · rintro a' ⟨⟩ (himp : b0.raftTxnId = T)
      subst himp
      exact hmap
    · rintro l' b' ⟨⟩
  | @more T0 c c' next R1 timedOut hcall =>
    obtain ⟨hsm, -, -, hlast⟩ := Replica.call_frame hcall
    refine .inl ⟨hlast, ?_, ?_, ?_⟩
    · by_cases hmine : next = .decided ∧ T0 = T
      · obtain ⟨rfl, rfl⟩ := hmine
        show R1.sm.txnIdMap T0 = none ∨ R1.sm.txnIdMap T0 = some l ∧ _
        rw [hsm]
        exact hr.map.imp_right fun hmap => ⟨hmap.1, .inr ⟨c', rfl⟩⟩
      · exact (hcalled rfl hcall hmine).imp_right fun hp => ⟨hp.1, .inl (hp.2.of_eq rfl)⟩
    · rintro a' ⟨⟩ himp
      show R1.sm.txnIdMap T = none
      rw [hsm]
      cases next with
      | imported => exact hr.importing _ happ himp
      | _ => exact absurd himp id
    · rintro l' b' ⟨⟩
  | @imported T0 c r R1 timedOut hcall =>
    obtain ⟨hsm, -, -, hlast⟩ := Replica.call_frame hcall
    have hmap := hcalled rfl hcall (by simp)
    obtain ⟨b0, rfl, -, hserves⟩ := hruns
    refine .inl ⟨hlast, hmap.imp_right fun hp => ⟨hp.1, .inl (hp.2.of_eq rfl)⟩, ?_, ?_⟩
    · rintro a' ⟨⟩ himp
      show R1.sm.txnIdMap T = none
      rw [hsm]
      exact hr.importing _ happ himp
    · rintro l' b' ⟨⟩ ⟨⟩
      have hp : Prepared R1 (r.txnId.getD 0) b0 := Prepared.of_import hserves hcall
      exact hp
  | @decided T0 c r R1 timedOut hcall =>
    have hnot : ∀ b', cmd ≠ .prepareBatch b' := by
      obtain ⟨l0, -, ⟨rfl, -⟩ | ⟨ts, rfl, -⟩⟩ := hruns <;> simp
    refine .inr ⟨congrArg (· + 1) (Replica.call_frame hcall).2.2.2, rfl, fun ⟨b', hcmd, _⟩ => absurd hcmd (hnot b'),
      fun _ => Ready.of_idle ?_ (by rintro _ ⟨⟩)⟩
    show update R1.sm.txnIdMap T0 none T = none ∨
      update R1.sm.txnIdMap T0 none T = some l ∧ _
    by_cases hT : T0 = T
    · subst hT
      exact .inl (update_self ..)
    · rw [update_of_ne (Ne.symm hT)]
      exact (hcalled rfl hcall fun hmine => hT hmine.2).imp_right fun hp => ⟨hp.1, hp.2.of_eq rfl⟩
  | @register T0 l0 =>
    obtain ⟨b0, rfl, hb0⟩ := hruns
    refine .inr ⟨rfl, rfl, ?_, ?_⟩
    · rintro ⟨b', ⟨⟩, rfl⟩
      obtain rfl := hbatch b0 rfl rfl
      subst hb0
      exact ⟨l0, update_self .., (hr.new l0 b0 happ rfl).of_eq rfl⟩
    · intro hne
      have hT : T ≠ T0 := by
        rintro rfl
        exact hne b0 rfl hb0
      exact hother (update_of_ne hT ..) (hsettled (by simp))

end TransDb.Raft
