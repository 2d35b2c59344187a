import TransDb.Coordinator.Discipline

/-!
# `Recover` keeps to the rules

`Recover` reads the log once and goes through its transactions.  Whatever the shards answer
and whichever of its writes fail, it takes the side that the log already has for a
transaction, and when it returns OK everything that was prepared is decided and flushed.

* `sawPreparing_iff`, …, `recoveryState_shards` — what is read in the log.
* `carryOut_safe`, `recoverTxn_safe` — one transaction.
* `recover_safe` — the whole of `Recover`.
* `recover_readsOnly` — on a log where all is decided, nothing is left to do.
-/

namespace TransDb.Coordinator

open List Storage Txn Raft Shard

/-! ## What `Recover` reads in the log -/

section Flags

variable {records : List CoordinatorLogRecord} {T : RaftTxnId} {flag : TxnRecoveryState → Bool}
  {type : CoordinatorLogRecordType}

/-- A flag of `TxnRecoveryState` is set by the records of one type. -/
theorem foldl_see_flag (hflag : ∀ st r, flag (st.see r) = (flag st || decide (r.type = type)))
    (rs : List CoordinatorLogRecord) (st : TxnRecoveryState) :
    flag (rs.foldl TxnRecoveryState.see st) = true ↔ flag st = true ∨ Has rs type := by
  induction rs generalizing st with
  | nil => simp [Has]
  | cons r rs ih =>
    rw [foldl_cons, ih, hflag]
    simp only [Has, Bool.or_eq_true, decide_eq_true_eq, mem_cons, exists_eq_or_imp, or_assoc]

theorem recoveryState_flag (hflag : ∀ st r, flag (st.see r) = (flag st || decide (r.type = type)))
    (hempty : flag .empty = false) :
    flag (recoveryState records T) = true ↔ Has (recordsOf records T) type := by
  have h := foldl_see_flag hflag (recordsOf records T) .empty
  rw [hempty] at h
  refine h.trans ?_
  simp

theorem sawPreparing_iff :
    (recoveryState records T).sawPreparing = true ↔ Has (recordsOf records T) .preparing := by
  refine recoveryState_flag (fun st r => ?_) rfl
  cases hr : r.type <;> simp [TxnRecoveryState.see, hr]

theorem sawCommitting_iff :
    (recoveryState records T).sawCommitting = true ↔ Has (recordsOf records T) .committing := by
  refine recoveryState_flag (fun st r => ?_) rfl
  cases hr : r.type <;> simp [TxnRecoveryState.see, hr]

theorem sawCommitted_iff :
    (recoveryState records T).sawCommitted = true ↔ Has (recordsOf records T) .committed := by
  refine recoveryState_flag (fun st r => ?_) rfl
  cases hr : r.type <;> simp [TxnRecoveryState.see, hr]

theorem sawAborting_iff :
    (recoveryState records T).sawAborting = true ↔ Has (recordsOf records T) .aborting := by
  refine recoveryState_flag (fun st r => ?_) rfl
  cases hr : r.type <;> simp [TxnRecoveryState.see, hr]

theorem sawAborted_iff :
    (recoveryState records T).sawAborted = true ↔ Has (recordsOf records T) .aborted := by
  refine recoveryState_flag (fun st r => ?_) rfl
  cases hr : r.type <;> simp [TxnRecoveryState.see, hr]

/-- The shards are those of a `PREPARING` record. -/
theorem recoveryState_shards (h : Has (recordsOf records T) .preparing) :
    ∃ r ∈ recordsOf records T, r.type = .preparing ∧ (recoveryState records T).shards = r.shards := by
  have hfold : ∀ (rs : List CoordinatorLogRecord) (st : TxnRecoveryState), Has rs .preparing →
      ∃ r ∈ rs, r.type = .preparing ∧ (rs.foldl TxnRecoveryState.see st).shards = r.shards := by
    intro rs
    induction rs using reverseRecOn with
    | nil => rintro st ⟨r, hr, -⟩; cases hr
    | append_singleton rs r ih =>
      intro st hhas
      rw [foldl_append, foldl_cons, foldl_nil]
      by_cases hr : r.type = .preparing
      · exact ⟨r, by simp, hr, by simp [TxnRecoveryState.see, hr]⟩
      · obtain ⟨r0, hr0, htype⟩ := hhas
        have hmem : r0 ∈ rs := by
          rcases mem_append.mp hr0 with hold | hnew
          · exact hold
          · rw [mem_singleton.mp hnew] at htype
            exact absurd htype hr
        obtain ⟨r1, hr1, htype1, hshards⟩ := ih st ⟨r0, hmem, htype⟩
        refine ⟨r1, mem_append_left _ hr1, htype1, ?_⟩
        rw [← hshards]
        cases hr' : r.type <;> simp_all [TxnRecoveryState.see]
  exact hfold _ _ h

end Flags

/-! ## `Recover` -/

section Recovery

variable {strict : Option VoteMap} {fixed : Bool} {T : RaftTxnId} {v : CoordinatorLog}

theorem recovery_still_get (k : ℕ) : (recoveryRules strict fixed).Still v (.get k) :=
  ⟨trivial, by rintro _ _ ⟨⟩; rfl⟩

theorem recovery_still_join : (recoveryRules strict fixed).Still v .join :=
  ⟨trivial, by rintro _ _ ⟨⟩; rfl⟩

theorem recovery_still_call {shard : ShardId} {rpc : Rpc} (h : v.MayCall strict fixed rpc) :
    (recoveryRules strict fixed).Still v (.call shard rpc) :=
  ⟨h, fun _ _ h => (Option.some.inj (Option.ite_none_right_eq_some.mp h).2).symm⟩

theorem recovery_still_spawn {job : Job} (h : v.MayCall strict fixed job.rpc) :
    (recoveryRules strict fixed).Still v (.spawn job) :=
  ⟨h, by rintro _ _ ⟨⟩; rfl⟩

/-- Only the records of this transaction change. -/
def CoordinatorLog.Others (v v' : CoordinatorLog) (T : RaftTxnId) : Prop :=
  ∀ T', T' ≠ T → recordsOf v'.records T' = recordsOf v.records T'

/-- `AppendCoordinatorRecord` in `Recover`. -/
theorem recovery_appendRecord {Q : CoordinatorLog → Status → Prop} {type : CoordinatorLogRecordType}
    {b : Bool} (htype : type.side = some b)
    (hvoted : type = .committing → Voted strict T (recordsOf v.records T))
    (hside : ¬ Sides (recordsOf v.records T) (!b)) (hprep : Has (recordsOf v.records T) .preparing)
    (h : ∀ v' st, v.Others v' T →
      (v'.records = v.records ∨ v'.records = v.records ++ [⟨type, T, []⟩]) →
      (st.code = .ok → v'.flushed = v'.records.length ∧ v'.records = v.records ++ [⟨type, T, []⟩]) →
      Q v' st) :
    (appendRecord type T []).Safe (recoveryRules strict fixed) Q v := by
  have hothers : v.Others { v with records := v.records ++ [⟨type, T, []⟩] } T :=
    fun T' hT' => recordsOf_append_of_ne fun heq => hT' heq.symm
  simp only [appendRecord, appendWrite, perform, Program.request_bind, Program.pure_eq]
  refine ⟨⟨?_, hvoted, ?_, hprep⟩, ?_⟩
  · rintro rfl
    cases htype
  · intro b' hb'
    obtain rfl : b = b' := Option.some.inj (htype.symm.trans hb')
    exact hside
  · rintro written v1 ⟨⟩
    cases written
    · exact h _ _ (fun _ _ => rfl) (.inl rfl) (fun hok => by cases hok)
    · refine ⟨trivial, ?_⟩
      rintro flushed v2 ⟨⟩
      cases flushed
      · exact h _ _ hothers (.inr rfl) (fun hok => by cases hok)
      · exact h _ _ hothers (.inr rfl) (fun _ => ⟨rfl, rfl⟩)

variable {shards : List ShardId}

theorem driveCommit_safe {Q : CoordinatorLog → Status → Prop}
    (hhas : Has (recordsOf v.records T) .committing)
    (hprep : Has (recordsOf v.records T) .preparing) (h : ∀ st, Q v st) :
    (driveCommit T shards).Safe (recoveryRules strict fixed) Q v := by
  simp only [driveCommit, perform, Program.request_bind, Program.pure_eq]
  refine ⟨⟨T, hprep⟩, ?_⟩
  intro ts v1 hv1
  obtain ⟨hfixed, heq⟩ := Option.ite_none_left_eq_some.mp hv1
  cases heq
  have hmay : v.MayCall strict fixed (.commit T ts) := ⟨Bool.not_eq_true _ ▸ hfixed, fun _ => hhas⟩
  refine Program.Safe.bind (safe_spawnAll (fun _ => recovery_still_spawn hmay) fun futs => ?_)
  refine Program.Safe.bind (safe_collect recovery_still_get fun failed _ => ?_)
  refine Program.Safe.ask_still recovery_still_join fun _ => ?_
  split_ifs <;> exact h _

theorem driveAbort_safe {Q : CoordinatorLog → Status → Prop}
    (hhas : Has (recordsOf v.records T) .aborting) (_ : Has (recordsOf v.records T) .preparing)
    (h : ∀ st, Q v st) : (driveAbort T shards).Safe (recoveryRules strict fixed) Q v := by
  refine Program.Safe.bind (safe_spawnAll (fun _ => recovery_still_spawn fun _ => hhas) fun futs => ?_)
  exact Program.Safe.bind (safe_waitAll recovery_still_get (h _))

/-- **A decision of `Recover`** is on one side, and ends with the last record flushed. -/
theorem carryOut_safe {Q : CoordinatorLog → Status → Prop} {first last : CoordinatorLogRecordType}
    {b : Bool} {drive : Code Status} (hfirst : first.side = some b) (hlast : last.side = some b)
    (hdrive : ∀ {v : CoordinatorLog} {Q : CoordinatorLog → Status → Prop}, Has (recordsOf v.records T) first →
      Has (recordsOf v.records T) .preparing → (∀ st, Q v st) → drive.Safe (recoveryRules strict fixed) Q v)
    (hvoted : first = .committing → Voted strict T (recordsOf v.records T))
    (hother : last ≠ .committing)
    (hside : ¬ Sides (recordsOf v.records T) (!b)) (hprep : Has (recordsOf v.records T) .preparing)
    (h : ∀ v' st, v.Others v' T →
      (st.code = .ok → v'.flushed = v'.records.length ∧ Has (recordsOf v'.records T) last) →
      Q v' st) :
    (carryOut first last T drive).Safe (recoveryRules strict fixed) Q v := by
  have hrecord : ∀ {v' : CoordinatorLog} {type : CoordinatorLogRecordType} {rs : List CoordinatorLogRecord},
      v'.records = rs ++ [⟨type, T, []⟩] → Has (recordsOf v'.records T) type := by
    intro v' type rs hv'
    exact ⟨⟨type, T, []⟩, mem_recordsOf.mpr ⟨by rw [hv']; simp, rfl⟩, rfl⟩
  refine Program.Safe.bind (recovery_appendRecord hfirst hvoted hside hprep ?_)
  intro v1 st hothers hgrow hok
  split_ifs with hst
  · obtain ⟨-, hv1⟩ := hok hst
    have hof : recordsOf v1.records T = recordsOf v.records T ++ [⟨first, T, []⟩] := by
      rw [hv1, recordsOf_append_self rfl]
    have hprep1 : Has (recordsOf v1.records T) .preparing := hof ▸ hprep.append _
    have hside1 : ¬ Sides (recordsOf v1.records T) (!b) := by
      rw [hof]
      rintro ⟨r, hr, hrside⟩
      rcases mem_append.mp hr with hold | hnew
      · exact hside ⟨r, hold, hrside⟩
      · rw [mem_singleton.mp hnew, hfirst] at hrside
        cases b <;> cases hrside
    refine Program.Safe.bind (hdrive (hrecord hv1) hprep1 fun st' => ?_)
    split_ifs with hst'
    · refine recovery_appendRecord hlast (fun hc => absurd hc hother) hside1 hprep1 ?_
      intro v2 st2 hothers2 _ hok2
      refine h v2 st2 (fun T' hT' => (hothers2 T' hT').trans (hothers T' hT')) ?_
      intro hst2
      exact ⟨(hok2 hst2).1, hrecord (hok2 hst2).2⟩
    · exact h v1 st' hothers fun hc => absurd hc hst'
  · exact h v1 st hothers fun hc => absurd hc hst

/-- What the states of the shards say, as long as no commit was sent: no shard has committed,
and those that are prepared have promised. -/
theorem queryAll_safe {Q : CoordinatorLog → List TxnStateCode → Prop} {cfg : Config}
    (hnot : ¬ Has (recordsOf v.records T) .committing)
    (h : ∀ states, (strict.isSome → .committed ∉ states) →
      ((∀ state ∈ states, state = .prepared ∨ state = .committed) →
        ∀ shard ∈ shards, promised strict T shard = true) → Q v states) :
    (queryAll cfg T shards).Safe (recoveryRules strict fixed) Q v := by
  induction shards generalizing Q with
  | nil => exact h _ (by simp) (by simp)
  | cons shard shards ih =>
    refine Program.Safe.bind (safe_queryShardTxnState (recovery_still_call trivial) ?_)
    intro state hstate
    refine Program.Safe.bind (ih fun states hcommitted hall => h _ ?_ ?_)
    all_goals
      have hafter := fun hne => Bool.and_eq_true_iff.mp (Option.ite_none_right_eq_some.mp (hstate hne)).1
    · intro hstrict hmem
      rcases mem_cons.mp hmem with rfl | hold
      · have htrusts := (hafter (by simp)).2
        cases strict <;> simp [CoordinatorLog.trusts, hnot] at hstrict htrusts
      · exact hcommitted hstrict hold
    · intro hstates
      obtain ⟨hone, hrest⟩ := forall_mem_cons.mp hstates
      refine forall_mem_cons.mpr ⟨?_, hall hrest⟩
      rcases hone with rfl | rfl
      · exact promised_of_credible (hafter (by simp)).1 rfl
      · have htrusts := (hafter (by simp)).2
        cases strict with
        | none => rfl
        | some votes => simp [CoordinatorLog.trusts, hnot] at htrusts

variable {records : List CoordinatorLogRecord}

/-- **The turn of a transaction** decides it, if it succeeds. -/
theorem recoverTxn_safe {Q : CoordinatorLog → Status → Prop} (cfg : Config)
    (hof : recordsOf v.records T = recordsOf records T)
    (hconsistent : Consistent (recordsOf records T))
    (hshards : ∀ r ∈ recordsOf records T, r.type = .preparing →
      r.shards ≠ [] ∧ r.shards = (recoveryState records T).shards)
    (hvoted : Has (recordsOf records T) .committing → Voted strict T (recordsOf records T))
    (hflushed : v.flushed = v.records.length) (h : ∀ v' st, v.Others v' T →
      (st.code = .ok → v'.flushed = v'.records.length ∧ Decided v'.records T) → Q v' st) :
    (recoverTxn cfg T (recoveryState records T)).Safe (recoveryRules strict fixed) Q v := by
  have hsame : ∀ T', T' ≠ T → recordsOf v.records T' = recordsOf v.records T' := fun _ _ => rfl
  unfold recoverTxn
  dsimp only
  split_ifs with hskip hnil hcommitting haborting
  · -- not prepared, or decided already
    refine h v _ hsame fun _ => ⟨hflushed, fun hprep => ?_⟩
    rw [hof] at hprep ⊢
    simpa [sawPreparing_iff.mpr hprep, sawCommitted_iff, sawAborted_iff] using hskip
  · -- the shards of a `PREPARING` record are not empty
    have hprep : Has (recordsOf records T) .preparing := by
      by_contra hno
      exact hskip (by simp [Bool.eq_false_iff.mpr (sawPreparing_iff.not.mpr hno)])
    obtain ⟨r, hr, htype, heq⟩ := recoveryState_shards hprep
    exact absurd (heq.symm.trans hnil) (hshards r hr htype).1
  all_goals
    have hprep : Has (recordsOf v.records T) .preparing := by
      rw [hof]
      by_contra hno
      exact hskip (by simp [Bool.eq_false_iff.mpr (sawPreparing_iff.not.mpr hno)])
    have hcommit : Voted strict T (recordsOf v.records T) →
        (¬ Sides (recordsOf v.records T) false) →
        (carryOut .committing .committed T
          (driveCommit T (recoveryState records T).shards)).Safe (recoveryRules strict fixed) Q v :=
      fun hv hside => carryOut_safe (b := true) rfl rfl driveCommit_safe (fun _ => hv) nofun hside hprep
        fun v' st hothers hok => h v' st hothers fun hst => ⟨(hok hst).1, fun _ => .inl (hok hst).2⟩
    have habort : (¬ Sides (recordsOf v.records T) true) →
        (carryOut .aborting .aborted T
          (driveAbort T (recoveryState records T).shards)).Safe (recoveryRules strict fixed) Q v :=
      fun hside => carryOut_safe (b := false) rfl rfl driveAbort_safe nofun nofun hside hprep
        fun v' st hothers hok => h v' st hothers fun hst => ⟨(hok hst).1, fun _ => .inr (hok hst).2⟩
    rw [hof] at hcommit habort
  · have hhas := sawCommitting_iff.mp hcommitting
    exact hcommit (hvoted hhas) (hconsistent true (hhas.sides rfl))
  · exact habort (hconsistent false ((sawAborting_iff.mp haborting).sides rfl))
  · -- no side is taken in the log
    have hnone : ∀ b, ¬ Sides (recordsOf records T) b := by
      rintro b ⟨r, hr, hside⟩
      cases htype : r.type with
      | preparing => rw [htype] at hside; cases hside
      | committing => exact hcommitting (sawCommitting_iff.mpr ⟨r, hr, htype⟩)
      | committed => exact hskip (by simp [sawCommitted_iff.mpr ⟨r, hr, htype⟩])
      | aborting => exact haborting (sawAborting_iff.mpr ⟨r, hr, htype⟩)
      | aborted => exact hskip (by simp [sawAborted_iff.mpr ⟨r, hr, htype⟩])
    have hnot : ¬ Has (recordsOf v.records T) .committing :=
      hof ▸ sawCommitting_iff.not.mp hcommitting
    refine Program.Safe.bind (queryAll_safe hnot fun states hcommitted hall => ?_)
    split_ifs with hany hready
    · exact habort (hnone _)
    · refine hcommit (fun r hr htype => ?_) (hnone _)
      rw [(hshards r hr htype).2]
      rcases Bool.or_eq_true_iff.mp hready with hprepared | hsome
      · exact hall (by simpa using hprepared)
      · cases strict with
        | none => exact fun _ _ => rfl
        | some votes => exact absurd (by simpa using hsome) (hcommitted rfl)
    · exact habort (hnone _)

/-- What holds of the log when `Recover` has returned. -/
def Recovered (v : CoordinatorLog) (st : Status) : Prop :=
  st.code = .ok → v.flushed = v.records.length ∧ ∀ T, Decided v.records T

theorem recoverAll_safe (cfg : Config) (hconsistent : ∀ T, Consistent (recordsOf records T))
    (hshards : ∀ r ∈ records, r.type = .preparing →
      r.shards ≠ [] ∧ r.shards = (recoveryState records r.txnId).shards)
    (hvoted : ∀ T, Has (recordsOf records T) .committing → Voted strict T (recordsOf records T))
    {txns : List RaftTxnId} (hnodup : txns.Nodup) (hflushed : v.flushed = v.records.length)
    (hof : ∀ T ∈ txns, recordsOf v.records T = recordsOf records T)
    (hdecided : ∀ T, T ∉ txns → Decided v.records T) :
    (recoverAll cfg (recoveryState records) txns).Safe (recoveryRules strict fixed) Recovered v := by
  induction txns generalizing v with
  | nil => exact fun _ => ⟨hflushed, fun T => hdecided T not_mem_nil⟩
  | cons T txns ih =>
    obtain ⟨hT, hnodup⟩ := nodup_cons.mp hnodup
    refine Program.Safe.bind (recoverTxn_safe cfg (hof T mem_cons_self) (hconsistent T)
      (fun r hr => (mem_recordsOf.mp hr).2 ▸ hshards r (mem_recordsOf.mp hr).1) (hvoted T)
      hflushed ?_)
    intro v1 st hothers hok
    split_ifs with hst
    · obtain ⟨hflushed1, hdecided1⟩ := hok hst
      have hne : ∀ T' ∈ txns, T' ≠ T := fun T' hT' heq => hT (heq ▸ hT')
      refine ih hnodup hflushed1 ?_ ?_
      · intro T' hT'
        rw [hothers T' (hne T' hT')]
        exact hof T' (mem_cons_of_mem _ hT')
      · intro T' hT'
        by_cases heq : T' = T
        · exact heq ▸ hdecided1
        · unfold Decided
          rw [hothers T' heq]
          exact hdecided T' (by simp [heq, hT'])
    · exact fun hc => absurd hc hst

/-- **`Recover` keeps to the rules**, and if it succeeds all that was prepared is decided. -/
theorem recover_safe (cfg : Config) (hflushed : v.flushed = v.records.length)
    (hconsistent : ∀ T, Consistent (recordsOf v.records T))
    (hshards : ∀ r ∈ v.records, r.type = .preparing →
      r.shards ≠ [] ∧ r.shards = (recoveryState v.records r.txnId).shards)
    (hvoted : ∀ T, Has (recordsOf v.records T) .committing → Voted strict T (recordsOf v.records T)) :
    (recover cfg).Safe (recoveryRules strict fixed) Recovered v := by
  simp only [recover, perform, Program.request_bind]
  refine ⟨trivial, ?_⟩
  intro records v1 hv1
  obtain ⟨rfl, heq⟩ := Option.ite_none_right_eq_some.mp hv1
  cases heq
  refine ⟨trivial, ?_⟩
  intro txns v2 hv2
  obtain ⟨hperm, heq⟩ := Option.ite_none_right_eq_some.mp hv2
  cases heq
  refine recoverAll_safe cfg hconsistent hshards hvoted (hperm.nodup_iff.mpr (nodup_dedup _)) hflushed
    (fun _ _ => rfl) ?_
  -- a transaction without records is not prepared
  rintro T hT ⟨r, hr, -⟩
  obtain ⟨hmem, rfl⟩ := mem_recordsOf.mp hr
  exact absurd (hperm.mem_iff.mpr (mem_dedup.mpr (mem_map_of_mem hmem))) hT

theorem recoverAll_of_decided (cfg : Config) (h : ∀ T, Decided records T) (txns : List RaftTxnId) :
    recoverAll cfg (recoveryState records) txns = .ret .ok := by
  have hturn : ∀ T, recoverTxn cfg T (recoveryState records T) = .ret .ok := by
    intro T
    refine if_pos ?_
    by_cases hprep : Has (recordsOf records T) .preparing
    · rcases h T hprep with hcommitted | haborted
      · simp [sawCommitted_iff.mpr hcommitted]
      · simp [sawAborted_iff.mpr haborted]
    · simp [Bool.eq_false_iff.mpr (sawPreparing_iff.not.mpr hprep)]
  induction txns with
  | nil => rfl
  | cons T txns ih =>
    simp only [recoverAll, hturn, Program.ret_bind]
    exact ih

/-- Rules for code that reads a log and does nothing else. -/
def readsOnly (records : List CoordinatorLogRecord) : Rules Unit Request Request.Answer where
  may _
    | .replay => True
    | .orderTxns _ => True
    | _ => False
  after _
    | .replay, found => if found = records then some () else none
    | _, _ => some ()

/-- **Recovery is idempotent**: where all is decided no record is written and no call made. -/
theorem recover_readsOnly (cfg : Config) (h : ∀ T, Decided records T) :
    (recover cfg).Safe (readsOnly records) (fun _ st => st = .ok) () := by
  simp only [recover, perform, Program.request_bind]
  refine ⟨trivial, ?_⟩
  intro found _ hfound
  obtain ⟨rfl, -⟩ := Option.ite_none_right_eq_some.mp hfound
  refine ⟨trivial, ?_⟩
  intro txns _ _
  dsimp only
  rw [recoverAll_of_decided cfg h]
  rfl

end Recovery

end TransDb.Coordinator
