import TransDb.Coordinator.Cluster
import TransDb.Coordinator.Recovery

/-!
# The ledger of the coordinator

What the log and the history of the coordinator say about its transactions, and what is
covered by it.

* `Ledger` — no transaction has records on both sides, `PREPARING` is its first, and before
  `COMMITTING` all have voted.
* `Grows`, `Ledger.grows` — one record or one drawn timestamp more.
* `Cluster.May` — what may have been sent: a timestamp was drawn for the transaction, and
  (`strict`) the log has the decision.
* `vouched`, `Told` — what the shards have promised; the votes agree with it.
* `serve_client`, `serve_recovery` — **the answers to an operation that keeps to its rules
  let the ledger grow.**
-/

namespace TransDb.Coordinator

open List Storage Txn Raft Shard

/-! ## The log and the history -/

/-- The commit timestamp that was drawn for a transaction. -/
def drawn (history : List CoordEvent) (T : RaftTxnId) : Option Timestamp :=
  history.findSome? fun
    | .drew T' c => if T' = T then some c else none
    | _ => none

variable {T : RaftTxnId}

theorem drawn_cons_of_ne {history : List CoordEvent} {ev : CoordEvent}
    (h : ∀ c, ev ≠ .drew T c) : drawn (ev :: history) T = drawn history T := by
  unfold drawn
  rw [findSome?_cons]
  cases ev with
  | drew T' c =>
    have hne : T' ≠ T := fun heq => h c (heq ▸ rfl)
    simp [hne]
  | _ => rfl

theorem drawn_cons_self (history : List CoordEvent) (T : RaftTxnId) (c : Timestamp) :
    drawn (.drew T c :: history) T = some c := by
  simp [drawn]

theorem mem_of_drawn {history : List CoordEvent} {c : Timestamp}
    (h : drawn history T = some c) : .drew T c ∈ history := by
  obtain ⟨ev, hev, heq⟩ := exists_of_findSome?_eq_some h
  cases ev with
  | drew T' c' =>
    obtain ⟨rfl, hc⟩ := Option.ite_none_right_eq_some.mp heq
    cases hc
    exact hev
  | _ => cases heq

theorem Cluster.hasBegun_iff {s : Cluster} :
    s.hasBegun T = true ↔ ∃ ts, .begun T ts ∈ s.history := by
  simp only [Cluster.hasBegun, any_eq_true]
  constructor
  · rintro ⟨ev, hev, heq⟩
    cases ev with
    | begun T' ts => exact ⟨ts, of_decide_eq_true heq ▸ hev⟩
    | _ => cases heq
  · rintro ⟨ts, hev⟩
    exact ⟨_, hev, decide_eq_true rfl⟩

theorem Cluster.hasBegun_mono {s s' : Cluster} (h : s.history ⊆ s'.history)
    (hT : s.hasBegun T = true) : s'.hasBegun T = true := by
  obtain ⟨ts, hts⟩ := Cluster.hasBegun_iff.mp hT
  exact Cluster.hasBegun_iff.mpr ⟨ts, h hts⟩

/-- What the log and the history say about the transactions. -/
structure Ledger (strict : Option VoteMap) (s : Cluster) : Prop where
  consistent : ∀ T, Consistent (recordsOf s.log.records T)
  prepared : ∀ r ∈ s.log.records, r.type = .preparing →
    r.shards ≠ [] ∧ drawn s.history r.txnId ≠ none
  first : ∀ pre r post, s.log.records = pre ++ r :: post → r.type = .preparing →
    recordsOf pre r.txnId = []
  recorded : ∀ r ∈ s.log.records, s.hasBegun r.txnId = true
  drew : ∀ T c, .drew T c ∈ s.history → s.hasBegun T = true ∧ drawn s.history T = some c
  voted : ∀ T, Has (recordsOf s.log.records T) .committing → Voted strict T (recordsOf s.log.records T)

/-- A record that may be written. -/
structure Cluster.Legal (strict : Option VoteMap) (s : Cluster) (r : CoordinatorLogRecord) :
    Prop where
  begun : s.hasBegun r.txnId = true
  preparing : r.type = .preparing →
    r.shards ≠ [] ∧ recordsOf s.log.records r.txnId = [] ∧ drawn s.history r.txnId ≠ none
  committing : r.type = .committing → Voted strict r.txnId (recordsOf s.log.records r.txnId)
  side : ∀ b, r.type.side = some b → ¬ Sides (recordsOf s.log.records r.txnId) (!b)

/-- A record is written, or a timestamp is drawn, or nothing. -/
inductive Grows (strict : Option VoteMap) (s s' : Cluster) : Prop where
  | same (records : s'.log.records = s.log.records) (history : s'.history = s.history)
  | append (r : CoordinatorLogRecord) (legal : s.Legal strict r)
      (records : s'.log.records = s.log.records ++ [r]) (history : s'.history = s.history)
  | draw (T : RaftTxnId) (c : Timestamp) (begun : s.hasBegun T = true)
      (fresh : drawn s.history T = none) (records : s'.log.records = s.log.records)
      (history : s'.history = .drew T c :: s.history)

section Ledger

variable {strict : Option VoteMap} {s s' : Cluster}

theorem Grows.subset (h : Grows strict s s') : s.history ⊆ s'.history := by
  cases h with
  | same _ heq | append _ _ _ heq => exact heq ▸ List.Subset.refl _
  | draw _ _ _ _ _ heq => exact heq ▸ subset_cons_self _ _

theorem Grows.has (h : Grows strict s s') {type : CoordinatorLogRecordType}
    (hT : Has (recordsOf s.log.records T) type) : Has (recordsOf s'.log.records T) type := by
  cases h with
  | same heq _ => exact heq ▸ hT
  | draw _ _ _ _ heq _ => exact heq ▸ hT
  | append r _ heq _ =>
    obtain ⟨r', hr', htype⟩ := hT
    obtain ⟨hmem, hid⟩ := mem_recordsOf.mp hr'
    exact ⟨r', mem_recordsOf.mpr ⟨heq ▸ mem_append_left _ hmem, hid⟩, htype⟩

variable (h : Ledger strict s)
include h

/-- What is left of the ledger when only the history and some records change. -/
theorem Ledger.of (hsub : s.history ⊆ s'.history)
    (hdrawn : ∀ T, drawn s.history T ≠ none → drawn s'.history T = drawn s.history T)
    (hdrew : ∀ T c, .drew T c ∈ s'.history →
      .drew T c ∈ s.history ∨ (s.hasBegun T = true ∧ drawn s'.history T = some c))
    (hmem : ∀ r ∈ s'.log.records, r ∈ s.log.records ∨ s.Legal strict r)
    (hconsistent : ∀ T, Consistent (recordsOf s'.log.records T))
    (hfirst : ∀ pre r post, s'.log.records = pre ++ r :: post → r.type = .preparing →
      recordsOf pre r.txnId = [])
    (hvoted : ∀ T, Has (recordsOf s'.log.records T) .committing →
      Voted strict T (recordsOf s'.log.records T)) : Ledger strict s' := by
  refine ⟨hconsistent, ?_, hfirst, ?_, ?_, hvoted⟩
  · intro r hr htype
    rcases hmem r hr with hold | hnew
    · obtain ⟨hshards, hd⟩ := h.prepared r hold htype
      exact ⟨hshards, by rwa [hdrawn _ hd]⟩
    · obtain ⟨hshards, -, hd⟩ := hnew.preparing htype
      exact ⟨hshards, by rwa [hdrawn _ hd]⟩
  · intro r hr
    rcases hmem r hr with hold | hnew
    · exact Cluster.hasBegun_mono hsub (h.recorded r hold)
    · exact Cluster.hasBegun_mono hsub hnew.begun
  · intro T c hT
    rcases hdrew T c hT with hold | ⟨hb, hd⟩
    · obtain ⟨hb, hd⟩ := h.drew T c hold
      exact ⟨Cluster.hasBegun_mono hsub hb, by rw [hdrawn T (by simp [hd]), hd]⟩
    · exact ⟨Cluster.hasBegun_mono hsub hb, hd⟩

/-- Nothing of a transaction is before its `PREPARING` record. -/
theorem Ledger.recordsOf_preparing {pre post : List CoordinatorLogRecord} {r : CoordinatorLogRecord}
    (hr : s.log.records = pre ++ r :: post) (htype : r.type = .preparing) :
    recordsOf s.log.records r.txnId = r :: recordsOf post r.txnId := by
  have hpre := h.first pre r post hr htype
  rw [hr, show pre ++ r :: post = pre ++ [r] ++ post by simp]
  simp only [recordsOf, filter_append] at hpre ⊢
  simp [hpre]

/-- The `PREPARING` record that `Recover` reads is the only one. -/
theorem Ledger.shards_eq {r : CoordinatorLogRecord} (hr : r ∈ s.log.records)
    (htype : r.type = .preparing) : r.shards = (recoveryState s.log.records r.txnId).shards := by
  obtain ⟨r', hr', htype', hshards⟩ :=
    recoveryState_shards ⟨r, mem_recordsOf.mpr ⟨hr, rfl⟩, htype⟩
  obtain ⟨hmem, hid⟩ := mem_recordsOf.mp hr'
  obtain ⟨pre, post, heq⟩ := append_of_mem hr
  obtain ⟨pre', post', heq'⟩ := append_of_mem hmem
  have hhead := h.recordsOf_preparing heq' htype'
  rw [hid, h.recordsOf_preparing heq htype] at hhead
  rw [hshards, (cons.inj hhead).1]

/-- An event that draws nothing. -/
theorem Ledger.event {ev : CoordEvent} (hev : ∀ T c, ev ≠ .drew T c)
    (hlog : s'.log.records = s.log.records) (hhistory : s'.history = ev :: s.history) :
    Ledger strict s' := by
  refine h.of (hhistory ▸ subset_cons_self _ _) ?_ ?_ (fun r hr => .inl (hlog ▸ hr))
    (hlog ▸ h.consistent) (hlog ▸ h.first) (hlog ▸ h.voted)
  · intro T _
    rw [hhistory]
    exact drawn_cons_of_ne (hev T)
  · intro T c hT
    rw [hhistory] at hT
    rcases mem_cons.mp hT with heq | hold
    · exact absurd heq.symm (hev T c)
    · exact .inl hold

/-- Some of the records are lost. -/
theorem Ledger.take {n : ℕ} (hlog : s'.log.records = s.log.records.take n)
    (hhistory : s'.history = s.history) : Ledger strict s' := by
  have hof : ∀ T, (recordsOf s'.log.records T).Sublist (recordsOf s.log.records T) := by
    intro T
    rw [hlog]
    exact (take_sublist _ _).filter _
  refine h.of (hhistory ▸ List.Subset.refl _) (fun T _ => by rw [hhistory])
    (fun T c hT => .inl (hhistory ▸ hT)) (fun r hr => .inl (mem_of_mem_take (hlog ▸ hr))) ?_ ?_ ?_
  · rintro T b ⟨r, hr, hside⟩ ⟨r', hr', hside'⟩
    exact h.consistent T b ⟨r, (hof T).subset hr, hside⟩ ⟨r', (hof T).subset hr', hside'⟩
  · intro pre r post hr
    refine h.first pre r (post ++ s.log.records.drop n) ?_
    calc s.log.records = s.log.records.take n ++ s.log.records.drop n :=
          (take_append_drop n _).symm
      _ = (pre ++ r :: post) ++ s.log.records.drop n := by rw [← hlog, hr]
      _ = pre ++ r :: (post ++ s.log.records.drop n) := by simp
  · rintro T ⟨r, hr, htype⟩ r' hr'
    exact h.voted T ⟨r, (hof T).subset hr, htype⟩ r' ((hof T).subset hr')

theorem Ledger.grows (hg : Grows strict s s') : Ledger strict s' := by
  cases hg with
  | same hlog hhistory =>
    exact h.of (hhistory ▸ List.Subset.refl _) (fun T _ => by rw [hhistory])
      (fun T c hT => .inl (hhistory ▸ hT)) (fun r hr => .inl (hlog ▸ hr)) (hlog ▸ h.consistent)
      (hlog ▸ h.first) (hlog ▸ h.voted)
  | draw T c hT hnone hlog hhistory =>
    refine h.of (hhistory ▸ subset_cons_self _ _) ?_ ?_ (fun r hr => .inl (hlog ▸ hr))
      (hlog ▸ h.consistent) (hlog ▸ h.first) (hlog ▸ h.voted)
    · intro T' hT'
      rw [hhistory, drawn_cons_of_ne]
      rintro c' ⟨⟩
      exact hT' hnone
    · intro T' c' hT'
      rw [hhistory] at hT'
      rcases mem_cons.mp hT' with heq | hold
      · cases heq
        exact .inr ⟨hT, by rw [hhistory, drawn_cons_self]⟩
      · exact .inl hold
  | append r hr hlog hhistory =>
    refine h.of (hhistory ▸ List.Subset.refl _) (fun T _ => by rw [hhistory])
      (fun T c hT => .inl (hhistory ▸ hT)) ?_ ?_ ?_ ?_
    · intro r' hr'
      rw [hlog] at hr'
      rcases mem_append.mp hr' with hold | hnew
      · exact .inl hold
      · exact .inr (mem_singleton.mp hnew ▸ hr)
    · intro T
      rw [hlog]
      by_cases hT : r.txnId = T
      · rw [recordsOf_append_self hT]
        exact (h.consistent T).append (hT ▸ hr.side)
      · rw [recordsOf_append_of_ne hT]
        exact h.consistent T
    · intro pre r' post hr' htype
      rw [hlog] at hr'
      rcases eq_nil_or_concat post with rfl | ⟨post', x, rfl⟩
      · obtain ⟨rfl, heq⟩ := append_inj' hr' rfl
        cases heq
        exact (hr.preparing htype).2.1
      · have hsplit : s.log.records ++ [r] = (pre ++ r' :: post') ++ [x] := by rw [hr']; simp
        exact h.first pre r' post' (append_inj' hsplit rfl).1 htype
    · intro T hhas
      rw [hlog] at hhas ⊢
      by_cases hT : r.txnId = T
      · subst hT
        rw [recordsOf_append_self rfl] at hhas ⊢
        by_cases hprep : r.type = .preparing
        · -- it is the first record
          rw [(hr.preparing hprep).2.1] at hhas
          obtain ⟨r', hr', htype⟩ := hhas
          rw [mem_singleton.mp hr', hprep] at htype
          cases htype
        · refine Voted.append ?_ hprep
          obtain ⟨r', hr', htype⟩ := hhas
          rcases mem_append.mp hr' with hold | hnew
          · exact h.voted _ ⟨r', hold, htype⟩
          · exact hr.committing (mem_singleton.mp hnew ▸ htype)
      · rw [recordsOf_append_of_ne hT] at hhas ⊢
        exact h.voted T hhas

end Ledger

/-! ## What the operations do -/

/-- What an operation with these futures knows of its transaction. -/
def Cluster.view (s : Cluster) (T : RaftTxnId) (fs : List Future) : TxnView :=
  ⟨s.txns T, drawn s.history T, recordsOf s.log.records T, fs.map Future.job⟩

/-- The log has the record that a decision needs before it is sent. -/
def Covered (records : List CoordinatorLogRecord) : Rpc → Prop
  | .commit T _ => Has (recordsOf records T) .committing
  | .abort T => Has (recordsOf records T) .aborting
  | _ => True

instance (records : List CoordinatorLogRecord) : DecidablePred (Covered records)
  | .commit _ _ => inferInstanceAs (Decidable (Has _ _))
  | .abort _ => inferInstanceAs (Decidable (Has _ _))
  | .execute _ _ => isTrue trivial
  | .prepare _ _ => isTrue trivial
  | .queryTxnState _ => isTrue trivial

section Rules

variable (strict : Option VoteMap) (fixed : Bool)

/-- The timestamp of a request was drawn for its transaction. -/
def Drawn (history : List CoordEvent) : Rpc → Prop
  | .prepare T c => .drew T c ∈ history
  | .commit T c => fixed = true → .drew T c ∈ history
  | _ => True

/-- What may have been sent. -/
def Cluster.May (s : Cluster) (rpc : Rpc) : Prop :=
  Drawn fixed s.history rpc ∧ (strict.isSome → Covered s.log.records rpc)

/-- The requests of a future. -/
def Cluster.MayAsk (s : Cluster) : Request → Prop
  | .call _ rpc => s.May strict fixed rpc
  | _ => False

/-- The answers that a future may get. -/
def Request.credible : (e : Request) → e.Answer → Bool
  | .call shard rpc, answer => Coordinator.credible strict shard rpc answer
  | _, _ => true

/-- A future keeps to its calls, and its result agrees with the votes. -/
def Future.Safe (s : Cluster) (x : Future) : Prop :=
  x.thread.code.Safe (Rules.only (s.MayAsk strict fixed) (Request.credible strict))
    (fun _ r => x.job.allows strict r = true) ()

end Rules

section Effects

variable {strict : Option VoteMap} {fixed : Bool} {s s' : Cluster} {rpc : Rpc}

theorem Drawn.mono {history history' : List CoordEvent} (h : history ⊆ history')
    (hr : Drawn fixed history rpc) : Drawn fixed history' rpc := by
  cases rpc with
  | prepare T c => exact h hr
  | commit T c => exact fun hf => h (hr hf)
  | _ => trivial

theorem Grows.may (h : Grows strict s s') (hr : s.May strict fixed rpc) :
    s'.May strict fixed rpc := by
  refine ⟨hr.1.mono h.subset, fun hs => ?_⟩
  have hc := hr.2 hs
  cases rpc with
  | commit T c => exact h.has hc
  | abort T => exact h.has hc
  | _ => trivial

theorem Future.Safe.mono {x : Future}
    (h : ∀ rpc, s.May strict fixed rpc → s'.May strict fixed rpc) (hx : x.Safe strict fixed s) :
    x.Safe strict fixed s' := by
  refine Program.Safe.only_mono ?_ hx
  intro e he
  cases e with
  | call shard rpc => exact h rpc he
  | _ => exact he

theorem TxnView.MayCall.may {fs : List Future} (h : (s.view T fs).MayCall strict T rpc) :
    s.May strict fixed rpc := by
  cases rpc with
  | prepare T' c =>
    obtain ⟨rfl, hts⟩ := h
    exact ⟨mem_of_drawn hts, fun _ => trivial⟩
  | commit T' c =>
    obtain ⟨rfl, hts, hhas⟩ := h
    exact ⟨fun _ => mem_of_drawn hts, fun _ => hhas⟩
  | abort T' =>
    obtain ⟨rfl, hhas⟩ := h
    exact ⟨trivial, hhas⟩
  | execute | queryTxnState => exact ⟨trivial, fun _ => trivial⟩

theorem CoordinatorLog.MayCall.may (h : s.log.MayCall strict fixed rpc) :
    s.May strict fixed rpc := by
  cases rpc with
  | commit T c => exact ⟨fun hf => by simp [h.1] at hf, h.2⟩
  | abort T => exact ⟨trivial, h⟩
  | queryTxnState | execute => exact ⟨trivial, fun _ => trivial⟩
  | prepare => exact h.elim

/-- The code of a future makes the calls of its job only. -/
theorem Job.safe (cfg : Config) (job : Job) (h : s.May strict fixed job.rpc) :
    Future.Safe strict fixed s ⟨job, job.code cfg, none⟩ := by
  have hcall : ∀ shard, (Rules.only (s.MayAsk strict fixed) (Request.credible strict)).Still ()
      (.call shard job.rpc) := fun _ => Rules.only_still h
  unfold Future.Safe
  cases job with
  | prepare shard T ts =>
    refine safe_callUntilYes (hcall shard) fun r hr => ?_
    cases hyes : r.voteCommit with
    | false => simp [Job.allows, hyes]
    | true =>
      obtain ⟨answer, ha, hafter⟩ := hr hyes
      have := promised_of_credible (Option.ite_none_right_eq_some.mp hafter).1 ha
      exact Bool.or_eq_true_iff.mpr (.inr this)
  | commit shard T ts => exact safe_callUntilYes (hcall shard) fun _ _ => rfl
  | abort shard T => exact safe_abortOnShard (hcall shard) fun _ => rfl
  | abortOnce shard T =>
    simp only [Job.code]
    split_ifs
    · exact Program.Safe.bind (safe_anyAnswer (hcall shard) (fun _ _ => rfl) _)
    · rfl
  | scan shard T range =>
    exact Program.Safe.bind (safe_executeWithLeaderRetry (hcall shard) fun _ => rfl)

/-! ## What the shards have said -/

/-- A shard has promised a transaction. -/
def vouched (history : List Event) (T : RaftTxnId) : Bool :=
  history.any fun
    | .answered _ rpc r => decide (rpc.raftTxnId = T) && isPromise rpc (some r)
    | _ => false

/-- The votes agree with what the shards have promised, and those that report a commit were
asked for it. -/
structure Told (strict : Option VoteMap) (s : Cluster) : Prop where
  promised : ∀ shard T, vouched (s.shards shard).history T = true → promised strict T shard = true
  reported : strict.isSome → ∀ shard th T,
    .answered th (.queryTxnState T) (.txnState .committed) ∈ (s.shards shard).history →
      ∃ ts, (shard, .commit T ts) ∈ s.sent

theorem Told.none (s : Cluster) : Told none s := ⟨fun _ _ _ => rfl, by rintro ⟨⟩⟩

theorem Told.credible (h : Told strict s) {shard : ShardId} {call : ThreadId}
    {answer : Option Response}
    (ha : ∀ r, answer = some r → .answered call rpc r ∈ (s.shards shard).history) :
    credible strict shard rpc answer = true := by
  cases hp : isPromise rpc answer with
  | false => simp [Coordinator.credible, hp]
  | true =>
    refine Bool.or_eq_true_iff.mpr (.inr (h.promised shard _ (any_eq_true.mpr ?_)))
    cases answer with
    | none => cases rpc <;> cases hp
    | some r => exact ⟨_, ha r rfl, by simp [hp]⟩

theorem Told.trusts (h : Told strict s) (hsent : ∀ m ∈ s.sent, s.May strict fixed m.2)
    {shard : ShardId} {call : ThreadId} {answer : Option Response}
    (ha : ∀ r, answer = some r → .answered call rpc r ∈ (s.shards shard).history) :
    s.log.trusts strict rpc answer = true := by
  unfold CoordinatorLog.trusts
  split
  · rename_i T
    cases hstrict : strict with
    | none => rfl
    | some votes =>
      have hsome : strict.isSome := by rw [hstrict]; rfl
      obtain ⟨ts, hts⟩ := h.reported hsome shard call T (ha _ rfl)
      exact Bool.or_eq_true_iff.mpr (.inr (decide_eq_true ((hsent _ hts).2 hsome)))
  · rfl

/-- **A request of a client's operation.** -/
theorem serve_client {cfg : Config} {fs fs' : List Future} {i : Input} {e : Request}
    {a : e.Answer} (hserve : s.serve cfg (.client T) fs i e = some (a, s', fs'))
    (hmay : (clientRules strict T).may (s.view T fs) e)
    (hfs : ∀ x ∈ fs, x.Safe strict fixed s) (hbegun : s.hasBegun T = true)
    (hok : strict.isSome → ∀ r, e = .append r → r.type = .aborting → i = .ok) :
    (clientRules strict T).after (s.view T fs) e a = some (s'.view T fs') ∧ Grows strict s s' ∧
      ∀ T', T' ≠ T → s'.view T' = s.view T' := by
  have hupdate : ∀ (o : Option CoordinatorTxn) (T' : RaftTxnId), T' ≠ T →
      ({ s with txns := Function.update s.txns T o } : Cluster).view T' = s.view T' := by
    intro o T' hT'
    exact funext fun _ => by simp [Cluster.view, Function.update_of_ne hT']
  cases e with
  | append r =>
    obtain ⟨rfl, hprep, hvoted, hside⟩ := hmay
    by_cases hi : i = .ok
    · subst hi
      cases hserve
      refine ⟨?_, .append r ⟨hbegun, hprep, hvoted, hside⟩ rfl rfl, ?_⟩
      · simp [Cluster.view, recordsOf_append_self]
      · intro T' hT'
        exact funext fun _ => by simp [Cluster.view, recordsOf_append_of_ne hT'.symm]
    · have heq : (false, s, fs) = (a, s', fs') := by
        cases i <;> first | exact absurd rfl hi | exact Option.some.inj hserve
      cases heq
      have hno : ¬ (strict.isSome ∧ r.type = .aborting) := fun hc => hi (hok hc.1 r rfl hc.2)
      exact ⟨by simp [hno], .same rfl rfl, fun _ _ => rfl⟩
  | flush =>
    have heq : s'.view = s.view ∧ s'.log.records = s.log.records ∧ s'.history = s.history ∧
        fs' = fs := by
      cases i <;> cases hserve <;> exact ⟨rfl, rfl, rfl, rfl⟩
    obtain ⟨hview, hlog, hhistory, rfl⟩ := heq
    exact ⟨by rw [hview]; rfl, .same hlog hhistory, fun T' _ => by rw [hview]⟩
  | replay => exact hmay.elim
  | now =>
    cases hserve
    refine ⟨?_, .draw T s.clock hbegun hmay.1 rfl rfl, ?_⟩
    · simp [Cluster.view, Cluster.noteDraw, drawn_cons_self]
    · intro T' hT'
      have hne : ∀ c, CoordEvent.drew T s.clock ≠ .drew T' c := by
        rintro c ⟨⟩
        exact hT' rfl
      exact funext fun _ => by simp [Cluster.view, Cluster.noteDraw, drawn_cons_of_ne hne]
  | find T' =>
    obtain rfl : T' = T := hmay
    cases hserve
    exact ⟨by simp [Cluster.view], .same rfl rfl, fun _ _ => rfl⟩
  | erase T' | take T' | addParticipant T' shard =>
    obtain rfl : T' = T := hmay
    cases hserve
    exact ⟨by simp [Cluster.view], .same rfl rfl, hupdate _⟩
  | call shard rpc => cases hserve
  | spawn job =>
    cases hserve
    exact ⟨by simp [Cluster.view], .same rfl rfl, fun _ _ => rfl⟩
  | get k =>
    obtain ⟨r, hr, heq⟩ := Option.map_eq_some_iff.mp hserve
    cases heq
    obtain ⟨x, hx, hres⟩ := Option.bind_eq_some_iff.mp hr
    -- the future has returned what agrees with the votes
    have hallows : x.job.allows strict a = true := by
      have hsafe := hfs x (mem_of_getElem? hx)
      unfold Future.Safe at hsafe
      rwa [Thread.code_of_result hres] at hsafe
    exact ⟨by simp [Cluster.view, hx, hallows], .same rfl rfl, fun _ _ => rfl⟩
  | join =>
    obtain ⟨-, heq⟩ := Option.ite_none_right_eq_some.mp hserve
    cases heq
    exact ⟨rfl, .same rfl rfl, fun _ _ => rfl⟩
  | orderShards shards =>
    cases i with
    | shards order =>
      obtain ⟨hperm, heq⟩ := Option.ite_none_right_eq_some.mp hserve
      cases heq
      exact ⟨by simp [hperm], .same rfl rfl, fun _ _ => rfl⟩
    | _ => cases hserve
  | orderTxns txns => exact hmay.elim

/-- **A request of `Recover`.** -/
theorem serve_recovery {cfg : Config} {fs fs' : List Future} {i : Input} {e : Request}
    {a : e.Answer} (hserve : s.serve cfg .recovery fs i e = some (a, s', fs'))
    (hmay : (recoveryRules strict fixed).may s.log e) (hledger : Ledger strict s)
    (hfixed : fixed = true → e ≠ .now) :
    (recoveryRules strict fixed).after s.log e a = some s'.log ∧ Grows strict s s' ∧
      s'.txns = s.txns := by
  cases e with
  | append r =>
    obtain ⟨htype, hvoted, hside, hprep⟩ := hmay
    have hbegun : s.hasBegun r.txnId = true := by
      obtain ⟨r', hr', -⟩ := hprep
      obtain ⟨hmem, hid⟩ := mem_recordsOf.mp hr'
      exact hid ▸ hledger.recorded r' hmem
    cases i with
    | ok =>
      cases hserve
      exact ⟨rfl, .append r ⟨hbegun, fun hc => absurd hc htype, hvoted, hside⟩ rfl rfl, rfl⟩
    | _ =>
      cases hserve
      exact ⟨rfl, .same rfl rfl, rfl⟩
  | flush => cases i <;> cases hserve <;> exact ⟨rfl, .same rfl rfl, rfl⟩
  | replay =>
    cases hserve
    exact ⟨by simp [recoveryRules], .same rfl rfl, rfl⟩
  | now =>
    cases hserve
    have hf : fixed ≠ true := fun hc => hfixed hc rfl
    exact ⟨by simp [recoveryRules, hf], .same rfl rfl, rfl⟩
  | find T' => exact hmay.elim
  | erase T' => exact hmay.elim
  | take T' => exact hmay.elim
  | addParticipant T' shard => exact hmay.elim
  | call shard rpc => cases hserve
  | spawn job =>
    cases hserve
    exact ⟨rfl, .same rfl rfl, rfl⟩
  | get k =>
    obtain ⟨r, -, heq⟩ := Option.map_eq_some_iff.mp hserve
    cases heq
    exact ⟨rfl, .same rfl rfl, rfl⟩
  | join =>
    obtain ⟨-, heq⟩ := Option.ite_none_right_eq_some.mp hserve
    cases heq
    exact ⟨rfl, .same rfl rfl, rfl⟩
  | orderShards shards =>
    cases i with
    | shards order =>
      obtain ⟨-, heq⟩ := Option.ite_none_right_eq_some.mp hserve
      cases heq
      exact ⟨rfl, .same rfl rfl, rfl⟩
    | _ => cases hserve
  | orderTxns txns =>
    cases i with
    | txns order =>
      obtain ⟨hperm, heq⟩ := Option.ite_none_right_eq_some.mp hserve
      cases heq
      exact ⟨by simp [recoveryRules, hperm], .same rfl rfl, rfl⟩
    | _ => cases hserve

end Effects

end TransDb.Coordinator
