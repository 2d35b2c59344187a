import TransDb.Txn.FoundReads

/-!
# What validation guarantees

A successful `Prepare` has found the rows of the read set with the versions that were
read.  From then on no transaction with a timestamp in between commits a write of these
rows, if none was hidden from the validation.

* `FinalValue` — the value that a commit leaves for a row at its timestamp.
* `ValueOk`, `ReadCall` — what the rows that reads have found rest on.
* `Sealed` — what a validated transaction can rely on; `Sessions.seal` **establishes it,
  `Sealed.update` keeps it.**
-/

namespace TransDb.Txn

open List Function Storage

/-! ## Rows and writes -/

/-- Writes of other rows do not count. -/
theorem lastWrite_append_of_not_touches {ws rest : List BufferedWrite} {tb : TableId} {k : Bytes}
    (h : touches rest tb k = false) : lastWrite (ws ++ rest) tb k = lastWrite ws tb k := by
  induction rest using reverseRecOn with
  | nil => rw [append_nil]
  | append_singleton rest w ih =>
    unfold touches at h ih
    rw [any_append, Bool.or_eq_false_iff] at h
    have hw : ¬ (w.tableId = tb ∧ w.key = k) := by simpa using h.2
    rw [← append_assoc, lastWrite_append, if_neg hw]
    exact ih h.1

variable {ws : List BufferedWrite} {tb : TableId} {k : Bytes} {t : Transaction} {ts : Timestamp}

theorem lastWrite_of_touches (h : touches ws tb k = true) : lastWrite ws tb k ≠ none := by
  induction ws using reverseRecOn with
  | nil => cases h
  | append_singleton ws w ih =>
    rw [lastWrite_append]
    by_cases hw : w.tableId = tb ∧ w.key = k
    · rw [if_pos hw]
      simp
    · rw [if_neg hw]
      refine ih ?_
      unfold touches at h ⊢
      rw [any_append, Bool.or_eq_true] at h
      rcases h with h | h
      · exact h
      · exact absurd (by simpa using h) hw

theorem touches_of_lastWrite (h : lastWrite ws tb k ≠ none) : touches ws tb k = true := by
  by_contra hnot
  have hfalse : touches ws tb k = false := by simpa using hnot
  have hnone : lastWrite ([] ++ ws) tb k = none := lastWrite_append_of_not_touches hfalse
  exact h hnone

/-! ## What reads rest on -/

/-- The value that a commit leaves for a row at its timestamp. -/
def FinalValue {ι : Type*} (phase : TxnId → Phase ι) (tb : TableId) (k : Bytes) (ts : Timestamp)
    (v : Bytes) : Prop :=
  ∃ W t, (phase W).commitOf = some (t, ts) ∧ lastWrite t.writeSet tb k = some v

/-- A row with this value is the last own write of it, or a final value that the
transaction has in its read set. -/
def ValueOk {ι : Type*} (phase : TxnId → Phase ι) : TxnId → List BufferedWrite → TableId → Bytes →
    Bytes → Prop :=
  ReadFrom (FinalValue phase) phase

/-- What a read or scan in progress has found so far. -/
def ReadCall {ι : Type*} (phase : TxnId → Phase ι) : Call → Prop :=
  ReadCallFrom (FinalValue phase) phase

/-- The transaction, while it can still commit. -/
def Phase.mayCommit {ι : Type*} : Phase ι → Option Transaction
  | .live t => some t
  | .committing _ t _ _ => some t
  | .committed t _ => some t
  | _ => none

/-- What a validated transaction can rely on: its reads are older than its commit, and
no transaction in between has written or will write the row and commit. -/
def Sealed {ι : Type*} (commitTs : TxnId → Option Timestamp) (phase : TxnId → Phase ι)
    (t : Transaction) : Prop :=
  ∀ r ∈ t.readSet, r.observedWriteTs < t.prepareCommitTs ∧
    ∀ W tW cW, (phase W).mayCommit = some tW → commitTs W = some cW → cW < t.prepareCommitTs →
      touches tW.writeSet r.tableId r.key = true → cW ≤ r.observedWriteTs

theorem Phase.mayCommit_of_commitOf {ι : Type*} {p : Phase ι} (h : p.commitOf = some (t, ts)) :
    p.mayCommit = some t := by
  cases p with
  | committing | committed =>
    cases h
    rfl
  | _ => cases h

theorem Sim.prepared_of_commitOf {ι : Type*} {m : TxnManager} {calls : ι → Option Call}
    {phase : TxnId → Phase ι} (h : Sim m calls phase) {T : TxnId}
    (hcommit : (phase T).commitOf = some (t, ts)) : t.state = .prepared := by
  have hok := h.ok T
  cases hp : phase T with
  | committing i t' ts' rest =>
    rw [hp] at hok hcommit
    cases hcommit
    exact hok.1
  | committed t' ts' =>
    rw [hp] at hok hcommit
    cases hcommit
    exact hok
  | _ =>
    rw [hp] at hcommit
    cases hcommit

namespace Move

variable {ι : Type*} {i : ι} {T : TxnId} {c : Call} {s s' : MVCCStore} {p p' : Phase ι}

theorem mayCommit_cases (h : Move i T c s p s' p') {t' : Transaction}
    (ht' : p'.mayCommit = some t') :
    (∃ t, p.mayCommit = some t ∧ t'.writeSet = t.writeSet) ∨ (∃ w, c = .buffer T w) ∨
      t'.writeSet = [] ∨ ∃ ts cts ws, c = .importLog T ts cts ws [] := by
  cases h with
  | draw | log | drawImport | logImport | reject | abandon | abort => cases ht'
  | insert =>
    cases ht'
    exact .inr (.inr (.inl rfl))
  | insertImport _ ts cts ws => exact .inr (.inr (.inr ⟨ts, cts, ws, rfl⟩))
  | write _ w => exact .inr (.inl ⟨w, rfl⟩)
  | read | scanRow | prepare =>
    cases ht'
    exact .inl ⟨_, rfl, rfl⟩
  | stay | commit | put | close => exact .inl ⟨t', ht', rfl⟩

theorem prepare_cases {T' : TxnId} (h : Move i T (.prepare T' ts) s p s' p') :
    p'.archived = p.archived ∨ ∃ t, p = .live t ∧ T' = T ∧ s' = s ∧
      validateReadSet s t ts = true ∧
      p' = .live { t with state := .prepared, prepareCommitTs := ts } := by
  cases h with
  | stay => exact .inl rfl
  | prepare _ _ ha hv => exact .inr ⟨_, rfl, rfl, rfl, hv, rfl⟩
  | reject => exact .inl rfl

end Move

section Update

variable {ι : Type*} {phase : TxnId → Phase ι} {i : ι} {T : TxnId} {c : Call} {st st' : MVCCStore}
  {p : Phase ι}

theorem commitOf_update (hmove : Move i T c st (phase T) st' p) {W : TxnId}
    {x : Transaction × Timestamp} (h : (phase W).commitOf = some x) :
    (update phase T p W).commitOf = some x :=
  update_mono (P := fun p : Phase ι => p.commitOf = some x) (fun _ => hmove.commitOf_mono) h

theorem FinalValue.update (hmove : Move i T c st (phase T) st' p)
    {v : Bytes} (h : FinalValue phase tb k ts v) :
    FinalValue (update phase T p) tb k ts v := by
  obtain ⟨W, t, hcommit, hw⟩ := h
  exact ⟨W, t, commitOf_update hmove hcommit, hw⟩

end Update

/-! ## Commits in progress -/

section Progress

variable {s : Clients} {phase : TxnId → Phase ThreadId} {W : TxnId}

variable (h : Sessions s phase)
include h

theorem Sessions.mem_inProgress {i : ThreadId} {rest : List BufferedWrite}
    (hp : phase W = .committing i t ts rest) : (W, ts, rest) ∈ s.threads.inProgress := by
  have hpc := h.follows.sim.committing W i t ts rest hp
  obtain ⟨⟨op, c⟩, hcall, hc⟩ := Option.map_eq_some_iff.mp hpc
  have hcalled := h.called i op c hcall
  refine mem_filterMap.mpr ⟨_, hcalled, ?_⟩
  simp only [hpc]

/-- The committed transactions are those whose commit has begun. -/
theorem Sessions.mem_committed :
    (W, ts) ∈ s.threads.committed ↔ ∃ t, (phase W).commitOf = some (t, ts) := by
  have hsim := h.follows.sim
  unfold Threads.committed
  rw [mem_append]
  constructor
  · rintro (hrec | hprog)
    · obtain ⟨r, hr, hsome⟩ := mem_filterMap.mp hrec
      split_ifs at hsome with htype
      obtain ⟨ts', hts', heq⟩ := Option.map_eq_some_iff.mp hsome
      cases heq
      have hmem : (WALRecordType.commit, r.payload) ∈ (phase r.txnId).content := by
        rw [← hsim.content]
        refine mem_map.mpr ⟨r, mem_filter.mpr ⟨hr, by simp⟩, by rw [htype]⟩
      obtain ⟨t, ts', hp, hpay⟩ := Phase.committed_of_mem_content hmem (h.not_importing _)
      rw [hpay, WAL.deserializeCommitPayload_serialize] at hts'
      cases hts'
      exact ⟨t, by rw [hp]; rfl⟩
    · obtain ⟨⟨W', ts', rest⟩, hmem, heq⟩ := mem_map.mp hprog
      cases heq
      obtain ⟨e, -, hsome⟩ := mem_filterMap.mp hmem
      cases e with
      | returned => cases hsome
      | called th op =>
        simp only at hsome
        split at hsome
        · rename_i t ts0 rest0 hpc
          cases hsome
          obtain ⟨txn, hp⟩ := hsim.call th _ hpc
          exact ⟨txn, by rw [hp]; rfl⟩
        · cases hsome
  · rintro ⟨t, hcommit⟩
    cases hp : phase W with
    | committing i t' ts' rest =>
      rw [hp] at hcommit
      cases hcommit
      exact .inr (mem_map.mpr ⟨_, h.mem_inProgress hp, rfl⟩)
    | committed t' ts' =>
      rw [hp] at hcommit
      cases hcommit
      obtain ⟨r, hr, heq⟩ := mem_map.mp ((hsim.commitIn_iff h.not_importing).mpr ⟨t, hp⟩)
      obtain ⟨hr, hT⟩ := mem_filter.mp hr
      have hT := of_decide_eq_true hT
      simp only [Prod.mk.injEq] at heq
      refine .inl (mem_filterMap.mpr ⟨r, hr, ?_⟩)
      rw [if_pos heq.1, heq.2, WAL.deserializeCommitPayload_serialize, hT]
      rfl
    | _ =>
      rw [hp] at hcommit
      cases hcommit

/-- What a committed transaction has written. -/
theorem Sessions.wrote_of_commitOf (hcommit : (phase W).commitOf = some (t, ts)) (tb : TableId)
    (k : Bytes) : s.threads.wrote W tb k = lastWrite t.writeSet tb k := by
  unfold Threads.wrote
  rw [h.follows.archive, Phase.archived_of_commitOf hcommit]
  rfl

/-- A version that is not put again is final. -/
theorem Sessions.final_of_version {v : Bytes}
    (hv : MVCCStore.version s.threads.mgr.store tb k ts = some v)
    (hsettled : s.settled tb k ts = true) : FinalValue phase tb k ts v := by
  obtain ⟨W, ws, happ, hw⟩ := (h.store.version tb k ts v).mp hv
  cases hp : phase W with
  | committing i t ts' rest =>
    have hok := h.follows.sim.ok W
    rw [hp] at happ hok
    obtain ⟨-, done, hdone⟩ := hok
    have hset := all_eq_true.mp hsettled _ (h.mem_inProgress hp)
    cases happ
    have hnot : touches rest tb k = false := by simpa using hset
    refine ⟨W, t, by rw [hp]; rfl, ?_⟩
    have htake : t.writeSet.take (t.writeSet.length - rest.length) = done := by
      simp [← hdone]
    rw [htake] at hw
    rw [← hdone, lastWrite_append_of_not_touches hnot]
    exact hw
  | committed t ts' =>
    rw [hp] at happ
    cases happ
    exact ⟨W, t, by rw [hp]; rfl, hw⟩
  | _ =>
    rw [hp] at happ
    cases happ

end Progress

/-! ## Validation -/

section Validation

variable {s : Clients} {phase : TxnId → Phase ThreadId} {commitTs : TxnId → Option Timestamp}
  {T : TxnId}

/-- What a validated transaction relies on is not disturbed by later steps. -/
theorem Sealed.update {ι : Type*} {phase : TxnId → Phase ι} {i : ι} {c : Call}
    {st st' : MVCCStore} {p : Phase ι} (h : Sealed commitTs phase t)
    (hmove : Move i T c st (phase T) st' p) (hbuffer : ∀ w, c = .buffer T w → commitTs T = none)
    (himport : ∀ T' ts cts ws rest, c ≠ .importLog T' ts cts ws rest) :
    Sealed commitTs (update phase T p) t := by
  intro r hr
  refine ⟨(h r hr).1, ?_⟩
  intro W tW cW hmay hcW hlt htouch
  rcases update_cases hmay with ⟨rfl, hat⟩ | ⟨-, hmay⟩
  · rcases hmove.mayCommit_cases hat with ⟨t0, ht0, hws⟩ | ⟨w, hw⟩ | hws | ⟨ts, cts, ws, himp⟩
    · rw [hws] at htouch
      exact (h r hr).2 W t0 cW ht0 hcW hlt htouch
    · rw [hbuffer w hw] at hcW
      cases hcW
    · rw [hws] at htouch
      cases htouch
    · exact absurd himp (himport _ _ _ _ _)
  · exact (h r hr).2 W tW cW hmay hcW hlt htouch

/-- A timestamp that is drawn later is not in between. -/
theorem Sealed.draw {ι : Type*} {phase : TxnId → Phase ι} (h : Sealed commitTs phase t) (T : TxnId)
    {now : Timestamp} (hnow : t.prepareCommitTs < now) :
    Sealed (Function.update commitTs T (some now)) phase t := by
  intro r hr
  refine ⟨(h r hr).1, ?_⟩
  intro W tW cW hmay hcW hlt htouch
  rcases update_eq_cases hcW with ⟨rfl, hcW'⟩ | ⟨-, hcW⟩
  · cases hcW'
    exact absurd hlt (UInt64.lt_asymm hnow)
  · exact (h r hr).2 W tW cW hmay hcW hlt htouch

/-- A writer that is not hidden has its version in the store. -/
theorem Sessions.version_of_writer (h : Sessions s phase) {T W : TxnId} {tW : Transaction}
    {cW : Timestamp} (hlive : phase T = .live t) (hts : s.commitTs T = some ts)
    (hhidden : s.noHiddenWriter T ts = true) {r : ReadEntry} (hr : r ∈ t.readSet)
    (hmay : (phase W).mayCommit = some tW) (hcW : s.commitTs W = some cW) (hlt : cW < ts)
    (htouch : touches tW.writeSet r.tableId r.key = true) :
    MVCCStore.version s.threads.mgr.store r.tableId r.key cW ≠ none := by
  have hsim := h.follows.sim
  have htxn : s.threads.mgr.txns T = some t := by rw [hsim.txns T, hlive]; rfl
  simp only [Clients.noHiddenWriter, htxn] at hhidden
  obtain ⟨hactive, hprogress⟩ := Bool.and_eq_true_iff.mp (all_eq_true.mp hhidden r hr)
  -- what it has put so far is in the store
  have hput : ∀ ws, (phase W).applied = some (cW, ws) → touches ws r.tableId r.key = true →
      MVCCStore.version s.threads.mgr.store r.tableId r.key cW ≠ none := by
    intro ws happ htouch
    obtain ⟨v, hv⟩ := Option.ne_none_iff_exists'.mp (lastWrite_of_touches htouch)
    rw [(h.store.version _ _ _ v).mpr ⟨W, ws, happ, hv⟩]
    simp
  cases hp : phase W with
  | live t' =>
    rw [hp] at hmay
    cases hmay
    have hW := all_eq_true.mp hactive W (hsim.mem_range_next (by rw [hp]; simp))
    have htxnW : s.threads.mgr.txns W = some tW := by rw [hsim.txns W, hp]; rfl
    simp only [htxnW, hcW, htouch] at hW
    have hor : W = T ∨ ¬ cW < ts := by simpa using hW
    rcases hor with rfl | hge
    · rw [hts] at hcW
      cases hcW
      exact absurd hlt (UInt64.lt_irrefl _)
    · exact absurd hlt hge
  | committing i t' ts' rest =>
    have hts' : ts' = cW := by
      have := h.commits W t' ts' (by rw [hp]; rfl)
      rw [hcW] at this
      exact (Option.some.inj this).symm
    subst hts'
    have hnot : touches rest r.tableId r.key = false := by
      have := all_eq_true.mp hprogress _ (h.mem_inProgress hp)
      simpa [hlt] using this
    have hok := hsim.ok W
    rw [hp] at hok hmay
    cases hmay
    obtain ⟨-, done, hdone⟩ := hok
    refine hput done (by rw [hp]; simp [Phase.applied, ← hdone]) ?_
    rw [← hdone] at htouch
    unfold touches at htouch hnot ⊢
    rw [any_append, hnot, Bool.or_false] at htouch
    exact htouch
  | committed t' ts' =>
    have hts' : ts' = cW := by
      have := h.commits W t' ts' (by rw [hp]; rfl)
      rw [hcW] at this
      exact (Option.some.inj this).symm
    subst hts'
    rw [hp] at hmay
    cases hmay
    exact hput tW.writeSet (by rw [hp]; rfl) htouch
  | _ =>
    rw [hp] at hmay
    cases hmay

section

variable (h : Sessions s phase) (hlive : phase T = .live t) (hts : s.commitTs T = some ts)
  (hv : validateReadSet s.threads.mgr.store t ts = true)
include h hlive hts hv

/-- A validated transaction is sealed for those of its reads whose writers all have their
version in the store. -/
theorem Sessions.seal_of_versions {t' : Transaction} (hts' : t'.prepareCommitTs = ts)
    (hsub : ∀ r ∈ t'.readSet, r ∈ t.readSet)
    (hversion : ∀ r ∈ t'.readSet, ∀ W tW cW, (phase W).mayCommit = some tW →
      s.commitTs W = some cW → cW < ts → touches tW.writeSet r.tableId r.key = true →
        MVCCStore.version s.threads.mgr.store r.tableId r.key cW ≠ none) :
    Sealed s.commitTs phase t' := by
  intro r hr
  rw [hts']
  have hget := all_eq_true.mp hv r (hsub r hr)
  cases hg : MVCCStore.get s.threads.mgr.store r.tableId r.key ts with
  | none => simp [hg] at hget
  | some vts =>
    obtain ⟨v, vts⟩ := vts
    simp only [hg, decide_eq_true_eq] at hget
    subst hget
    obtain ⟨hver, hle, -, hnewest⟩ := MVCCStore.get_eq_some hg
    refine ⟨?_, ?_⟩
    · -- the version at `ts` itself would be the transaction's own
      refine UInt64.lt_of_le_of_ne hle ?_
      intro heq
      obtain ⟨W, ws, happ, -⟩ := (h.store.version _ _ _ _).mp hver
      obtain ⟨tW, hcommit⟩ := Phase.commitOf_of_applied happ
      have hW := h.commits W tW _ hcommit
      rw [heq] at hW
      rw [h.drawn_inj W T ts hW hts, hlive] at happ
      cases happ
    · intro W tW cW hmay hcW hlt htouch
      by_contra hnle
      have hnone := hnewest cW (UInt64.not_le.mp hnle) (UInt64.le_of_lt hlt)
      exact hversion r hr W tW cW hmay hcW hlt htouch hnone

/-- **A validated transaction is sealed**, if no writer is hidden from it. -/
theorem Sessions.seal (hhidden : s.noHiddenWriter T ts = true) :
    Sealed s.commitTs phase { t with state := .prepared, prepareCommitTs := ts } :=
  h.seal_of_versions hlive hts hv rfl (fun _ hr => hr)
    fun _ hr _ _ _ => h.version_of_writer hlive hts hhidden hr

end

/-- What is sealed of every prepared transaction stays so over a step, if a validation seals it. -/
theorem Sessions.sealed_step (h : Sessions s phase) {th : ThreadId} {op : Op} {c : Call}
    (hc : s.threads.calls th = some (op, c)) {T R : TxnId} {st : MVCCStore} {p : Phase ThreadId}
    (hmove : Move th T c s.threads.mgr.store (phase T) st p) {g : Transaction → Transaction}
    (hold : ∀ R t, (phase R).archived = some t → t.state = .prepared →
      Sealed s.commitTs phase (g t))
    (hnew : ∀ R t ts, c = .prepare R ts → phase R = .live t → s.commitTs R = some ts →
      validateReadSet s.threads.mgr.store t ts = true →
      Sealed s.commitTs phase (g { t with state := .prepared, prepareCommitTs := ts }))
    (ht : (Function.update phase T p R).archived = some t) (hp : t.state = .prepared) :
    Sealed s.commitTs (Function.update phase T p) (g t) := by
  have hserves := h.serves th op c hc
  have hbefore : Sealed s.commitTs phase (g t) := by
    rcases update_cases ht with ⟨rfl, hat⟩ | ⟨-, ht⟩
    · rcases hmove.prepared_cases hat hp with hsame | rfl | ⟨ts, cts, ws, himp⟩
      · exact hold R t hsame hp
      · rcases hmove.prepare_cases with hsame | ⟨t0, hlive, -, -, hv, rfl⟩
        · exact hold R t (hsame ▸ hat) hp
        · have hseal := hnew R t0 _ rfl hlive (h.deciding th op _ R _ hc (.inl hserves)) hv
          rwa [Option.some.inj hat] at hseal
      · exact absurd himp ((h.not_import hc).2 _ _ _ _ _)
    · exact hold R t ht hp
  refine hbefore.update hmove ?_ (h.not_import hc).2
  rintro w rfl
  exact h.writing th op _ T w hc hserves

end Validation

end TransDb.Txn
