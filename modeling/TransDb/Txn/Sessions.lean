import TransDb.Txn.Clients

/-!
# One client, one call at a time

What the rules of the clients give, whatever the interleaving: a transaction has one
driver, its write set is what its driver saw written, and its commit timestamp is drawn
once, after the last write.

* `Sessions` — the invariant; `Sessions.enter`, `Sessions.step` and `Sessions.draw` keep it.
-/

namespace TransDb.Txn

open Option List Function Storage

/-! ## The invariant -/

/-- The writes of a transaction that may not be there yet. -/
def writesOf (t : Option Transaction) : List BufferedWrite := (t.map Transaction.writeSet).getD []

/-- **The invariant** of the clients. -/
structure Sessions (s : Clients) (phase : TxnId → Phase ThreadId) : Prop where
  follows : Follows s.threads phase
  store : StoreSim s.threads.mgr.store phase
  serves : ∀ th op c, s.threads.calls th = some (op, c) → c.Serves op
  plain : ∀ th op c, s.threads.calls th = some (op, c) → ∀ ts cts ws, op ≠ .importPreparedTxn ts cts ws
  /-- Calls come from the driver of their transaction. -/
  driven : ∀ th op c T, s.threads.calls th = some (op, c) → op.txnId = some T →
    s.threads.drives th T = true
  driver : ∀ th th' T, s.threads.drives th T = true → s.threads.drives th' T = true → th = th'
  called : ∀ th op c, s.threads.calls th = some (op, c) → .called th op ∈ s.threads.history
  /-- The write set is what the driver saw written. -/
  own : ∀ T, ownWrites T s.threads.history = writesOf (phase T).archived
  /-- Timestamps are drawn once, and not while a write is on its way. -/
  drawn_lt : ∀ T c, s.commitTs T = some c → c < s.clock
  drawn_inj : ∀ T T' c, s.commitTs T = some c → s.commitTs T' = some c → T = T'
  writing : ∀ th op c T w, s.threads.calls th = some (op, c) → op.asWrite = some (T, w) →
    s.commitTs T = none
  deciding : ∀ th op c T ts, s.threads.calls th = some (op, c) →
    op = .prepare T ts ∨ op = .commit T ts → s.commitTs T = some ts
  prepared : ∀ T t, (phase T).archived = some t → t.state = .prepared →
    s.commitTs T = some t.prepareCommitTs
  commits : ∀ T t ts, (phase T).commitOf = some (t, ts) → s.commitTs T = some ts
  not_importing : ∀ T i ts cts ws done, phase T ≠ .importing i ts cts ws done

theorem Sessions.init : Sessions Clients.init (fun _ => .unborn) where
  follows := Follows.init
  store := StoreSim.init
  serves := fun _ _ _ h => by cases h
  plain := fun _ _ _ h => by cases h
  driven := fun _ _ _ _ h => by cases h
  driver := fun _ _ _ h => by cases h
  called := fun _ _ _ h => by cases h
  own := fun _ => rfl
  drawn_lt := fun _ _ h => by cases h
  drawn_inj := fun _ _ _ h => by cases h
  writing := fun _ _ _ _ _ h => by cases h
  deciding := fun _ _ _ _ _ h => by cases h
  prepared := fun _ _ h => by cases h
  commits := fun _ _ _ h => by cases h
  not_importing := fun _ _ _ _ _ _ h => by cases h

namespace Threads

variable {s : Threads} {th : ThreadId} {op : Op} {m : TxnManager} {o : Outcome}

/-- What the clients see of a step. -/
def seen (th : ThreadId) (op : Op) : Outcome → List Event
  | .more _ => []
  | .done r => [.returned th op r]

theorem history_after : (s.after th op m o).history = seen th op o ++ s.history := by
  cases o <;> rfl

theorem calls_after (j : ThreadId) : (s.after th op m o).calls j =
    if j = th then o.next.map (fun c => (op, c)) else s.calls j := by
  by_cases hj : j = th
  · subst hj
    cases o <;> simp [after, Outcome.next]
  · cases o <;> simp [after, hj]

theorem calls_enter (j : ThreadId) : (s.enter th op).calls j =
    if j = th then some (op, op.entry) else s.calls j := by
  by_cases hj : j = th
  · subst hj
    simp [enter]
  · simp [enter, hj]

/-- A call in progress is the one that goes on, or one of another thread. -/
theorem calls_after_cases {j : ThreadId} {op' : Op} {c' : Call}
    (hj : (s.after th op m o).calls j = some (op', c')) :
    (j = th ∧ op' = op ∧ o = .more c') ∨ (j ≠ th ∧ s.calls j = some (op', c')) := by
  rw [calls_after] at hj
  split_ifs at hj with hjt
  · obtain ⟨c'', hnext, heq⟩ := map_eq_some_iff.mp hj
    cases heq
    cases o with
    | more => exact .inl ⟨hjt, rfl, by cases hnext; rfl⟩
    | done => cases hnext
  · exact .inr ⟨hjt, hj⟩

variable {j : ThreadId}

/-- A call in progress is the new one or an old one. -/
theorem calls_enter_cases {op' : Op} {c' : Call} (hj : (s.enter th op).calls j = some (op', c')) :
    (j = th ∧ op' = op ∧ c' = op.entry) ∨ (j ≠ th ∧ s.calls j = some (op', c')) := by
  rw [calls_enter] at hj
  split_ifs at hj with hjt
  · cases hj
    exact .inl ⟨hjt, rfl, rfl⟩
  · exact .inr ⟨hjt, hj⟩

theorem drives_enter (j : ThreadId) (T : TxnId) : (s.enter th op).drives j T = s.drives j T := by
  unfold drives enter
  rw [any_cons]
  rfl

theorem drives_after {T : TxnId} :
    (s.after th op m o).drives j T = true ↔
      s.drives j T = true ∨ j = th ∧ ∃ r, o = .done r ∧ r.txnId = some T := by
  cases o with
  | more c => simp [drives, after]
  | done r =>
    unfold drives after
    rw [any_cons, Bool.or_eq_true, or_comm]
    refine or_congr_right ?_
    simp only [decide_eq_true_eq]
    constructor
    · rintro ⟨rfl, hr⟩
      exact ⟨rfl, r, rfl, hr⟩
    · rintro ⟨rfl, r', heq, hr⟩
      cases heq
      exact ⟨rfl, hr⟩

/-- Who drives a transaction has learnt its id. -/
theorem begun_of_drives {T : TxnId} (h : s.drives j T = true) : s.begun T = true := by
  obtain ⟨e, he, hd⟩ := any_eq_true.mp h
  refine any_eq_true.mpr ⟨e, he, ?_⟩
  cases e with
  | called => cases hd
  | returned th' op' r =>
    have := of_decide_eq_true hd
    exact decide_eq_true this.2

end Threads

/-- What a step of the clients is: a draw, the start of a call, or a step of one. -/
theorem Clients.step_cases {s s' : Clients} {a : ClientAction} (h : s.step a = some s') :
    (∃ th, a = .drawSnapshot th ∧ s.clock < s.clock + 1 ∧
      s' = { s with
        clock := s.clock + 1
        snapshot := update s.snapshot th (some s.clock) }) ∨
    (∃ th T, a = .drawCommit th T ∧ s.clock < s.clock + 1 ∧ s.threads.drives th T = true ∧
      s.threads.calls th = none ∧ s.commitTs T = none ∧
      s' = { s with
        clock := s.clock + 1
        commitTs := update s.commitTs T (some s.clock) }) ∨
    (∃ th op, a = .act (.start th op) ∧ s.threads.calls th = none ∧
      s.permits (.start th op) = true ∧ s' = { s with
        threads := s.threads.enter th op
        snapshot := s.useSnapshot (.start th op) }) ∨
    (∃ th timedOut op c m o, a = .act (.step th timedOut) ∧ s.threads.calls th = some (op, c) ∧
      c.step s.threads.mgr timedOut = some (m, o) ∧
      s' = { s with threads := s.threads.after th op m o }) := by
  cases a with
  | drawSnapshot th =>
    obtain ⟨h1, h2⟩ := ite_none_right_eq_some.mp h
    exact .inl ⟨th, rfl, h1, (some.inj h2).symm⟩
  | drawCommit th T =>
    obtain ⟨⟨h1, h2, h3, h4⟩, h5⟩ := ite_none_right_eq_some.mp h
    exact .inr (.inl ⟨th, T, rfl, h1, h2, isNone_iff_eq_none.mp h3, h4,
      (some.inj h5).symm⟩)
  | act a =>
    obtain ⟨hp, hmap⟩ := ite_none_right_eq_some.mp h
    obtain ⟨threads', hstep, rfl⟩ := map_eq_some_iff.mp hmap
    rcases Threads.step_cases hstep with
      ⟨th, op, rfl, hth, -, rfl⟩ | ⟨th, timedOut, op, c, m, o, rfl, hc, hs, rfl⟩
    · exact .inr (.inr (.inl ⟨th, op, rfl, hth, hp, rfl⟩))
    · exact .inr (.inr (.inr ⟨th, timedOut, op, c, m, o, rfl, hc, hs, rfl⟩))

section

variable {s : Clients} {phase : TxnId → Phase ThreadId} {T : TxnId} {c : Call} {p : Phase ThreadId}
  {th : ThreadId}

theorem Sessions.draw (h : Sessions s phase) (hclock : s.clock < s.clock + 1)
    (hdrives : s.threads.drives th T = true) (hidle : s.threads.calls th = none)
    (hnone : s.commitTs T = none) :
    Sessions { s with
      clock := s.clock + 1
      commitTs := update s.commitTs T (some s.clock) } phase := by
  -- a timestamp that was there stays
  have hkeep : ∀ {T' c}, s.commitTs T' = some c →
      update s.commitTs T (some s.clock) T' = some c :=
    fun hT' => update_keeps hT' (by rw [hnone]; nofun)
  have hcases : ∀ {T' c}, update s.commitTs T (some s.clock) T' = some c →
      (T' = T ∧ c = s.clock) ∨ s.commitTs T' = some c := by
    intro T' c hT'
    rcases update_eq_cases hT' with ⟨rfl, hT''⟩ | ⟨-, hT'⟩
    · exact .inl ⟨rfl, (some.inj hT'').symm⟩
    · exact .inr hT'
  refine ⟨h.follows, h.store, h.serves, h.plain, h.driven, h.driver, h.called, h.own, ?_, ?_, ?_, ?_, ?_, ?_,
    h.not_importing⟩
  · intro T' c hT'
    rcases hcases hT' with ⟨-, rfl⟩ | hold
    · exact hclock
    · exact UInt64.lt_trans (h.drawn_lt T' c hold) hclock
  · intro T1 T2 c h1 h2
    rcases hcases h1 with ⟨hT1, hc⟩ | h1'
    · rcases hcases h2 with ⟨hT2, -⟩ | h2'
      · rw [hT1, hT2]
      · rw [hc] at h2'
        exact absurd (h.drawn_lt _ _ h2') (UInt64.lt_irrefl _)
    · rcases hcases h2 with ⟨-, hc⟩ | h2'
      · rw [hc] at h1'
        exact absurd (h.drawn_lt _ _ h1') (UInt64.lt_irrefl _)
      · exact h.drawn_inj T1 T2 c h1' h2'
  · intro j op c T' w hj hw
    have hne : T' ≠ T := by
      rintro rfl
      have hjd := h.driven j op c T' hj (Op.txnId_of_asWrite hw).1
      rw [h.driver _ _ _ hjd hdrives, hidle] at hj
      cases hj
    simp only [update_of_ne hne]
    exact h.writing j op c T' w hj hw
  · intro j op c T' ts hj hop
    exact hkeep (h.deciding j op c T' ts hj hop)
  · intro T' t ht hp
    exact hkeep (h.prepared T' t ht hp)
  · intro T' t ts ht
    exact hkeep (h.commits T' t ts ht)

/-- What the rules say about the start of a call. -/
theorem Clients.permits_start {op : Op} (h : s.permits (.start th op) = true) :
    (∀ T, op.txnId = some T → s.threads.drives th T = true) ∧
    (∀ T w, op.asWrite = some (T, w) → s.commitTs T = none) ∧
    (∀ T ts, op = .prepare T ts ∨ op = .commit T ts → s.commitTs T = some ts) ∧
    ∀ ts cts ws, op ≠ .importPreparedTxn ts cts ws := by
  cases op with
  | «begin» => exact ⟨nofun, nofun, by simp, by simp⟩
  | importPreparedTxn => cases h
  | read | scan | abort =>
    refine ⟨?_, nofun, by simp, by simp⟩
    intro T hT
    cases hT
    exact h
  | write | delete =>
    obtain ⟨h1, h2⟩ := Bool.and_eq_true_iff.mp h
    refine ⟨?_, ?_, by simp, by simp⟩
    · intro T hT
      cases hT
      exact h1
    · intro T w hw
      cases hw
      exact isNone_iff_eq_none.mp h2
  | prepare | commit =>
    obtain ⟨h1, h2⟩ := Bool.and_eq_true_iff.mp h
    refine ⟨?_, nofun, ?_, by simp⟩
    · intro T hT
      cases hT
      exact h1
    · rintro T ts (hop | hop) <;> cases hop
      exact of_decide_eq_true h2

section

variable (h : Sessions s phase)
include h

variable {op : Op}

/-- The start of a call by the driver of its transaction. -/
theorem Sessions.enter_of_driver (hth : s.threads.calls th = none)
    (hdrives : ∀ T, op.txnId = some T → s.threads.drives th T = true)
    (hwrite : ∀ T w, op.asWrite = some (T, w) → s.commitTs T = none)
    (hdecide : ∀ T ts, op = .prepare T ts ∨ op = .commit T ts → s.commitTs T = some ts)
    (himport : ∀ ts cts ws, op ≠ .importPreparedTxn ts cts ws)
    (snapshot : ThreadId → Option Timestamp) :
    Sessions { s with threads := s.threads.enter th op, snapshot := snapshot } phase := by
  refine ⟨h.follows.enter hth op, h.store, ?_, ?_, ?_, ?_, ?_, ?_, h.drawn_lt, h.drawn_inj, ?_, ?_,
    h.prepared, h.commits, h.not_importing⟩
  · intro j op' c' hj
    rcases Threads.calls_enter_cases hj with ⟨-, rfl, rfl⟩ | ⟨-, hj⟩
    · exact op'.entry_serves
    · exact h.serves j op' c' hj
  · intro j op' c' hj
    rcases Threads.calls_enter_cases hj with ⟨-, rfl, -⟩ | ⟨-, hj⟩
    · exact himport
    · exact h.plain j op' c' hj
  · intro j op' c' T hj hT
    rw [Threads.drives_enter]
    rcases Threads.calls_enter_cases hj with ⟨rfl, rfl, -⟩ | ⟨-, hj⟩
    · exact hdrives T hT
    · exact h.driven j op' c' T hj hT
  · intro j j' T hj hj'
    rw [Threads.drives_enter] at hj hj'
    exact h.driver j j' T hj hj'
  · intro j op' c' hj
    rcases Threads.calls_enter_cases hj with ⟨rfl, rfl, -⟩ | ⟨-, hj⟩
    · exact mem_cons_self
    · exact mem_cons_of_mem _ (h.called j op' c' hj)
  · intro T
    exact (append_nil _).trans (h.own T)
  · intro j op' c' T w hj hw
    rcases Threads.calls_enter_cases hj with ⟨-, rfl, -⟩ | ⟨-, hj⟩
    · exact hwrite T w hw
    · exact h.writing j op' c' T w hj hw
  · intro j op' c' T ts hj hop
    rcases Threads.calls_enter_cases hj with ⟨-, rfl, -⟩ | ⟨-, hj⟩
    · exact hdecide T ts hop
    · exact h.deciding j op' c' T ts hj hop

theorem Sessions.enter (hth : s.threads.calls th = none)
    (hpermits : s.permits (.start th op) = true) (snapshot : ThreadId → Option Timestamp) :
    Sessions { s with threads := s.threads.enter th op, snapshot := snapshot } phase := by
  obtain ⟨hdrives, hwrite, hdecide, himport⟩ := s.permits_start hpermits
  exact h.enter_of_driver hth hdrives hwrite hdecide himport snapshot

section

variable (hc : s.threads.calls th = some (op, c))
include hc

/-- Clients do not import transactions. -/
theorem Sessions.not_import :
    (∀ ts cts ws, c ≠ .importPreparedTxn ts cts ws) ∧
      ∀ T ts cts ws rest, c ≠ .importLog T ts cts ws rest := by
  have hserves := h.serves th op c hc
  refine ⟨?_, ?_⟩
  · rintro ts cts ws rfl
    exact h.plain th op _ hc _ _ _ hserves
  · rintro T ts cts ws rest rfl
    exact h.plain th op _ hc _ _ _ hserves

/-- A step that is no buffered write leaves all write sets alone. -/
theorem Sessions.writesOf_same {st st' : MVCCStore} (hmove : Move th T c st
    (phase T) st' p) {T' : TxnId}
    (hT' : ∀ w, c ≠ .buffer T' w) :
    writesOf (update phase T p T').archived = writesOf (phase T').archived := by
  by_cases hT : T' = T
  · subst hT
    rw [update_self]
    cases harch : p.archived with
    | none =>
      have : (phase T').archived = none := by
        by_contra hne
        exact hmove.known hne harch
      rw [this]
    | some t' =>
      rcases hmove.writeSet_cases harch with
        ⟨t, ht, hws⟩ | ⟨t, w, -, hbuf, -⟩ | ⟨hnone, hws⟩ | ⟨ts, cts, ws, himp⟩
      · rw [ht]
        simp [writesOf, hws]
      · exact absurd hbuf (hT' w)
      · rw [hnone]
        simp [writesOf, hws]
      · exact absurd himp ((h.not_import hc).2 _ _ _ _ _)
  · rw [update_of_ne hT]

/-- The write sets stay what the drivers saw written. -/
theorem Sessions.own_after {timedOut : Bool} {m : TxnManager}
    {o : Outcome} (hs : c.step s.threads.mgr timedOut = some (m, o))
    (hmove : Move th T c s.threads.mgr.store (phase T) m.store p)
    (hfollows : Follows (s.threads.after th op m o) (update phase T p)) (T' : TxnId) :
    ownWrites T' (s.threads.after th op m o).history =
      writesOf (update phase T p T').archived := by
  have hserves := h.serves th op c hc
  by_cases hbuf : ∃ w, c = .buffer T' w
  · obtain ⟨w, rfl⟩ := hbuf
    have hsim := h.follows.sim
    have harch := hfollows.archive T'
    rw [Threads.archive_after, h.follows.archive T'] at harch
    rw [← harch, Threads.history_after]
    cases Call.steps hs with
    | bufferUnknown ht =>
      rw [ht, none_or]
      exact h.own T'
    | bufferInactive =>
      rw [hsim.txns T', Phase.txn_or_archived]
      exact h.own T'
    | buffer ht =>
      have hown := h.own T'
      rw [hsim.live ht] at hown
      have hevent : Event.ownWrite T' (.returned th op (.of .ok)) = [w] := by
        simp [Event.ownWrite, show op.asWrite = some (T', w) from hserves, Reply.of]
      show ownWrites T' s.threads.history ++ _ = _
      rw [hown, hevent]
      simp [writesOf, TxnManager.setTxn, TxnManager.log, Phase.archived]
  · have hsame := h.writesOf_same hc hmove (fun w heq => hbuf ⟨w, heq⟩)
    rw [hsame, ← h.own T', Threads.history_after]
    cases o with
    | more c' => rfl
    | done r =>
      -- no write of this transaction has just returned
      have hnone : Event.ownWrite T' (.returned th op r) = [] := by
        cases hw : op.asWrite with
        | none => simp only [Event.ownWrite, hw]
        | some tw =>
          obtain ⟨t, w⟩ := tw
          simp only [Event.ownWrite, hw]
          refine if_neg ?_
          rintro ⟨rfl, hok⟩
          exact hbuf ⟨w, hserves.write_done hs hok hw⟩
      show ownWrites T' s.threads.history ++ _ = _
      rw [hnone, append_nil]

end

end

theorem Sessions.step (h : Sessions s phase) {op : Op} {timedOut : Bool}
    {m : TxnManager} {o : Outcome} (hc : s.threads.calls th = some (op, c))
    (hs : c.step s.threads.mgr timedOut = some (m, o)) (snapshot : ThreadId → Option Timestamp) :
    ∃ T p, Move th T c s.threads.mgr.store (phase T) m.store p ∧
      Sessions { s with threads := s.threads.after th op m o, snapshot := snapshot }
        (update phase T p) := by
  have hserves := h.serves th op c hc
  obtain ⟨T, p, hmove, hfollows⟩ := h.follows.step hc hs
  have hsim := h.follows.sim
  have hkind : ∀ {j op' c'}, (s.threads.after th op m o).calls j = some (op', c') →
      ∃ c0, s.threads.calls j = some (op', c0) := by
    intro j op' c' hj
    rcases Threads.calls_after_cases hj with ⟨rfl, rfl, -⟩ | ⟨-, hj⟩
    · exact ⟨c, hc⟩
    · exact ⟨c', hj⟩
  refine ⟨T, p, hmove, hfollows, ?_, ?_, ?_, ?_, ?_, ?_, h.own_after hc hs hmove hfollows, h.drawn_lt,
    h.drawn_inj, ?_, ?_, ?_, ?_, ?_⟩
  · show StoreSim (s.threads.after th op m o).mgr.store _
    rw [Threads.mgr_after]
    refine h.store.step hmove (hsim.ok T) ?_
    rintro ts rfl T' ws happ
    obtain ⟨t, ht⟩ := Phase.commitOf_of_applied happ
    exact h.drawn_inj T' T ts (h.commits T' t ts ht) (h.deciding th op _ T ts hc (.inr hserves))
  · intro j op' c' hj
    rcases Threads.calls_after_cases hj with ⟨-, rfl, rfl⟩ | ⟨-, hj⟩
    · exact hserves.next hs rfl
    · exact h.serves j op' c' hj
  · intro j op' c' hj
    obtain ⟨c0, hj⟩ := hkind hj
    exact h.plain j op' c0 hj
  · intro j op' c' T' hj hT'
    obtain ⟨c0, hj⟩ := hkind hj
    exact Threads.drives_after.mpr (.inl (h.driven j op' c0 T' hj hT'))
  · intro j j' T' hj hj'
    -- an id that has just been returned was unknown before
    have hnew : ∀ {r : Reply}, o = .done r → r.txnId = some T' →
        ∀ i, s.threads.drives i T' ≠ true := by
      rintro r rfl hr i hi
      rcases (c.step_returns hs hr).2 with ⟨ts, rfl⟩ | ⟨ts, cts, ws, himp⟩
      · have hlogged : phase T' = .logged th ts := hsim.call th _ (Threads.pcs_eq_some hc)
        refine h.follows.begun T' (Threads.begun_of_drives hi) ?_
        rw [hlogged]
        rfl
      · exact (h.not_import hc).2 _ _ _ _ _ himp
    rcases Threads.drives_after.mp hj with hj | ⟨rfl, r, ho, hr⟩
    · rcases Threads.drives_after.mp hj' with hj' | ⟨-, r, ho, hr⟩
      · exact h.driver j j' T' hj hj'
      · exact absurd hj (hnew ho hr j)
    · rcases Threads.drives_after.mp hj' with hj' | ⟨rfl, -⟩
      · exact absurd hj' (hnew ho hr j')
      · rfl
  · intro j op' c' hj
    obtain ⟨c0, hj⟩ := hkind hj
    show _ ∈ (s.threads.after th op m o).history
    rw [Threads.history_after]
    exact mem_append_right _ (h.called j op' c0 hj)
  · intro j op' c' T' w hj hw
    obtain ⟨c0, hj⟩ := hkind hj
    exact h.writing j op' c0 T' w hj hw
  · intro j op' c' T' ts hj hop
    obtain ⟨c0, hj⟩ := hkind hj
    exact h.deciding j op' c0 T' ts hj hop
  · intro T' t ht hp
    rcases update_cases ht with ⟨rfl, hat⟩ | ⟨-, ht⟩
    · rcases hmove.prepared_cases hat hp with hold | rfl | ⟨ts, cts, ws, himp⟩
      · exact h.prepared T' t hold hp
      · exact h.deciding th op _ T' _ hc (.inl hserves)
      · exact absurd himp ((h.not_import hc).2 _ _ _ _ _)
    · exact h.prepared T' t ht hp
  · intro T' t ts ht
    rcases update_cases ht with ⟨rfl, hat⟩ | ⟨-, ht⟩
    · rcases hmove.commitOf_cases hat with hold | rfl
      · exact h.commits T' t ts hold
      · exact h.deciding th op _ T' ts hc (.inr hserves)
    · exact h.commits T' t ts ht
  · intro T'
    refine update_mono
      (P := fun p : Phase ThreadId => ∀ i ts cts ws done, p ≠ .importing i ts cts ws done)
      (fun _ hnot => ?_) (h.not_importing T')
    exact hmove.not_importing hnot (h.not_import hc).1 (h.not_import hc).2

theorem Sessions.drawSnapshot (h : Sessions s phase) (hclock : s.clock < s.clock + 1)
    (snapshot : ThreadId → Option Timestamp) :
    Sessions { s with clock := s.clock + 1, snapshot := snapshot } phase :=
  ⟨h.follows, h.store, h.serves, h.plain, h.driven, h.driver, h.called, h.own,
    fun T c hT => UInt64.lt_trans (h.drawn_lt T c hT) hclock, h.drawn_inj, h.writing, h.deciding,
    h.prepared, h.commits, h.not_importing⟩

end

end TransDb.Txn
