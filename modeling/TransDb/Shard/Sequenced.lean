import TransDb.Shard.Ownership

/-!
# Requests in order

What a history says about the requests of a transaction, and when they come in order:
its `BEGIN`s one after the other, then one `Prepare` with no `BEGIN` or `Abort` beside it,
and `Commit` only after the vote.

* `inProgress`, `prepareSeen`, `voted`, `abortedSince` — read off a history.
* `admitted` — the request comes in order; `Orderly` — all requests of a history did.
* `ShardService.fixedLeader`, `ShardService.inOrder` — the conditions on the steps of a
  shard.
* `Sequenced` — the history of a shard is orderly and tells who is at work;
  `Sequenced.step` **keeps it**.
-/

namespace TransDb.Shard

open List Function Storage Txn Raft

/-! ## Histories -/

/-- The requests that have no answer yet, with their threads. -/
def inProgress : List Event → List (ThreadId × Rpc)
  | [] => []
  | .received th rpc :: h => (th, rpc) :: inProgress h
  | .answered th _ _ :: h => (inProgress h).filter fun q => decide (q.1 ≠ th)

/-- It begins the transaction. -/
def Rpc.isBegin (T : RaftTxnId) : Rpc → Bool
  | .execute T' (.begin _) => decide (T' = T)
  | _ => false

/-- It prepares the transaction. -/
def Rpc.isPrepare (T : RaftTxnId) : Rpc → Bool
  | .prepare T' _ => decide (T' = T)
  | _ => false

/-- It aborts the transaction. -/
def Rpc.isAbort (T : RaftTxnId) : Rpc → Bool
  | .abort T' => decide (T' = T)
  | _ => false

/-- A request has come. -/
def Event.receives (p : Rpc → Bool) : Event → Bool
  | .received _ rpc => p rpc
  | .answered _ _ _ => false

/-- The answer to a `Prepare` of the transaction was a vote to commit. -/
def Event.votes (T : RaftTxnId) : Event → Bool
  | .answered _ rpc (.prepare true _) => rpc.isPrepare T
  | _ => false

/-- A `Prepare` has come. -/
def prepareSeen (h : List Event) (T : RaftTxnId) : Bool :=
  h.any (Event.receives (Rpc.isPrepare T))

/-- The shard has voted yes. -/
def voted (h : List Event) (T : RaftTxnId) : Bool := h.any (Event.votes T)

/-- An `Abort` of the transaction was received after the last `Prepare`. -/
def abortedSince (h : List Event) (T : RaftTxnId) : Bool :=
  (h.takeWhile fun e => !e.receives (Rpc.isPrepare T)).any (Event.receives (Rpc.isAbort T))

/-- A request of this kind is being served. -/
def busy (h : List Event) (p : Rpc → Bool) : Bool := (inProgress h).any fun q => p q.2

/-- The request comes in order. -/
def admitted (h : List Event) : Rpc → Bool
  | .execute T (.begin _) => !prepareSeen h T && !busy h (Rpc.isBegin T)
  | .prepare T _ => !prepareSeen h T && !busy h (Rpc.isBegin T) && !busy h (Rpc.isAbort T)
  | .commit T _ => voted h T
  | .abort T => !busy h (Rpc.isPrepare T)
  | _ => true

/-- All requests came in order, and what was answered had been received. -/
def Orderly : List Event → Prop
  | [] => True
  | .received _ rpc :: h => Orderly h ∧ admitted h rpc = true
  | .answered th rpc _ :: h => Orderly h ∧ (th, rpc) ∈ inProgress h

section Histories

variable {h : List Event} {T : RaftTxnId} {q q' : ThreadId × Rpc} {e : Event} {rpc : Rpc}

theorem Rpc.isPrepare_iff : rpc.isPrepare T = true ↔ ∃ ts, rpc = .prepare T ts := by
  cases rpc <;> simp [Rpc.isPrepare]

theorem Rpc.isBegin_iff : rpc.isBegin T = true ↔ ∃ ts, rpc = .execute T (.begin ts) := by
  cases rpc with
  | execute T' op => cases op <;> simp [Rpc.isBegin]
  | _ => simp [Rpc.isBegin]

theorem Rpc.isAbort_iff : rpc.isAbort T = true ↔ rpc = .abort T := by
  cases rpc <;> simp [Rpc.isAbort]

theorem not_busy {p : Rpc → Bool} (hb : busy h p = false) (hq : q ∈ inProgress h) : p q.2 = false := by
  unfold busy at hb
  rw [any_eq_false] at hb
  exact Bool.not_eq_true _ ▸ hb q hq

theorem prepareSeen_cons (h : List Event) (e : Event) (T : RaftTxnId) :
    prepareSeen (e :: h) T = (e.receives (Rpc.isPrepare T) || prepareSeen h T) := rfl

theorem voted_cons (h : List Event) (e : Event) (T : RaftTxnId) :
    voted (e :: h) T = (e.votes T || voted h T) := rfl

/-- What is in progress has been received. -/
theorem received_of_inProgress (hq : q ∈ inProgress h) : .received q.1 q.2 ∈ h := by
  induction h with
  | nil => cases hq
  | cons e h ih =>
    cases e with
    | received th rpc =>
      rcases mem_cons.mp hq with rfl | hq
      · exact mem_cons_self
      · exact mem_cons_of_mem _ (ih hq)
    | answered th rpc r => exact mem_cons_of_mem _ (ih (mem_filter.mp hq).1)

theorem prepareSeen_of_inProgress (hq : q ∈ inProgress h) (hp : q.2.isPrepare T = true) :
    prepareSeen h T = true :=
  any_eq_true.mpr ⟨_, received_of_inProgress hq, hp⟩

/-- An answer ends what was in progress, and nothing begins with it. -/
theorem mem_inProgress_cons (hq : q ∈ inProgress (e :: h)) :
    (∃ th rpc, e = .received th rpc ∧ q = (th, rpc)) ∨ q ∈ inProgress h := by
  cases e with
  | received th rpc =>
    rcases mem_cons.mp hq with rfl | hq
    · exact .inl ⟨th, rpc, rfl, rfl⟩
    · exact .inr hq
  | answered th rpc r => exact .inr (mem_filter.mp hq).1

theorem Orderly.tail (ho : Orderly (e :: h)) : Orderly h := by
  cases e with
  | received => exact ho.1
  | answered => exact ho.1

/-- Requests of a kind that are admitted only one at a time. -/
theorem Orderly.unique {p : Rpc → Bool}
    (hone : ∀ h rpc, admitted h rpc = true → p rpc = true → busy h p = false) (ho : Orderly h)
    (hq : q ∈ inProgress h) (hq' : q' ∈ inProgress h) (hp : p q.2 = true) (hp' : p q'.2 = true) :
    q.1 = q'.1 := by
  induction h with
  | nil => cases hq
  | cons e h ih =>
    have hnew : ∀ {th rpc}, e = .received th rpc → p rpc = true →
        ∀ {q0}, q0 ∈ inProgress h → p q0.2 = false := by
      rintro th rpc rfl hrpc q0 hq0
      exact not_busy (hone h rpc ho.2 hrpc) hq0
    rcases mem_inProgress_cons hq with ⟨th, rpc, he, rfl⟩ | hold <;>
      rcases mem_inProgress_cons hq' with ⟨th', rpc', he', rfl⟩ | hold'
    · rw [he] at he'
      cases he'
      rfl
    · rw [hnew he hp hold'] at hp'
      cases hp'
    · rw [hnew he' hp' hold] at hp
      cases hp
    · exact ih ho.tail hold hold'

section

variable (ho : Orderly h) (hq : q ∈ inProgress h)
include ho hq

theorem Orderly.prepares (hq' : q' ∈ inProgress h) (hp : q.2.isPrepare T = true)
    (hp' : q'.2.isPrepare T = true) : q.1 = q'.1 := by
  refine ho.unique ?_ hq hq' hp hp'
  intro h rpc hadm hrpc
  obtain ⟨ts, rfl⟩ := Rpc.isPrepare_iff.mp hrpc
  simp only [admitted, Bool.and_eq_true, Bool.not_eq_true'] at hadm
  by_contra hbusy
  obtain ⟨q0, hq0, hp0⟩ := any_eq_true.mp (Bool.not_eq_false _ ▸ hbusy)
  rw [prepareSeen_of_inProgress hq0 hp0] at hadm
  cases hadm.1.1

theorem Orderly.begins (hq' : q' ∈ inProgress h) (hb : q.2.isBegin T = true)
    (hb' : q'.2.isBegin T = true) : q.1 = q'.1 := by
  refine ho.unique ?_ hq hq' hb hb'
  intro h rpc hadm hrpc
  obtain ⟨ts, rfl⟩ := Rpc.isBegin_iff.mp hrpc
  simp only [admitted, Bool.and_eq_true, Bool.not_eq_true'] at hadm
  exact hadm.2

/-- No `BEGIN` is served after a `Prepare` was received. -/
theorem Orderly.beginning (hb : q.2.isBegin T = true) : prepareSeen h T = false := by
  induction h with
  | nil => cases hq
  | cons e h ih =>
    rw [prepareSeen_cons, Bool.or_eq_false_iff]
    rcases mem_inProgress_cons hq with ⟨th, rpc, rfl, rfl⟩ | hold
    · obtain ⟨ts, rfl⟩ := Rpc.isBegin_iff.mp hb
      have hadm := ho.2
      simp only [admitted, Bool.and_eq_true, Bool.not_eq_true'] at hadm
      exact ⟨rfl, hadm.1⟩
    · refine ⟨?_, ih ho.tail hold⟩
      cases e with
      | answered => rfl
      | received th rpc =>
        by_contra hp
        obtain ⟨ts, rfl⟩ := Rpc.isPrepare_iff.mp (Bool.not_eq_false _ ▸ hp)
        have hadm := ho.2
        simp only [admitted, Bool.and_eq_true, Bool.not_eq_true'] at hadm
        rw [not_busy hadm.1.2 hold] at hb
        cases hb

/-- `Prepare` and `Abort` of one transaction are never served together. -/
theorem Orderly.apart (hq' : q' ∈ inProgress h) (hp : q.2.isPrepare T = true) :
    q'.2.isAbort T = false := by
  induction h with
  | nil => cases hq
  | cons e h ih =>
    rcases mem_inProgress_cons hq with ⟨th, rpc, he, rfl⟩ | hold <;>
      rcases mem_inProgress_cons hq' with ⟨th', rpc', he', rfl⟩ | hold'
    · rw [he] at he'
      cases he'
      obtain ⟨ts, rfl⟩ := Rpc.isPrepare_iff.mp hp
      rfl
    · subst he
      obtain ⟨ts, rfl⟩ := Rpc.isPrepare_iff.mp hp
      have hadm := ho.2
      simp only [admitted, Bool.and_eq_true, Bool.not_eq_true'] at hadm
      exact not_busy hadm.2 hold'
    · subst he'
      by_contra ha
      obtain rfl := Rpc.isAbort_iff.mp (Bool.not_eq_false _ ▸ ha)
      have hadm := ho.2
      simp only [admitted, Bool.not_eq_true'] at hadm
      rw [not_busy hadm hold] at hp
      cases hp
    · exact ih ho.tail hold hold'

/-- An `Abort` that is served after a `Prepare` was received was itself received after it. -/
theorem Orderly.since (ha : q.2.isAbort T = true) (hs : prepareSeen h T = true) :
    abortedSince h T = true := by
  induction h with
  | nil => cases hq
  | cons e h ih =>
    -- the event is no `Prepare`: that one would have come beside the `Abort`
    have hno : e.receives (Rpc.isPrepare T) = false := by
      cases e with
      | answered => rfl
      | received th rpc =>
        by_contra hp
        obtain ⟨ts, rfl⟩ := Rpc.isPrepare_iff.mp (Bool.not_eq_false _ ▸ hp)
        have hapart := ho.apart (q := (th, .prepare T ts)) (T := T) mem_cons_self hq
          (by simp [Rpc.isPrepare])
        rw [ha] at hapart
        cases hapart
    rw [prepareSeen_cons, hno, Bool.false_or] at hs
    have hcons : abortedSince (e :: h) T = (e.receives (Rpc.isAbort T) || abortedSince h T) := by
      simp [abortedSince, hno]
    rw [hcons, Bool.or_eq_true]
    rcases mem_inProgress_cons hq with ⟨th, rpc, rfl, rfl⟩ | hold
    · exact .inl ha
    · exact .inr (ih ho.tail hold hs)

end

theorem abortedSince_cons_of_ne (hno : e.receives (Rpc.isPrepare T) = false)
    (hs : abortedSince h T = true) : abortedSince (e :: h) T = true := by
  have hcons : abortedSince (e :: h) T = (e.receives (Rpc.isAbort T) || abortedSince h T) := by
    simp [abortedSince, hno]
  rw [hcons, hs, Bool.or_true]

/-- After the answer to a `Prepare` there is no other `Prepare` of the transaction. -/
theorem Orderly.over (ho : Orderly h) {th : ThreadId} {r : Response}
    (hans : .answered th rpc r ∈ h) (hp : rpc.isPrepare T = true) :
    prepareSeen h T = true ∧ ∀ q ∈ inProgress h, q.2.isPrepare T = false := by
  induction h with
  | nil => cases hans
  | cons e h ih =>
    rw [prepareSeen_cons]
    rcases mem_cons.mp hans with rfl | hans
    · -- it was the only one in progress
      refine ⟨by rw [prepareSeen_of_inProgress ho.2 hp, Bool.or_true], ?_⟩
      intro q hq
      obtain ⟨hq, hth⟩ := mem_filter.mp hq
      by_contra hqp
      exact of_decide_eq_true hth (ho.1.prepares hq ho.2 (Bool.not_eq_false _ ▸ hqp) hp)
    · obtain ⟨hseen, hnone⟩ := ih ho.tail hans
      refine ⟨by rw [hseen, Bool.or_true], ?_⟩
      intro q hq
      rcases mem_inProgress_cons hq with ⟨th', rpc', rfl, rfl⟩ | hold
      · by_contra hqp
        obtain ⟨ts, rfl⟩ := Rpc.isPrepare_iff.mp (Bool.not_eq_false _ ▸ hqp)
        have hadm := ho.2
        simp [admitted, hseen] at hadm
      · exact hnone q hold

theorem voted_iff : voted h T = true ↔
    ∃ th ts m, .answered th (.prepare T ts) (.prepare true m) ∈ h := by
  unfold voted
  rw [any_eq_true]
  constructor
  · rintro ⟨e, he, hv⟩
    cases e with
    | received => cases hv
    | answered th rpc r =>
      cases r with
      | prepare vote m =>
        cases vote with
        | false => cases hv
        | true =>
          obtain ⟨ts, rfl⟩ := Rpc.isPrepare_iff.mp hv
          exact ⟨th, ts, m, he⟩
      | _ => cases hv
  · rintro ⟨th, ts, m, he⟩
    exact ⟨_, he, by simp [Event.votes, Rpc.isPrepare]⟩

/-- After the vote there is no `Prepare` of the transaction. -/
theorem Orderly.over_of_voted (ho : Orderly h) (hv : voted h T = true) :
    prepareSeen h T = true ∧ ∀ q ∈ inProgress h, q.2.isPrepare T = false := by
  obtain ⟨th, ts, m, he⟩ := voted_iff.mp hv
  exact ho.over he (by simp [Rpc.isPrepare])

/-- A `Commit` is served only after the vote. -/
theorem Orderly.committing (ho : Orderly h) {th : ThreadId} {ts : Timestamp}
    (hq : (th, .commit T ts) ∈ inProgress h) : voted h T = true := by
  induction h with
  | nil => cases hq
  | cons e h ih =>
    rw [voted_cons, Bool.or_eq_true]
    rcases mem_inProgress_cons hq with ⟨th', rpc, rfl, heq⟩ | hold
    · cases heq
      exact .inr ho.2
    · exact .inr (ih ho.tail hold)

end Histories

/-! ## Conditions -/

namespace ShardService

/-- There is one election, at the beginning. -/
def fixedLeader (s : ShardService) : Action → Bool
  | .elect _ _ => decide (s.term = 0)
  | _ => true

/-- The requests come in order; no lock wait of a `Write` or `Delete` aborts its
transaction after a `Prepare` was received; and what is packed into a batch fits. -/
def inOrder (s : ShardService) : Action → Bool
  | .receive _ rpc => admitted s.history rpc
  | .step th _ =>
    match s.handlers th with
    | some ⟨rpc, _, .call (.abort _ _) .answer⟩ => !prepareSeen s.history rpc.raftTxnId
    | some ⟨_, r, .getTxn _ p⟩ =>
      ((s.replicas r).mgr.txns p.localTxnId).all fun t => decide (Fits t.writeSet)
    | _ => true
  | _ => true

end ShardService

/-! ## Steps -/

theorem Steps.log_cases {s : ShardService} {x : Handler} {pc : Pc} {f : Effect}
    (h : Steps s x pc f) :
    f.log = s.log ∨ ∃ type payload next L, pc = .propose type payload next ∧ s.leader = some L ∧
      (s.replicas L).applying = none ∧
      f = { s.keep x (.goto (.wait L (s.log.length + 1) next)) with
        log := s.log ++ [⟨s.log.length + 1, s.term, type, payload⟩] } := by
  cases h with
  | proposed L hL hidle => exact .inr ⟨_, _, _, L, rfl, hL, hidle, rfl⟩
  | _ => exact .inl rfl

/-- The history is orderly and tells who is at work, and all work is done by one leader. -/
structure Sequenced (s : ShardService) : Prop where
  orderly : Orderly s.history
  serving : ∀ th x, s.handlers th = some x → (th, x.rpc) ∈ inProgress s.history
  fresh : s.term = 0 → s.leader = none ∧ s.log = []
  leader : ∀ th x, s.handlers th = some x → s.leader = some x.replica ∨
    ∃ T, x.rpc = .queryTxnState T
  home : ∀ T p, s.pendingTxns T = some p → s.leader = some (s.home T)

theorem Sequenced.init : Sequenced .init where
  orderly := trivial
  serving := fun _ _ h => by cases h
  fresh := fun _ => ⟨rfl, rfl⟩
  leader := fun _ _ h => by cases h
  home := fun _ _ h => by cases h

section Sequenced

variable {s : ShardService} {th : ThreadId} {x : Handler} {f : Effect}

/-- All but queries is served on the leader. -/
theorem Sequenced.leader_of (h : Sequenced s) (hx : s.handlers th = some x)
    (hrpc : ∀ T, x.rpc ≠ .queryTxnState T) : s.leader = some x.replica :=
  (h.leader th x hx).resolve_right fun ⟨T, hT⟩ => hrpc T hT

theorem Sequenced.receive (h : Sequenced s) (hth : s.handlers th = none) {rpc : Rpc}
    (hadm : admitted s.history rpc = true) : Sequenced (s.receive th rpc) := by
  rcases s.receive_cases th rpc with ⟨L, hL, heq⟩ | heq
  · rw [heq]
    refine ⟨⟨h.orderly, hadm⟩, ?_, h.fresh, ?_, h.home⟩
    · intro j y hj
      rcases ShardService.handlers_started hj with ⟨rfl, rfl⟩ | ⟨-, hj⟩
      · exact mem_cons_self
      · exact mem_cons_of_mem _ (h.serving j y hj)
    · intro j y hj
      rcases ShardService.handlers_started hj with ⟨rfl, rfl⟩ | ⟨-, hj⟩
      · exact hL
      · exact h.leader j y hj
  · rw [heq]
    refine ⟨⟨⟨h.orderly, hadm⟩, mem_cons_self⟩, ?_, h.fresh, h.leader, h.home⟩
    intro j y hj
    refine mem_filter.mpr ⟨mem_cons_of_mem _ (h.serving j y hj), ?_⟩
    refine decide_eq_true ?_
    rintro rfl
    have hj : s.handlers j = some y := hj
    rw [hth] at hj
    cases hj

theorem Sequenced.after (h : Sequenced s) (hx : s.handlers th = some x) (hof : x.pc.Of x.rpc)
    (hs : Steps s x x.pc f) : Sequenced (s.after th x f) := by
  refine ⟨?_, ?_, ?_, ?_, ?_⟩
  · unfold ShardService.after
    cases f.next with
    | goto pc => exact h.orderly
    | answer r => exact ⟨h.orderly, h.serving th x hx⟩
  · intro j y hj
    rcases ShardService.handlers_after hj with ⟨rfl, pc, hn, rfl⟩ | ⟨hjt, hj⟩
    · rw [ShardService.after, hn]
      exact h.serving j x hx
    · unfold ShardService.after
      cases f.next with
      | goto pc => exact h.serving j y hj
      | answer r => exact mem_filter.mpr ⟨h.serving j y hj, decide_eq_true hjt⟩
  · intro hterm
    obtain ⟨hleader, hlog⟩ := h.fresh hterm
    refine ⟨hleader, ?_⟩
    rcases hs.log_cases with hsame | ⟨type, payload, next, L, -, hL, -⟩
    · exact hsame.trans hlog
    · rw [hleader] at hL
      cases hL
  · intro j y hj
    rcases ShardService.handlers_after hj with ⟨rfl, pc, hn, rfl⟩ | ⟨-, hj⟩
    · exact h.leader j x hx
    · exact h.leader j y hj
  · intro T p hp
    rcases hs.pending hp with ⟨p0, hp0, -, hsame⟩ | ⟨ts, hpc, -, hsame⟩
    · show s.leader = some (f.home T)
      rw [hsame]
      exact h.home T p0 hp0
    · show s.leader = some (f.home T)
      rw [hsame]
      refine h.leader_of hx fun T' hT' => ?_
      rw [hpc, hT'] at hof
      cases hof

/-- **A step in order keeps the sequence.** -/
theorem Sequenced.step (h : Sequenced s) {a : Action} {s' : ShardService} (howned : Owned s)
    (hfixed : s.fixedLeader a = true) (horder : s.inOrder a = true) (hs : s.step a = some s') :
    Sequenced s' := by
  rcases ShardService.step_cases hs with
    ⟨th, rpc, rfl, hth, rfl⟩ | ⟨th, timedOut, x, f, -, hx, hf, rfl⟩ | ⟨r, timedOut, R, -, -, rfl⟩ |
    ⟨n, -, -, -, rfl⟩ | ⟨leader, kept, log, rfl, -, rfl, -⟩
  · exact h.receive hth horder
  · exact h.after hx (howned.shape th x hx) hf
  · exact ⟨h.orderly, h.serving, h.fresh, h.leader, h.home⟩
  · exact ⟨h.orderly, h.serving, h.fresh, h.leader, h.home⟩
  · -- before the election there is no leader, and so nothing but queries
    have hnone := (h.fresh (of_decide_eq_true hfixed)).1
    refine ⟨h.orderly, h.serving, fun hterm => absurd hterm (Nat.succ_ne_zero _), ?_, ?_⟩
    · intro th x hx
      rcases h.leader th x hx with hL | hq
      · rw [hnone] at hL
        cases hL
      · exact .inr hq
    · intro T p hp
      have hL := h.home T p hp
      rw [hnone] at hL
      cases hL

/-- What a handler finds pending was begun on its replica. -/
theorem Sequenced.homed (h : Sequenced s) (hx : s.handlers th = some x) (hof : x.pc.Of x.rpc)
    (hlooks : x.pc.looksUp = true) {p : PendingTxn}
    (hp : s.pendingTxns x.rpc.raftTxnId = some p) : s.home x.rpc.raftTxnId = x.replica := by
  rcases h.leader th x hx with hL | ⟨T, hT⟩
  · rw [h.home _ p hp] at hL
    exact Option.some.inj hL
  · exfalso
    obtain ⟨rpc, r, pc⟩ := x
    cases (show rpc = _ from hT)
    cases pc with
    | find op => cases hof.1
    | prepareFind ts => cases hof
    | abortFind => cases hof
    | _ => cases hlooks

end Sequenced

end TransDb.Shard
