import TransDb.Raft.StateMachine
import TransDb.Txn.Operations

/-!
# Local transactions and whom they belong to

One replica: its manager is called by its Raft thread and by the handlers of the shard.
Whoever calls it, a local transaction belongs to the distributed transaction that it was
begun or imported for, and to no other.

* `ReplicaOk` — the invariant: the life cycles of the local transactions, and their owners.
* `ReplicaOk.call`, `ReplicaOk.apply` — **a step of a handler's call and a step of
  `Apply` keep it**; owners are never changed (`Extends`).
-/

namespace TransDb.Raft

open Function Storage Txn

/-- The operation that `Apply` calls before this end. -/
def ApplyEnd.Of (op : Op) : ApplyEnd → Prop
  | .begun => ∃ ts, op = .begin ts
  | .kept => op.asWrite ≠ none
  | .imported => ∃ ts cts ws, op = .importPreparedTxn ts cts ws
  | .prepared l => ∃ ts, op = .prepare l ts
  | .failed => ∃ l, op = .abort l
  | .decided => (∃ l, op = .abort l) ∨ ∃ l ts, op = .commit l ts

/-- `Apply` works on local transactions of the transaction that the entry names. -/
def Applying.Ok (begunFor : TxnId → Option RaftTxnId) : Applying → Prop
  | .entry _ => True
  | .run T c next => (∃ op, c.Serves op ∧ next.Of op) ∧ ∀ l, c.target = some l → begunFor l = some T
  | .setImported T l => begunFor l = some T
  | .setPrepared T l _ => begunFor l = some T

/-- The calls of one replica (`none` is the Raft thread), the life cycles of its local
transactions, and their owners. -/
structure ReplicaOk {κ : Type*} (R : Replica) (calls : Option κ → Option Call)
    (phase : TxnId → Phase (Option κ)) : Prop where
  sim : Sim R.mgr calls phase
  raft : calls none = R.inCall
  known : ∀ l T, R.begunFor l = some T → (phase l).archived ≠ none
  map : ∀ T l, R.sm.txnIdMap T = some l → R.begunFor l = some T
  applying : ∀ a, R.applying = some a → a.Ok R.begunFor

/-- Owners stay. -/
def Extends (R R' : Replica) : Prop := ∀ l T, R.begunFor l = some T → R'.begunFor l = some T

theorem Extends.refl (R : Replica) : Extends R R := fun _ _ h => h

theorem Applying.Ok.mono {R R' : Replica} (he : Extends R R') {a : Applying}
    (h : a.Ok R.begunFor) : a.Ok R'.begunFor := by
  cases a with
  | entry => trivial
  | run T c next => exact ⟨h.1, fun l hl => he l T (h.2 l hl)⟩
  | setImported T l => exact he l T h
  | setPrepared T l st => exact he l T h

theorem ReplicaOk.init {κ : Type*} : ReplicaOk (κ := κ) .empty (fun _ => none) (fun _ => .unborn) where
  sim := Sim.init
  raft := rfl
  known := fun _ _ h => by cases h
  map := fun _ _ h => by cases h
  applying := fun _ h => by cases h

section

variable {κ : Type*} {R R' : Replica} {calls : Option κ → Option Call}
  {phase : TxnId → Phase (Option κ)} {T : RaftTxnId} {c : Call} {timedOut : Bool} {o : Outcome}

/-- What a step of a call does to its replica. -/
theorem Replica.call_eq (h : R.call T c timedOut = some (R', o)) :
    ∃ m, c.step R.mgr timedOut = some (m, o) ∧
      R' = { R with mgr := m, begunFor := Replica.noteBegun R.begunFor T o } := by
  obtain ⟨⟨m, o'⟩, hs, heq⟩ := Option.map_eq_some_iff.mp h
  cases heq
  exact ⟨m, hs, rfl⟩

theorem Replica.call_frame (h : R.call T c timedOut = some (R', o)) :
    R'.sm = R.sm ∧ R'.applying = R.applying ∧ R'.puts = R.puts ∧
      R'.lastApplied = R.lastApplied := by
  obtain ⟨m, -, rfl⟩ := Replica.call_eq h
  exact ⟨rfl, rfl, rfl, rfl⟩

/-- The call of the Raft thread. -/
theorem ReplicaOk.raft_call (h : ReplicaOk R calls phase) {next : ApplyEnd}
    (ha : R.applying = some (.run T c next)) : calls none = some c := by
  rw [h.raft, Replica.inCall, ha]
  rfl

/-- A transaction that is handed out has had no owner. -/
theorem ReplicaOk.extends_call (h : ReplicaOk R calls phase) {i : Option κ}
    (hc : calls i = some c) (hs : R.call T c timedOut = some (R', o)) : Extends R R' := by
  obtain ⟨m, hstep, rfl⟩ := Replica.call_eq hs
  intro l T' hl
  show Replica.noteBegun R.begunFor T o l = some T'
  cases o with
  | more c' => exact hl
  | done r =>
    cases hr : r.txnId with
    | none =>
      simp only [Replica.noteBegun, hr]
      exact hl
    | some l0 =>
      simp only [Replica.noteBegun, hr]
      have hne : l ≠ l0 := by
        rintro rfl
        have hknown := h.known l T' hl
        rcases (c.step_returns hstep hr).2 with ⟨ts, rfl⟩ | ⟨ts, cts, ws, rfl⟩
        · have hp : phase l = .logged i ts := h.sim.call i _ hc
          exact hknown (by rw [hp]; rfl)
        · obtain ⟨done, hp, -⟩ := h.sim.call i _ hc
          exact hknown (by rw [hp]; rfl)
      rw [update_of_ne hne]
      exact hl

variable {l : TxnId} {sm : RaftStateMachine} {next : ApplyEnd}

/-- The owner of a transaction that has just been handed out. -/
theorem Replica.begunFor_call (hs : R.call T c timedOut = some (R', o)) {r : Reply}
    (ho : o = .done r) (hr : r.txnId = some l) : R'.begunFor l = some T := by
  obtain ⟨m, -, rfl⟩ := Replica.call_eq hs
  subst ho
  simp only [Replica.noteBegun, hr]
  exact update_self ..

/-- A step of a call is a move of one local transaction; every one that has an owner
then has been in `txns_`. -/
theorem ReplicaOk.move [DecidableEq κ] (h : ReplicaOk R calls phase) {i : Option κ} (hc : calls i = some c)
    (hs : R.call T c timedOut = some (R', o)) :
    ∃ l p, Txn.Move i l c R.mgr.store (phase l) R'.mgr.store p ∧
      Sim R'.mgr (update calls i o.next) (update phase l p) ∧
      ∀ l' T', R'.begunFor l' = some T' → (update phase l p l').archived ≠ none := by
  obtain ⟨m, hstep, rfl⟩ := Replica.call_eq hs
  obtain ⟨l, p, hmove, hsim⟩ := h.sim.step hc hstep
  refine ⟨l, p, hmove, hsim, ?_⟩
  intro l' T' hl'
  have hold : R.begunFor l' = some T' → (update phase l p l').archived ≠ none := by
    intro hold
    exact update_mono (P := (Phase.archived · ≠ none)) (fun _ => hmove.known) (h.known l' T' hold)
  have hl' : Replica.noteBegun R.begunFor T o l' = some T' := hl'
  cases o with
  | more c' => exact hold hl'
  | done r =>
    cases hr : r.txnId with
    | none =>
      simp only [Replica.noteBegun, hr] at hl'
      exact hold hl'
    | some l0 =>
      simp only [Replica.noteBegun, hr] at hl'
      rcases update_eq_cases hl' with ⟨rfl, -⟩ | ⟨-, hl'⟩
      · have htxn := (c.step_returns hstep hr).1
        have heq : m.txns l' = _ := hsim.txns l'
        rw [heq] at htxn
        exact fun hnone => htxn (Phase.txn_of_archived hnone)
      · exact hold hl'

/-- **A step of a handler's call.** -/
theorem ReplicaOk.call [DecidableEq κ] (h : ReplicaOk R calls phase) {k : κ} (hc : calls (some k) = some c)
    (hs : R.call T c timedOut = some (R', o)) :
    ∃ phase', ReplicaOk R' (update calls (some k) o.next) phase' := by
  obtain ⟨l, p, -, hsim, hknown⟩ := h.move hc hs
  have he := h.extends_call hc hs
  obtain ⟨m, -, rfl⟩ := Replica.call_eq hs
  refine ⟨_, hsim, ?_, hknown, fun T' l' hl' => he l' T' (h.map T' l' hl'), ?_⟩
  · rw [update_of_ne (by simp)]
    exact h.raft
  · exact fun a ha => (h.applying a ha).mono he

/-- A handler starts a call, or makes none. -/
theorem ReplicaOk.start [DecidableEq κ] (h : ReplicaOk R calls phase) {k : κ} (hk : calls (some k) = none)
    {nc : Option Call} (hnc : nc = none ∨ ∃ op : Op, nc = some op.entry) :
    ReplicaOk R (update calls (some k) nc) phase := by
  refine ⟨?_, ?_, h.known, h.map, h.applying⟩
  · rcases hnc with rfl | ⟨op, rfl⟩
    · rw [← hk, update_eq_self]
      exact h.sim
    · exact h.sim.start hk op
  · rw [update_of_ne (by simp)]
    exact h.raft

/-- A handler changes the map of the state machine. -/
theorem ReplicaOk.setSm (h : ReplicaOk R calls phase)
    (hmap : ∀ T l, sm.txnIdMap T = some l → R.begunFor l = some T) :
    ReplicaOk { R with sm := sm } calls phase :=
  ⟨h.sim, h.raft, h.known, hmap, h.applying⟩

/-! ## Steps of `Apply` -/

/-- The Raft thread is done with an entry. -/
theorem ReplicaOk.finish (h : ReplicaOk R calls phase) (hraft : calls none = none)
    (hmap : ∀ T l, sm.txnIdMap T = some l → R.begunFor l = some T) :
    ReplicaOk (R.finish sm) calls phase :=
  ⟨h.sim, hraft, h.known, hmap, fun _ ha => by cases ha⟩

/-- The Raft thread calls the manager. -/
theorem ReplicaOk.enterCall [DecidableEq κ] (h : ReplicaOk R calls phase)
    (hraft : calls none = none) {op : Op} (hop : next.Of op)
    (hl : ∀ l, op.txnId = some l → R.begunFor l = some T) :
    ReplicaOk (R.enterCall T op next) (update calls none (some op.entry)) phase := by
  refine ⟨h.sim.start hraft op, by rw [update_self]; rfl, h.known, h.map, ?_⟩
  rintro a ha
  cases ha
  refine ⟨⟨op, op.entry_serves, hop⟩, ?_⟩
  intro l htarget
  rw [op.entry_serves.target] at htarget
  exact hl l htarget

theorem eraseTxn_map {T T' : RaftTxnId} (h : (sm.eraseTxn T).txnIdMap T' = some l) :
    sm.txnIdMap T' = some l := by
  rcases update_eq_cases h with ⟨-, ⟨⟩⟩ | ⟨-, h⟩
  exact h

/-- The map with one more transaction. -/
theorem registerLocalTxn_map {T T' : RaftTxnId} {l' : TxnId}
    (h : (sm.registerLocalTxn T l).txnIdMap T' = some l') :
    (T' = T ∧ l' = l) ∨ sm.txnIdMap T' = some l' := by
  rcases update_eq_cases h with ⟨rfl, ⟨⟩⟩ | ⟨-, h⟩
  · exact .inl ⟨rfl, rfl⟩
  · exact .inr h

theorem ReplicaOk.applyCommand [DecidableEq κ] (h : ReplicaOk R calls phase) (hraft : calls none = none)
    (cmd : Command) :
    ReplicaOk (R.applyCommand cmd) (update calls none (R.applyCommand cmd).inCall) phase := by
  -- an entry without a call
  have hfinish : ∀ {sm : RaftStateMachine}, (∀ T l, sm.txnIdMap T = some l → R.begunFor l = some T) →
      ReplicaOk (R.finish sm) (update calls none (R.finish sm).inCall) phase := by
    intro sm hmap
    rw [show (R.finish sm).inCall = calls none from hraft.symm, update_eq_self]
    exact h.finish hraft hmap
  cases cmd with
  | skip | badPrepare => exact hfinish h.map
  | «begin» T ts => exact h.enterCall hraft ⟨ts, rfl⟩ (by simp [Op.txnId])
  | abort T =>
    simp only [Replica.applyCommand]
    cases hl : R.sm.txnIdMap T with
    | none => exact hfinish h.map
    | some l => exact h.enterCall hraft (.inl ⟨l, rfl⟩) (by rintro _ ⟨⟩; exact h.map T l hl)
  | commit T ts =>
    simp only [Replica.applyCommand]
    cases hl : R.sm.txnIdMap T with
    | none => exact hfinish h.map
    | some l => exact h.enterCall hraft (.inr ⟨l, ts, rfl⟩) (by rintro _ ⟨⟩; exact h.map T l hl)
  | prepare T ts =>
    simp only [Replica.applyCommand]
    cases hl : R.sm.txnIdMap T with
    | none => exact hfinish h.map
    | some l => exact h.enterCall hraft ⟨ts, rfl⟩ (by rintro _ ⟨⟩; exact h.map T l hl)
  | prepareBatch b =>
    simp only [Replica.applyCommand]
    cases hl : R.sm.txnIdMap b.raftTxnId with
    | some l => exact hfinish h.map
    | none => exact h.enterCall hraft ⟨_, _, _, rfl⟩ (by simp [Op.txnId])
  | write T w =>
    simp only [Replica.applyCommand]
    cases hl : R.sm.txnIdMap T with
    | none => exact hfinish h.map
    | some l =>
      by_cases hd : w.isDelete = true
      · simp only [if_pos hd]
        exact h.enterCall hraft (by simp [ApplyEnd.Of, Op.asWrite])
          (by rintro _ ⟨⟩; exact h.map T l hl)
      · simp only [if_neg hd]
        exact h.enterCall hraft (by simp [ApplyEnd.Of, Op.asWrite])
          (by rintro _ ⟨⟩; exact h.map T l hl)

@[simp] theorem Replica.begunFor_applyCommand (cmd : Command) :
    (R.applyCommand cmd).begunFor = R.begunFor := by
  cases cmd with
  | skip | badPrepare | «begin» => rfl
  | _ =>
    simp only [Replica.applyCommand]
    split <;> rfl

/-- The Raft thread goes on in a call, or the call returns. -/
theorem Replica.applyStep_run (hs : R.applyStep timedOut (.run T c next) = some R') :
    (∃ R1 c', R.call T c timedOut = some (R1, .more c') ∧ R' = { R1 with
      applying := some (.run T c' next), puts := notePut R.puts R.lastApplied c }) ∨
    ∃ R1 r, R.call T c timedOut = some (R1, .done r) ∧ R' = R1.applyReturn T r next := by
  simp only [applyStep] at hs
  split at hs
  · cases hs
  · exact .inl ⟨_, _, ‹_›, (Option.some.inj hs).symm⟩
  · exact .inr ⟨_, _, ‹_›, (Option.some.inj hs).symm⟩

section

variable (h : ReplicaOk R calls phase)
include h

/-- The Raft thread goes on in its call. -/
theorem ReplicaOk.applyMore [DecidableEq κ] (ha : R.applying = some (.run T c next)) {c' : Call}
    (hs : R.call T c timedOut = some (R', .more c')) (puts : ℕ → List (Timestamp × BufferedWrite)) :
    ∃ phase', ReplicaOk { R' with applying := some (.run T c' next), puts := puts }
      (update calls none (some c')) phase' := by
  have hc : calls none = some c := by rw [h.raft, Replica.inCall, ha]; rfl
  obtain ⟨l, p, -, hsim, hknown⟩ := h.move hc hs
  have he := h.extends_call hc hs
  obtain ⟨⟨op, hserves, hop⟩, howner⟩ := h.applying _ ha
  obtain ⟨m, hstep, rfl⟩ := Replica.call_eq hs
  have hnext : c'.Serves op := hserves.next hstep rfl
  refine ⟨_, hsim, by rw [update_self]; rfl, hknown,
    fun T' l' hl' => he l' T' (h.map T' l' hl'), ?_⟩
  intro a ha'
  cases ha'
  refine ⟨⟨op, hnext, hop⟩, ?_⟩
  intro l' hl'
  rw [hnext.target, ← hserves.target] at hl'
  exact he l' T (howner l' hl')

/-- The call of the Raft thread returns. -/
theorem ReplicaOk.applyDone [DecidableEq κ] (ha : R.applying = some (.run T c next)) {r : Reply}
    (hs : R.call T c timedOut = some (R', .done r)) :
    ∃ phase', ReplicaOk (R'.applyReturn T r next)
      (update calls none (R'.applyReturn T r next).inCall) phase' := by
  have hc : calls none = some c := by rw [h.raft, Replica.inCall, ha]; rfl
  obtain ⟨l, p, -, hsim, hknown⟩ := h.move hc hs
  have he := h.extends_call hc hs
  obtain ⟨⟨op, hserves, hop⟩, howner⟩ := h.applying _ ha
  have hmap : ∀ T' l', R'.sm.txnIdMap T' = some l' → R'.begunFor l' = some T' := by
    obtain ⟨m, -, rfl⟩ := Replica.call_eq hs
    exact fun T' l' hl' => he l' T' (h.map T' l' hl')
  -- the transaction that a call has made
  have hnew : (∃ ts, op = .begin ts) ∨ (∃ ts cts ws, op = .importPreparedTxn ts cts ws) →
      R'.begunFor (r.txnId.getD 0) = some T := by
    intro hmakes
    obtain ⟨m, hstep, -⟩ := Replica.call_eq hs
    obtain ⟨l', hl'⟩ := hserves.hands_out hmakes hstep
    rw [hl']
    exact Replica.begunFor_call hs rfl hl'
  have hsim : Sim R'.mgr (update calls none none) (update phase l p) := hsim
  have hraft : update calls (none : Option κ) (none : Option Call) none = none :=
    update_self ..
  have hfinish : ∀ {sm : RaftStateMachine}, (∀ T l, sm.txnIdMap T = some l → R'.begunFor l = some T) →
      ReplicaOk (R'.finish sm) (update calls none none) (update phase l p) :=
    fun hsm => ⟨hsim, hraft, hknown, hsm, fun _ ha => by cases ha⟩
  refine ⟨update phase l p, ?_⟩
  cases next with
  | begun =>
    refine hfinish ?_
    intro T' l' hl'
    rcases registerLocalTxn_map hl' with ⟨rfl, rfl⟩ | hold
    · exact hnew (.inl hop)
    · exact hmap T' l' hold
  | kept => exact hfinish hmap
  | imported =>
    refine ⟨hsim, hraft, hknown, hmap, ?_⟩
    intro a ha'
    cases ha'
    exact hnew (.inr hop)
  | prepared l' =>
    obtain ⟨ts, rfl⟩ := hop
    refine ⟨hsim, hraft, hknown, hmap, ?_⟩
    intro a ha'
    cases ha'
    exact he l' T (howner l' hserves.target)
  | failed | decided => exact hfinish fun T' l' hl' => hmap T' l' (eraseTxn_map hl')

/-- **A step of `Apply`.**  The owners of the transactions stay. -/
theorem ReplicaOk.apply [DecidableEq κ] {a : Applying} (ha : R.applying = some a)
    (hs : R.applyStep timedOut a = some R') :
    (∃ phase', ReplicaOk R' (update calls none R'.inCall) phase') ∧ Extends R R' := by
  cases a with
  | entry e =>
    cases hs
    refine ⟨⟨phase, h.applyCommand (by rw [h.raft, Replica.inCall, ha]; rfl) e.command⟩, ?_⟩
    intro l T hl
    rw [Replica.begunFor_applyCommand]
    exact hl
  | run T c next =>
    have hc : calls none = some c := by rw [h.raft, Replica.inCall, ha]; rfl
    rcases Replica.applyStep_run hs with ⟨R1, c', hcall, rfl⟩ | ⟨R1, r, hcall, rfl⟩
    · have he := h.extends_call hc hcall
      exact ⟨h.applyMore ha hcall _, he⟩
    · have he := h.extends_call hc hcall
      refine ⟨h.applyDone ha hcall, ?_⟩
      cases next <;> exact he
  | setImported T l =>
    cases hs
    have hraft : calls none = none := by rw [h.raft, Replica.inCall, ha]; rfl
    have howner : R.begunFor l = some T := h.applying _ ha
    refine ⟨⟨phase, ?_⟩, Extends.refl R⟩
    rw [show (R.finish _).inCall = calls none from hraft.symm, update_eq_self]
    refine h.finish hraft ?_
    intro T' l' hl'
    rcases registerLocalTxn_map hl' with ⟨rfl, rfl⟩ | hold
    · exact howner
    · exact h.map T' l' hold
  | setPrepared T l st =>
    have hraft : calls none = none := by rw [h.raft, Replica.inCall, ha]; rfl
    have howner : R.begunFor l = some T := h.applying _ ha
    simp only [Replica.applyStep] at hs
    split_ifs at hs
    · cases hs
      refine ⟨⟨phase, ?_⟩, Extends.refl R⟩
      rw [show (R.finish _).inCall = calls none from hraft.symm, update_eq_self]
      exact h.finish hraft h.map
    · cases hs
      have hl : ∀ l', (Op.abort l).txnId = some l' → R.begunFor l' = some T := by
        rintro _ ⟨⟩
        exact howner
      have hop : ApplyEnd.failed.Of (.abort l) := ⟨l, rfl⟩
      have hsm : ∀ pr, ReplicaOk { R with sm := R.sm.setPrepareResult T pr } calls phase :=
        fun _ => h.setSm h.map
      exact ⟨⟨phase, (hsm _).enterCall hraft hop hl⟩, Extends.refl R⟩

end

end

end TransDb.Raft
