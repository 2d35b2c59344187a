import TransDb.Shard.Handlers
import TransDb.Txn.Recover

/-!
# Decisions come from requests

The log of a shard holds a decision only if a request has asked for it, whatever the
replicas do, whoever leads, and also across restarts of the server.

* `Replica.restart`, `ShardService.restart` — a replica and the server after a crash.
* `Served` — the invariant, for any property that all requests have; `Served.step` and
  `Served.restart` **keep it**.
-/

namespace TransDb.Shard

open List Function Storage Txn Raft

/-- A replica after a crash: the store, the WAL and the Raft log are on disk, the manager
is recovered from the WAL, and the log is applied again from its beginning. -/
def Replica.restart (R : Replica) : Option Replica :=
  match TxnManager.recover { TxnManager.reopen R.mgr.wal.records with store := R.mgr.store } with
  | .ok m => some { Replica.empty with mgr := m, begunFor := R.begunFor }
  | .error _ => none

/-- A shard server after a crash; `n` is the number of its replicas.  The maps and the
handlers are gone, the log is kept. -/
def ShardService.restart (s : ShardService) (n : ℕ) : Option ShardService :=
  if (List.range n).all fun r => (Replica.restart (s.replicas r)).isSome then
    some { ShardService.init with
      term := s.term
      log := s.log
      replicas := fun r => if r < n then (Replica.restart (s.replicas r)).getD .empty else .empty
      history := s.history }
  else none

/-- What a command that decides a transaction was asked by. -/
def Decision (ok : Rpc → Prop) : Command → Prop
  | .commit T ts => ok (.commit T ts)
  | .abort T => ok (.abort T)
  | _ => True

/-- All requests have a property, and the decisions come from requests. -/
structure Served (ok : Rpc → Prop) (s : ShardService) : Prop where
  received : ∀ th rpc, .received th rpc ∈ s.history → ok rpc
  handler : ∀ th x, s.handlers th = some x → ok x.rpc ∧ x.pc.Of x.rpc
  log : ∀ e ∈ s.log, Decision ok e.command
  aborted : ∀ T, s.terminalTxnStates T = some .aborted → ok (.abort T)
  committed : ∀ T, s.terminalTxnStates T = some .committed → ∃ ts, ok (.commit T ts)
  reported : ∀ th T, .answered th (.queryTxnState T) (.txnState .committed) ∈ s.history →
    ∃ ts, ok (.commit T ts)

theorem Served.init (ok : Rpc → Prop) : Served ok .init where
  received := fun _ _ h => by cases h
  handler := fun _ _ h => by cases h
  log := fun _ h => by cases h
  aborted := fun _ h => by cases h
  committed := fun _ h => by cases h
  reported := fun _ _ h => by cases h

theorem Served.mono {ok ok' : Rpc → Prop} (hok : ∀ rpc, ok rpc → ok' rpc) {s : ShardService}
    (h : Served ok s) : Served ok' s where
  received := fun th rpc hr => hok _ (h.received th rpc hr)
  handler := fun th x hx => ⟨hok _ (h.handler th x hx).1, (h.handler th x hx).2⟩
  log := fun e he => by
    have := h.log e he
    cases hcmd : e.command with
    | commit T ts | abort T =>
      rw [hcmd] at this
      exact hok _ this
    | _ => trivial
  aborted := fun T hT => hok _ (h.aborted T hT)
  committed := fun T hT => by
    obtain ⟨ts, hts⟩ := h.committed T hT
    exact ⟨ts, hok _ hts⟩
  reported := fun th T hT => by
    obtain ⟨ts, hts⟩ := h.reported th T hT
    exact ⟨ts, hok _ hts⟩

section

variable {ok : Rpc → Prop} {s : ShardService} {th : ThreadId} {x : Handler} {f : Effect}

/-- The entry that a handler proposes. -/
theorem Proposal.Packs.decision {rpc : Rpc} {type : RaftEntryType} {payload : Bytes}
    {next : Proposal} (h : next.Packs rpc type payload) (hok : ok rpc) (ix term : ℕ) :
    Decision ok (RaftLogEntry.mk ix term type payload).command := by
  cases next with
  | prepareBatch p =>
    obtain ⟨ts, ws, -, rfl, rfl⟩ := h
    simp only [RaftLogEntry.command]
    split <;> trivial
  | commit =>
    obtain ⟨ts, hrpc, rfl, rfl⟩ := h
    rw [command_commit]
    exact hrpc ▸ hok
  | abort =>
    obtain ⟨hrpc, rfl, rfl⟩ := h
    rw [command_abort]
    exact hrpc ▸ hok

theorem Steps.decision (hs : Steps s x x.pc f) (h : Served ok s) (hrpc : ok x.rpc)
    (hof : x.pc.Of x.rpc) : ∀ e ∈ f.log, Decision ok e.command := by
  generalize hpc : x.pc = pc at hs hof
  cases hs with
  | proposed L hL hidle =>
    intro e he
    rcases mem_append.mp he with hold | hnew
    · exact h.log e hold
    · rw [mem_singleton.mp hnew]
      exact Proposal.Packs.decision hof hrpc _ _
  | _ => exact h.log

/-- The states that a handler records as final. -/
theorem Steps.terminal (hs : Steps s x x.pc f) (hof : x.pc.Of x.rpc) {T : RaftTxnId}
    {state : TxnStateCode} (hT : f.terminalTxnStates T = some state) :
    s.terminalTxnStates T = some state ∨ (state = .aborted ∧ x.rpc = .abort T) ∨
      ∃ ts, state = .committed ∧ x.rpc = .commit T ts := by
  generalize hpc : x.pc = pc at hs hof
  cases hs with
  | erasedAborted =>
    rcases update_eq_cases hT with ⟨rfl, ⟨⟩⟩ | ⟨-, hT⟩
    · exact .inr (.inl ⟨rfl, hof⟩)
    · exact .inl hT
  | finished =>
    rcases update_eq_cases hT with ⟨rfl, ⟨⟩⟩ | ⟨-, hT⟩
    · obtain ⟨ts, hrpc⟩ := hof
      exact .inr (.inr ⟨ts, rfl, hrpc⟩)
    · exact .inl hT
  | _ => exact .inl hT

/-- Only a state that is recorded as final is reported as such. -/
theorem Steps.reports {pc : Pc} (hs : Steps s x pc f)
    (hn : f.next = .answer (.txnState .committed)) :
    s.terminalTxnStates x.rpc.raftTxnId = some .committed := by
  cases hs with
  | @returned c next R' r timedOut hcall =>
    have hn : next.returned r = .answer (.txnState .committed) := hn
    cases next with
    | answer =>
      simp only [AfterCall.returned, Response.ofReply] at hn
      split at hn <;> cases hn
    | prepared ts p =>
      simp only [AfterCall.returned] at hn
      split at hn <;> cases hn
    | _ => cases hn
  | @notProposed _ _ next | @timedOut _ _ next =>
    have hn : next.failed = .answer (.txnState .committed) := hn
    cases next <;> cases hn
  | @committed L ix next =>
    have hn : next.succeeded = .answer (.txnState .committed) := hn
    cases next <;> cases hn
  | answered h =>
    cases hn
    exact h rfl
  | _ => cases hn

theorem Served.receive (h : Served ok s) {rpc : Rpc} (hrpc : ok rpc) :
    Served ok (s.receive th rpc) := by
  rcases s.receive_cases th rpc with ⟨L, -, heq⟩ | heq
  · rw [heq]
    refine ⟨?_, ?_, h.log, h.aborted, h.committed,
      fun j T hj => h.reported j T ((mem_cons.mp hj).resolve_left nofun)⟩
    · intro j rpc' hj
      rcases mem_cons.mp hj with hnew | hold
      · cases hnew
        exact hrpc
      · exact h.received j rpc' hold
    · intro j y hj
      rcases ShardService.handlers_started hj with ⟨-, rfl⟩ | ⟨-, hj⟩
      · exact ⟨hrpc, rpc.entry_of⟩
      · exact h.handler j y hj
  · rw [heq]
    refine ⟨?_, h.handler, h.log, h.aborted, h.committed, ?_⟩
    · intro j rpc' hj
      rcases mem_cons.mp hj with hnew | hj
      · cases hnew
      rcases mem_cons.mp hj with hnew | hold
      · cases hnew
        exact hrpc
      · exact h.received j rpc' hold
    · intro j T hj
      rcases mem_cons.mp hj with hnew | hj
      · cases rpc <;> cases hnew
      · exact h.reported j T ((mem_cons.mp hj).resolve_left nofun)

theorem Served.after (h : Served ok s) (hx : s.handlers th = some x) (hs : Steps s x x.pc f) :
    Served ok (s.after th x f) := by
  obtain ⟨hrpc, hof⟩ := h.handler th x hx
  refine ⟨?_, ?_, hs.decision h hrpc hof, ?_, ?_, ?_⟩
  · intro j rpc hj
    cases hn : f.next with
    | goto pc =>
      simp only [ShardService.after, hn] at hj
      exact h.received j rpc hj
    | answer r =>
      simp only [ShardService.after, hn] at hj
      rcases mem_cons.mp hj with hnew | hold
      · cases hnew
      · exact h.received j rpc hold
  · intro j y hj
    rcases ShardService.handlers_after hj with ⟨-, pc, hn, rfl⟩ | ⟨-, hj⟩
    · exact ⟨hrpc, hs.of hof hn⟩
    · exact h.handler j y hj
  · intro T hT
    rcases hs.terminal hof hT with hold | ⟨-, heq⟩ | ⟨ts, hstate, -⟩
    · exact h.aborted T hold
    · exact heq ▸ hrpc
    · cases hstate
  · intro T hT
    rcases hs.terminal hof hT with hold | ⟨hstate, -⟩ | ⟨ts, -, heq⟩
    · exact h.committed T hold
    · cases hstate
    · exact ⟨ts, heq ▸ hrpc⟩
  · intro j T hj
    cases hn : f.next with
    | goto pc =>
      simp only [ShardService.after, hn] at hj
      exact h.reported j T hj
    | answer r =>
      simp only [ShardService.after, hn] at hj
      rcases mem_cons.mp hj with hnew | hold
      · injection hnew with _ hq hr
        have hT := hs.reports (hr ▸ hn)
        rw [← hq] at hT
        exact h.committed T hT
      · exact h.reported j T hold

/-- **A step of the shard.** -/
theorem Served.step (h : Served ok s) {a : Action} {s' : ShardService}
    (hreceive : ∀ th rpc, a = .receive th rpc → ok rpc) (hs : s.step a = some s') :
    Served ok s' := by
  rcases ShardService.step_cases hs with
    ⟨th, rpc, rfl, -, rfl⟩ | ⟨th, timedOut, x, f, -, hx, hf, rfl⟩ | ⟨r, timedOut, R, -, -, rfl⟩ |
    ⟨n, -, -, -, rfl⟩ | ⟨leader, kept, log, -, -, rfl, hlog⟩
  · exact h.receive (hreceive th rpc rfl)
  · exact h.after hx hf
  · exact ⟨h.received, h.handler, h.log, h.aborted, h.committed, h.reported⟩
  · exact ⟨h.received, h.handler, h.log, h.aborted, h.committed, h.reported⟩
  · refine ⟨h.received, h.handler, ?_, h.aborted, h.committed, h.reported⟩
    intro e he
    rcases hlog with rfl | ⟨ix, term, rfl⟩
    · exact h.log e (mem_of_mem_take he)
    · rcases mem_append.mp he with hold | hnew
      · exact h.log e (mem_of_mem_take hold)
      · rw [mem_singleton.mp hnew, command_noop]
        trivial

/-- **A restart of the server.** -/
theorem Served.restart (h : Served ok s) {n : ℕ} {s' : ShardService}
    (hs : s.restart n = some s') : Served ok s' := by
  obtain ⟨-, heq⟩ := Option.ite_none_right_eq_some.mp hs
  cases heq
  refine ⟨h.received, ?_, h.log, ?_, ?_, h.reported⟩
  · rintro th x ⟨⟩
  · rintro T ⟨⟩
  · rintro T ⟨⟩

end

end TransDb.Shard
