import Mathlib.Data.List.Lattice
import Mathlib.Data.List.Nodup
import Mathlib.Data.List.Pairwise
import TransDb.Core.Machine
import TransDb.Txn.Manager

/-!
# Group commit

The model of `DurableSyncRegistry` (`src/txn/group_commit.cpp`) with group commit on: the
calls of `QueueSync`, any number of them, and the worker that takes the pending requests,
runs one flush for each key and wakes the calls up.

* `Registry`, `registry` — the machine: each critical section and each start and end of a
  flush is a step.  `events` records what happened, `published` the batches that are done.
* `Registry.wakesInTime` — a call returns only while its own batch is the last one.
* `queueSync_ok_after_flush` — **then no call returns early**, and none hides a failure.
-/

namespace TransDb.Txn

open Option List

namespace GroupCommit

variable {K : Type}

/-- A request: its key, and the call whose callback it carries. -/
structure PendingSync (K : Type) where
  key : K
  call : ℕ
  deriving DecidableEq

/-- What is noted of a run. -/
inductive Event (K : Type) where
  | enqueued (p : PendingSync K)
  /-- The callback of `q` is run. -/
  | started (q : PendingSync K)
  | finished (q : PendingSync K) (st : Status)
  | returned (p : PendingSync K) (st : Status)
  deriving DecidableEq

/-- A batch that the worker is done with: the requests in it, what the flushes returned,
and the merged status. -/
structure Batch (K : Type) where
  items : List (PendingSync K)
  results : List (PendingSync K × Status)
  status : Status
  deriving DecidableEq

/-- The local variables of `WorkerLoop` while it flushes. -/
structure Flight (K : Type) where
  items : List (PendingSync K)
  running : Option (PendingSync K)
  todo : List (PendingSync K)
  results : List (PendingSync K × Status)
  merged : Status
  deriving DecidableEq

/-- Where the worker is. -/
inductive Worker (K : Type) where
  /-- At the head of the loop. -/
  | idle
  /-- Waits for requests, or for more of them. -/
  | waiting
  | flushing (f : Flight K)
  | done
  deriving DecidableEq

/-- The registry and its history. -/
structure Registry (K : Type) where
  syncedGeneration : ℕ
  lastStatus : Status
  pendingSyncs : List (PendingSync K)
  stop : Bool
  worker : Worker K
  /-- The calls that wait, each with its `wait_generation`. -/
  waiting : List (PendingSync K × ℕ)
  nextCall : ℕ
  published : List (Batch K)
  events : List (Event K)

/-- The loop that fills `unique_syncs`: of the callbacks for a key the last one stays. -/
def uniqueSyncs [DecidableEq K] (batch : List (PendingSync K)) : List (PendingSync K) :=
  batch.foldl (fun m p => p :: m.filter fun q => q.key ≠ p.key) []

/-- What happens next. -/
inductive Action (K : Type) where
  /-- `QueueSync` adds its request. -/
  | enqueue (key : K)
  /-- `QueueSync` finds the generation it has waited for. -/
  | wake (p : PendingSync K)
  | enterLoop
  /-- The worker takes the batch; `order` is how it will go through the map. -/
  | swap (order : List (PendingSync K))
  | startFlush
  | endFlush (st : Status)
  | publish
  | exit
  | stop

namespace Registry

/-- Nobody waits. -/
def init : Registry K where
  syncedGeneration := 0
  lastStatus := .ok
  pendingSyncs := []
  stop := false
  worker := .idle
  waiting := []
  nextCall := 0
  published := []
  events := []

/-- One step. -/
def step [DecidableEq K] (s : Registry K) : Action K → Option (Registry K)
  | .enqueue key =>
    let p : PendingSync K := ⟨key, s.nextCall⟩
    some { s with
      pendingSyncs := s.pendingSyncs ++ [p]
      waiting := s.waiting ++ [(p, s.syncedGeneration)]
      nextCall := s.nextCall + 1
      events := s.events ++ [.enqueued p] }
  | .wake p =>
    match s.waiting.find? fun w => w.1 = p with
    | none => none
    | some w =>
      if w.2 < s.syncedGeneration then
        some { s with
          waiting := s.waiting.filter fun w => w.1 ≠ p
          events := s.events ++ [.returned p s.lastStatus] }
      else none
  | .enterLoop =>
    if s.worker = .idle then some { s with worker := if s.stop then .done else .waiting } else none
  | .swap order =>
    if s.worker = .waiting ∧ s.pendingSyncs ≠ [] ∧ order.Perm (uniqueSyncs s.pendingSyncs) then
      some { s with
        pendingSyncs := []
        worker := .flushing ⟨s.pendingSyncs, none, order, [], .ok⟩ }
    else none
  | .startFlush =>
    match s.worker with
    | .flushing ⟨items, none, q :: todo, results, merged⟩ =>
      some { s with
        worker := .flushing ⟨items, some q, todo, results, merged⟩
        events := s.events ++ [.started q] }
    | _ => none
  | .endFlush st =>
    match s.worker with
    | .flushing ⟨items, some q, todo, results, merged⟩ =>
      some { s with
        worker := .flushing
          ⟨items, none, todo, results ++ [(q, st)], if st.code = .ok then merged else st⟩
        events := s.events ++ [.finished q st] }
    | _ => none
  | .publish =>
    match s.worker with
    | .flushing ⟨items, none, [], results, merged⟩ =>
      some { s with
        lastStatus := merged
        syncedGeneration := s.syncedGeneration + 1
        worker := .idle
        published := s.published ++ [⟨items, results, merged⟩] }
    | _ => none
  | .exit =>
    if s.worker = .waiting ∧ s.stop = true ∧ s.pendingSyncs = [] then
      some { s with worker := .done }
    else none
  | .stop => some { s with stop := true }

end Registry

/-- The registry as a machine. -/
def registry (K : Type) [DecidableEq K] : Machine (Registry K) (Action K) :=
  ⟨Registry.init, Registry.step⟩

/-! ## What a batch and a flight stand for -/

theorem exists_uniqueSyncs [DecidableEq K] {batch : List (PendingSync K)} {p : PendingSync K} (h : p ∈ batch) :
    ∃ q ∈ uniqueSyncs batch, q.key = p.key := by
  -- after some items, every key that was seen has an entry
  have hfold : ∀ (rest : List (PendingSync K)) (m : List (PendingSync K)),
      (p ∈ rest ∨ ∃ q ∈ m, q.key = p.key) →
        ∃ q ∈ rest.foldl (fun m p => p :: m.filter fun q => q.key ≠ p.key) m, q.key = p.key := by
    intro rest
    induction rest with
    | nil =>
      rintro m (hmem | hq)
      · cases hmem
      · exact hq
    | cons x rest ih =>
      rintro m (hmem | ⟨q, hq, hkey⟩)
      · rcases mem_cons.mp hmem with rfl | hmem
        · exact ih _ (.inr ⟨p, mem_cons_self, rfl⟩)
        · exact ih _ (.inl hmem)
      · by_cases hx : q.key = x.key
        · exact ih _ (.inr ⟨x, mem_cons_self, hx.symm.trans hkey⟩)
        · exact ih _ (.inr ⟨q, mem_cons_of_mem x (by simp [hq, hx]), hkey⟩)
  exact hfold batch [] (.inl h)

/-- A batch has a flush for each of its requests, begun after the request was made, and
its status tells of every failure. -/
structure Batch.Good (events : List (Event K)) (b : Batch K) : Prop where
  covers : ∀ p ∈ b.items, ∃ r ∈ b.results, r.1.key = p.key
  merged : ∀ r ∈ b.results, r.2.code ≠ .ok → b.status.code ≠ .ok
  flushed : ∀ r ∈ b.results, ∀ p ∈ b.items, r.1.key = p.key →
    [.enqueued p, .started r.1, .finished r.1 r.2].Sublist events

/-- The same for the batch that is being flushed. -/
structure Flight.Good (events : List (Event K)) (f : Flight K) : Prop where
  enqueued : ∀ p ∈ f.items, .enqueued p ∈ events
  covers : ∀ p ∈ f.items, ∃ q, q.key = p.key ∧
    (q ∈ f.todo ∨ f.running = some q ∨ ∃ st, (q, st) ∈ f.results)
  merged : ∀ r ∈ f.results, r.2.code ≠ .ok → f.merged.code ≠ .ok
  running : ∀ q, f.running = some q → ∀ p ∈ f.items, q.key = p.key →
    [.enqueued p, .started q].Sublist events
  flushed : ∀ r ∈ f.results, ∀ p ∈ f.items, r.1.key = p.key →
    [.enqueued p, .started r.1, .finished r.1 r.2].Sublist events

section Later

variable {events : List (Event K)}

theorem Batch.Good.later {b : Batch K} (h : b.Good events) (e : Event K) :
    b.Good (events ++ [e]) :=
  ⟨h.covers, h.merged,
    fun r hr p hp hkey => (h.flushed r hr p hp hkey).trans (sublist_append_left _ _)⟩

theorem Flight.Good.later {f : Flight K} (h : f.Good events) (e : Event K) :
    f.Good (events ++ [e]) where
  enqueued p hp := List.mem_append_left _ (h.enqueued p hp)
  covers := h.covers
  merged := h.merged
  running q hq p hp hkey := (h.running q hq p hp hkey).trans (List.sublist_append_left _ _)
  flushed r hr p hp hkey := (h.flushed r hr p hp hkey).trans (List.sublist_append_left _ _)

theorem Flight.good_swap [DecidableEq K] {batch order : List (PendingSync K)}
    (henq : ∀ p ∈ batch, .enqueued p ∈ events) (horder : order.Perm (uniqueSyncs batch)) :
    Flight.Good events ⟨batch, none, order, [], .ok⟩ where
  enqueued := henq
  covers p hp := by
    obtain ⟨q, hq, hkey⟩ := exists_uniqueSyncs hp
    exact ⟨q, hkey, .inl (horder.mem_iff.mpr hq)⟩
  merged r hr := by cases hr
  running q hq := by cases hq
  flushed r hr := by cases hr

variable {results : List (PendingSync K × Status)} {merged : Status}

theorem Flight.Good.start {items todo : List (PendingSync K)} {q : PendingSync K}
    (h : Flight.Good events ⟨items, none, q :: todo, results, merged⟩) :
    Flight.Good (events ++ [.started q]) ⟨items, some q, todo, results, merged⟩ where
  enqueued p hp := List.mem_append_left _ (h.enqueued p hp)
  covers p hp := by
    obtain ⟨x, hkey, hx | hx | hx⟩ := h.covers p hp
    · rcases mem_cons.mp hx with rfl | hx
      · exact ⟨x, hkey, .inr (.inl rfl)⟩
      · exact ⟨x, hkey, .inl hx⟩
    · cases hx
    · exact ⟨x, hkey, .inr (.inr hx)⟩
  merged := h.merged
  running x hx p hp _ := by
    obtain rfl : q = x := some.inj hx
    exact (singleton_sublist.mpr (h.enqueued p hp)).append (List.Sublist.refl [Event.started q])
  flushed r hr p hp hkey := (h.flushed r hr p hp hkey).trans (sublist_append_left _ _)

theorem Flight.Good.finish {items todo : List (PendingSync K)} {q : PendingSync K}
    (h : Flight.Good events ⟨items, some q, todo, results, merged⟩) (st : Status) :
    Flight.Good (events ++ [.finished q st])
      ⟨items, none, todo, results ++ [(q, st)], if st.code = .ok then merged else st⟩ where
  enqueued p hp := List.mem_append_left _ (h.enqueued p hp)
  covers p hp := by
    obtain ⟨x, hkey, hx | hx | ⟨st', hx⟩⟩ := h.covers p hp
    · exact ⟨x, hkey, .inl hx⟩
    · obtain rfl : q = x := some.inj hx
      exact ⟨q, hkey, .inr (.inr ⟨st, mem_append_right _ (mem_singleton.mpr rfl)⟩)⟩
    · exact ⟨x, hkey, .inr (.inr ⟨st', mem_append_left _ hx⟩)⟩
  merged r hr hfail := by
    show (if st.code = .ok then merged else st).code ≠ .ok
    split_ifs with hst
    · rcases mem_append.mp hr with hr | hr
      · exact h.merged r hr hfail
      · obtain rfl := mem_singleton.mp hr
        exact absurd hst hfail
    · exact hst
  running x hx := by cases hx
  flushed r hr p hp hkey := by
    rcases mem_append.mp hr with hr | hr
    · exact (h.flushed r hr p hp hkey).trans (sublist_append_left _ _)
    · obtain rfl := mem_singleton.mp hr
      exact (h.running q rfl p hp hkey).append (List.Sublist.refl [Event.finished q st])

/-- A flight that has nothing left to do. -/
theorem Flight.Good.batch {items : List (PendingSync K)}
    (h : Flight.Good events ⟨items, none, [], results, merged⟩) :
    Batch.Good events ⟨items, results, merged⟩ where
  covers p hp := by
    obtain ⟨x, hkey, hx | hx | ⟨st, hx⟩⟩ := h.covers p hp
    · cases hx
    · cases hx
    · exact ⟨(x, st), hx, hkey⟩
  merged := h.merged
  flushed := h.flushed

end Later

/-! ## Runs -/

/-- The requests that are being flushed. -/
def Worker.items : Worker K → List (PendingSync K)
  | .flushing f => f.items
  | _ => []

namespace Registry

/-- A call returns only while the batch that was published last is the one with its
request. -/
def wakesInTime (s : Registry K) : Action K → Prop
  | .wake p => ∃ b ∈ s.published.getLast?, p ∈ b.items
  | _ => True

/-- What holds in every state of such a run. -/
structure Inv (s : Registry K) : Prop where
  /-- Requests go through the registry in the order of the calls. -/
  calls : (s.published.flatMap Batch.items ++ (s.worker.items ++ s.pendingSyncs)).map
    PendingSync.call = List.range s.nextCall
  pending : ∀ p ∈ s.pendingSyncs, .enqueued p ∈ s.events
  flight : ∀ f, s.worker = .flushing f → f.Good s.events
  batches : ∀ b ∈ s.published, b.Good s.events
  last : ∀ b ∈ s.published.getLast?, s.lastStatus = b.status
  returned : ∀ p st, .returned p st ∈ s.events → ∃ b ∈ s.published, p ∈ b.items ∧ st = b.status ∧
    ∃ r ∈ b.results, r.1.key = p.key ∧
      [.enqueued p, .started r.1, .finished r.1 r.2, .returned p st].Sublist s.events

variable {s s' : Registry K}

theorem inv_init : Inv (init : Registry K) where
  calls := rfl
  pending p hp := by cases hp
  flight f hf := by cases hf
  batches b hb := by cases hb
  last b hb := by cases hb
  returned p st h := by cases h

/-- What was returned before an event stays returned. -/
theorem Inv.returned_later (h : s.Inv) {e : Event K} (he : ∀ p st, e ≠ .returned p st)
    {published : List (Batch K)} (hsub : ∀ b ∈ s.published, b ∈ published) (p : PendingSync K)
    (st : Status) (hmem : .returned p st ∈ s.events ++ [e]) :
    ∃ b ∈ published, p ∈ b.items ∧ st = b.status ∧ ∃ r ∈ b.results, r.1.key = p.key ∧
      [.enqueued p, .started r.1, .finished r.1 r.2, .returned p st].Sublist (s.events ++ [e]) := by
  rcases mem_append.mp hmem with hold | hnew
  · obtain ⟨b, hb, hp, hst, r, hr, hkey, hrun⟩ := h.returned p st hold
    exact ⟨b, hsub b hb, hp, hst, r, hr, hkey, hrun.trans (sublist_append_left _ _)⟩
  · exact absurd (mem_singleton.mp hnew).symm (he p st)

/-- The worker moves on without a batch. -/
theorem Inv.setWorker (h : s.Inv) (hs : s.worker.items = []) {w : Worker K}
    (hw : ∀ f, w ≠ .flushing f) : Inv { s with worker := w } := by
  have hitems : w.items = [] := by
    cases w with
    | flushing f => exact absurd rfl (hw f)
    | idle => rfl
    | waiting => rfl
    | done => rfl
  refine ⟨?_, h.pending, fun f hf => absurd hf (hw f), h.batches, h.last, h.returned⟩
  show (_ ++ (w.items ++ _)).map _ = _
  rw [hitems, ← hs]
  exact h.calls

variable [DecidableEq K]

/-- **One step keeps the invariant.** -/
theorem Inv.step (h : s.Inv) {a : Action K} (hC : s.wakesInTime a) (hstep : s.step a = some s') :
    s'.Inv := by
  cases a with
  | enqueue key =>
    cases hstep
    refine ⟨?_, ?_, fun f hf => (h.flight f hf).later _, fun b hb => (h.batches b hb).later _,
      h.last, h.returned_later (by simp) fun b hb => hb⟩
    · simp only [map_append, map_cons, map_nil, range_succ]
      rw [← h.calls]
      simp only [map_append, append_assoc]
    · intro p hp
      rcases mem_append.mp hp with hold | hnew
      · exact mem_append_left _ (h.pending p hold)
      · obtain rfl := mem_singleton.mp hnew
        exact mem_append_right _ (mem_singleton.mpr rfl)
  | wake p =>
    simp only [Registry.step] at hstep
    split at hstep
    · cases hstep
    · split_ifs at hstep
      cases hstep
      refine ⟨h.calls, fun p hp => mem_append_left _ (h.pending p hp),
        fun f hf => (h.flight f hf).later _, fun b hb => (h.batches b hb).later _, h.last, ?_⟩
      intro x st hmem
      rcases mem_append.mp hmem with hold | hnew
      · obtain ⟨b, hb, hx, hst, r, hr, hkey, hrun⟩ := h.returned x st hold
        exact ⟨b, hb, hx, hst, r, hr, hkey, hrun.trans (sublist_append_left _ _)⟩
      · -- the call returns with the status of its own batch
        cases mem_singleton.mp hnew
        obtain ⟨b, hlast, hp⟩ := hC
        have hb : b ∈ s.published := mem_of_getLast? hlast
        obtain ⟨r, hr, hkey⟩ := (h.batches b hb).covers p hp
        refine ⟨b, hb, hp, h.last b hlast, r, hr, hkey, ?_⟩
        exact ((h.batches b hb).flushed r hr p hp hkey).append
          (List.Sublist.refl [Event.returned p s.lastStatus])
  | enterLoop =>
    simp only [Registry.step] at hstep
    split_ifs at hstep with hidle hstop
    · cases hstep
      exact h.setWorker (by rw [hidle]; rfl) fun f hf => (by cases hf)
    · cases hstep
      exact h.setWorker (by rw [hidle]; rfl) fun f hf => (by cases hf)
  | swap order =>
    simp only [Registry.step] at hstep
    split_ifs at hstep with hready
    cases hstep
    obtain ⟨hwait, -, horder⟩ := hready
    have hitems : s.worker.items = [] := by rw [hwait]; rfl
    refine ⟨?_, fun p hp => (by cases hp), ?_, h.batches, h.last, h.returned⟩
    · have hcalls := h.calls
      rw [hitems, nil_append] at hcalls
      rw [← hcalls]
      simp [Worker.items]
    · rintro f hf
      cases hf
      exact Flight.good_swap h.pending horder
  | startFlush =>
    simp only [Registry.step] at hstep
    split at hstep
    · next items q todo results merged hw =>
      cases hstep
      refine ⟨?_, fun p hp => mem_append_left _ (h.pending p hp), ?_,
        fun b hb => (h.batches b hb).later _, h.last, h.returned_later (by simp) fun b hb => hb⟩
      · have hcalls := h.calls
        rw [hw] at hcalls
        exact hcalls
      · rintro f hf
        cases hf
        exact (h.flight _ hw).start
    · cases hstep
  | endFlush st =>
    simp only [Registry.step] at hstep
    split at hstep
    · next items q todo results merged hw =>
      cases hstep
      refine ⟨?_, fun p hp => mem_append_left _ (h.pending p hp), ?_,
        fun b hb => (h.batches b hb).later _, h.last, h.returned_later (by simp) fun b hb => hb⟩
      · have hcalls := h.calls
        rw [hw] at hcalls
        exact hcalls
      · rintro f hf
        cases hf
        exact (h.flight _ hw).finish st
    · cases hstep
  | publish =>
    simp only [Registry.step] at hstep
    split at hstep
    · next items results merged hw =>
      cases hstep
      refine ⟨?_, h.pending, fun f hf => (by cases hf), ?_, ?_, ?_⟩
      · have hcalls := h.calls
        rw [hw] at hcalls
        rw [← hcalls]
        simp [Worker.items]
      · intro b hb
        rcases mem_append.mp hb with hold | hnew
        · exact h.batches b hold
        · obtain rfl := mem_singleton.mp hnew
          exact (h.flight _ hw).batch
      · intro b hb
        simp only [getLast?_append, getLast?_singleton, some_or,
          mem_def, some.injEq] at hb
        rw [← hb]
      · intro p st hmem
        obtain ⟨b, hb, hrest⟩ := h.returned p st hmem
        exact ⟨b, mem_append_left _ hb, hrest⟩
    · cases hstep
  | exit =>
    simp only [Registry.step] at hstep
    split_ifs at hstep with hready
    cases hstep
    exact h.setWorker (by rw [hready.1]; rfl) fun f hf => (by cases hf)
  | stop =>
    cases hstep
    exact ⟨h.calls, h.pending, h.flight, h.batches, h.last, h.returned⟩

/-- A request is in one batch only. -/
theorem Inv.batch_unique (h : s.Inv) {p : PendingSync K} {b b' : Batch K} (hb : b ∈ s.published)
    (hb' : b' ∈ s.published) (hp : p ∈ b.items) (hp' : p ∈ b'.items) : b = b' := by
  have hnodup : (s.published.flatMap Batch.items).Nodup := by
    have hcalls : ((s.published.flatMap Batch.items).map PendingSync.call ++
        (s.worker.items ++ s.pendingSyncs).map PendingSync.call).Nodup := by
      rw [← map_append, h.calls]
      exact nodup_range
    exact List.Nodup.of_map _ (List.Nodup.of_append_left hcalls)
  by_contra hne
  have hdisjoint := (nodup_flatMap.mp hnodup).2
  have : Std.Symm (Function.onFun List.Disjoint (Batch.items (K := K))) :=
    ⟨fun _ _ hxy => List.Disjoint.symm hxy⟩
  exact hdisjoint.forall hb hb' hne hp hp'

end Registry

/-- **Group commit never acknowledges early**, in every run in which calls wake up in time.
If a call returns OK, a flush for its key was started after its request was made and had
returned OK before.  If the flush for its key in the batch of its request failed, the call
returns an error. -/
theorem queueSync_ok_after_flush [DecidableEq K] {acts : List (Action K)} {s : Registry K}
    (hC : (registry K).Meets Registry.wakesInTime (registry K).init acts)
    (hs : (registry K).run acts = some s) {p : PendingSync K} {st : Status}
    (hret : .returned p st ∈ s.events) :
    (st.code = .ok → ∃ q st', q.key = p.key ∧ st'.code = .ok ∧
      [.enqueued p, .started q, .finished q st', .returned p st].Sublist s.events) ∧
    (∀ b ∈ s.published, p ∈ b.items → ∀ r ∈ b.results, r.1.key = p.key → r.2.code ≠ .ok →
      st.code ≠ .ok) := by
  have hinv : s.Inv := Machine.inv_run_of_meets (I := Registry.Inv) Registry.inv_init
    (fun _ _ _ hI hmeets hstep => hI.step hmeets hstep) hC hs
  obtain ⟨b, hb, hp, rfl, r, hr, hkey, hrun⟩ := hinv.returned p st hret
  refine ⟨fun hok => ⟨r.1, r.2, hkey, ?_, hrun⟩, ?_⟩
  · by_contra hfail
    exact (hinv.batches b hb).merged r hr hfail hok
  · intro b' hb' hp' r' hr' _ hfail
    obtain rfl := hinv.batch_unique hb hb' hp hp'
    exact (hinv.batches b hb).merged r' hr' hfail

instance [DecidableEq K] (s : Registry K) (a : Action K) : Decidable (s.wakesInTime a) :=
  match a with
  | .wake p => inferInstanceAs (Decidable (∃ b ∈ s.published.getLast?, p ∈ b.items))
  | .enqueue _ | .enterLoop | .swap _ | .startFlush | .endFlush _ | .publish | .exit | .stop =>
    isTrue trivial

/-- The worker takes the requests and is in the flush of key `0`. -/
def flushBegins (order : List (PendingSync ℕ)) : List (Action ℕ) :=
  [.enterLoop, .swap order, .startFlush]

/-- Two calls with one key and one with another are flushed together. -/
def threeTogether : List (Action ℕ) :=
  [.enqueue 0, .enqueue 1, .enqueue 0] ++ flushBegins [⟨0, 2⟩, ⟨1, 1⟩] ++
    [.endFlush .ok, .startFlush, .endFlush .ok, .publish, .wake ⟨0, 0⟩]

theorem queueSync_ok_after_flush_threeTogether :
    ∃ s, (registry ℕ).run threeTogether = some s ∧ .returned ⟨0, 0⟩ .ok ∈ s.events ∧
      ∃ q st', q.key = 0 ∧ st'.code = .ok ∧
        [.enqueued ⟨0, 0⟩, .started q, .finished q st', .returned ⟨0, 0⟩ .ok].Sublist s.events := by
  obtain ⟨s, hs, hret⟩ : ∃ s, (registry ℕ).run threeTogether = some s ∧
      .returned ⟨0, 0⟩ .ok ∈ s.events := by decide +kernel
  exact ⟨s, hs, hret, (queueSync_ok_after_flush (by decide +kernel) hs hret).1 rfl⟩

/-- A call that comes while a batch is flushed returns with that batch, before any flush for
it has begun.  A call that wakes up late returns OK although its flush has failed. -/
theorem queueSync_ok_too_early :
    (∃ s, (registry ℕ).run ([.enqueue 0] ++ flushBegins [⟨0, 0⟩] ++
        [.enqueue 0, .endFlush .ok, .publish, .wake ⟨0, 1⟩]) = some s ∧
      .returned ⟨0, 1⟩ .ok ∈ s.events ∧
      ¬ ∃ q st', q.key = 0 ∧ st'.code = .ok ∧
        [.enqueued ⟨0, 1⟩, .started q, .finished q st', .returned ⟨0, 1⟩ .ok].Sublist s.events) ∧
    (∃ s, (registry ℕ).run ([.enqueue 0] ++ flushBegins [⟨0, 0⟩] ++
        [.endFlush ⟨.ioError, "fsync failed"⟩, .publish, .enqueue 0] ++ flushBegins [⟨0, 1⟩] ++
        [.endFlush .ok, .publish, .wake ⟨0, 0⟩]) = some s ∧
      .returned ⟨0, 0⟩ .ok ∈ s.events ∧
      ∃ b ∈ s.published, ⟨0, 0⟩ ∈ b.items ∧
        ∃ r ∈ b.results, r.1.key = 0 ∧ r.2.code ≠ .ok) := by
  constructor
  · refine ⟨_, rfl, by decide +kernel, ?_⟩
    rintro ⟨q, st', -, -, hsub⟩
    -- the only flush was begun before the request
    have hpair := (hsub.filter fun
      | .enqueued p => p.call == 1
      | .started _ => true
      | _ => false).eq_of_length rfl
    cases head_eq_of_cons_eq hpair
  · exact ⟨_, rfl, by decide +kernel, by decide +kernel⟩

end GroupCommit

end TransDb.Txn
