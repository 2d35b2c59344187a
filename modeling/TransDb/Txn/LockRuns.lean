import TransDb.Core.Machine
import TransDb.Txn.LockManager
import Mathlib.Tactic.SplitIfs

/-!
# Threads at the lock manager

Any number of threads call `Acquire`, `Release` and `ReleaseAll`.  A call acts where it has the
mutex: an `Acquire` enters, and is granted the lock at once or queues; a queued one wakes up and
finds the lock its own, or runs out of time; a `ReleaseAll` takes over its list, and later
releases what was in it.  (That second half is one critical section.  Here it is taken apart into
its turns, in any order, so that other threads may even act in between.)

* `LockThreads`, `lockThreads` — the threads, with a history of acquisitions and queues.
* `LockEntry.Counted`, `LocksOk.step` — the invariant, and that a step keeps it.
* `lock_counts_exact`, `waiters_served_in_order` — locks are counted, not orphaned, and handed
  over in the order of the queue.
-/

namespace TransDb.Txn

open Function

/-! ## The threads -/

/-- What happens in the queue of a lock: a transaction joins it, leaves it when its time is
up, or is served. -/
inductive LineEvent where
  | joined (txnId : ℕ)
  | left (txnId : ℕ)
  | served (txnId : ℕ)
  deriving DecidableEq

/-- **First come, first served**: who joins stands at the end, who leaves is skipped, and only
the first one is served. -/
def serveInOrder : List ℕ → LineEvent → Option (List ℕ)
  | line, .joined t => some (line ++ [t])
  | line, .left t => if t ∈ line then some (line.erase t) else none
  | [], .served _ => none
  | first :: line, .served t => if first = t then some line else none

/-- If there is a queue and the lock has a new owner, somebody was served. -/
def LockEntry.pass (e e' : LockEntry) (line : List LineEvent) : List LineEvent :=
  if e.waitQueue ≠ [] ∧ e'.owner ≠ e.owner then line ++ [.served e'.owner] else line

/-- `Release` up to its `ReleaseInternal`: the lock is taken off the list, if there is something
to release. -/
def LockManager.release (m : LockManager) (lk : Bytes) (txnId : ℕ) : Option LockManager :=
  if (m.locks lk).isSome ∧ m.owner lk = txnId ∧ lk ∈ m.txnLocks txnId then
    some { m with txnLocks := update m.txnLocks txnId ((m.txnLocks txnId).erase lk) }
  else none

/-- Numbers for each lock and transaction. -/
abbrev LockCounts := Bytes → ℕ → ℕ

/-- One number is changed. -/
def LockCounts.set (f : LockCounts) (lk : Bytes) (t n : ℕ) : LockCounts :=
  update f lk (update (f lk) t n)

theorem LockCounts.set_apply (f : LockCounts) (lk lk' : Bytes) (t t' n : ℕ) :
    f.set lk t n lk' t' = if lk' = lk ∧ t' = t then n else f lk' t' := by
  unfold LockCounts.set
  by_cases hlk : lk' = lk
  · subst hlk
    simp [update_apply]
  · simp [hlk]

/-- The lock manager, and the calls of all threads. -/
structure LockThreads where
  mgr : LockManager
  /-- The calls of `Acquire` that wait. -/
  waiting : LockCounts
  /-- The releases that calls of `ReleaseAll` have still to make. -/
  releasing : LockCounts
  /-- The acquisitions that are not released yet. -/
  held : LockCounts
  /-- `ReleaseAll` was called after the last `OK`. -/
  done : ℕ → Bool
  line : Bytes → List LineEvent

/-- What a thread does next. -/
inductive LockAction where
  | acquire (lk : Bytes) (txnId : ℕ)
  /-- A waiting `Acquire` wakes up and has the lock. -/
  | wake (lk : Bytes) (txnId : ℕ)
  | timeout (lk : Bytes) (txnId : ℕ)
  | release (lk : Bytes) (txnId : ℕ)
  | releaseAll (txnId : ℕ)
  /-- A turn of the loop of `ReleaseAll`. -/
  | releaseNext (lk : Bytes) (txnId : ℕ)

/-- The transaction that acts. -/
def LockAction.txnId : LockAction → ℕ
  | .acquire _ t | .wake _ t | .timeout _ t | .release _ t | .releaseAll t | .releaseNext _ t => t

namespace LockThreads

/-- Nobody has called yet. -/
def init : LockThreads :=
  ⟨.empty, fun _ _ => 0, fun _ _ => 0, fun _ _ => 0, fun _ => true, fun _ => []⟩

/-- `Acquire` returns `OK`. -/
def granted (s : LockThreads) (lk : Bytes) (t : ℕ) (m : LockManager) : LockThreads :=
  { s with
    mgr := m
    held := s.held.set lk t (s.held lk t + 1)
    done := update s.done t false }

/-- A call waits no more. -/
def unwait (s : LockThreads) (lk : Bytes) (t : ℕ) : LockThreads :=
  { s with waiting := s.waiting.set lk t (s.waiting lk t - 1) }

/-- `ReleaseInternal`. -/
def releases (s : LockThreads) (lk : Bytes) (t : ℕ) : LockThreads :=
  let m := s.mgr.releaseInternal lk
  { s with
    mgr := m
    held := s.held.set lk t (s.held lk t - 1)
    line := update s.line lk ((s.mgr.entry lk).pass (m.entry lk) (s.line lk)) }

/-- One turn of a thread. -/
def step (s : LockThreads) : LockAction → Option LockThreads
  | .acquire lk t =>
    let r := s.mgr.acquire lk t
    if r.2 then some (s.granted lk t r.1)
    else some { s with
      mgr := r.1
      waiting := s.waiting.set lk t (s.waiting lk t + 1)
      line := update s.line lk (s.line lk ++ [.joined t]) }
  | .wake lk t =>
    if s.waiting lk t = 0 then none
    else (s.mgr.wake lk t).map ((s.unwait lk t).granted lk t)
  | .timeout lk t =>
    if s.waiting lk t = 0 then none
    else
      let r := s.mgr.timeout lk t
      if r.2 then some ((s.unwait lk t).granted lk t r.1)
      else some { s.unwait lk t with
        mgr := r.1
        line := update s.line lk (s.line lk ++ [.left t]) }
  | .release lk t =>
    match s.mgr.release lk t with
    | some m => some ({ s with mgr := m }.releases lk t)
    | none => some s
  | .releaseAll t =>
    let r := s.mgr.takeAll t
    some { s with
      mgr := r.1
      releasing := fun lk => update (s.releasing lk) t (s.releasing lk t + r.2.count lk)
      done := update s.done t true }
  | .releaseNext lk t =>
    if s.releasing lk t = 0 then none
    else
      let s' := { s with releasing := s.releasing.set lk t (s.releasing lk t - 1) }
      if s.mgr.owner lk ≠ t then some s' else some (s'.releases lk t)

/-- The transaction has an id, and does not ask for a lock that one of its calls waits for. -/
def careful (s : LockThreads) (a : LockAction) : Prop :=
  a.txnId ≠ 0 ∧ ∀ lk t, a = .acquire lk t → s.waiting lk t = 0

/-- The transaction has an id, and makes only one call of `Acquire` at a time. -/
def oneAcquire (s : LockThreads) (a : LockAction) : Prop :=
  a.txnId ≠ 0 ∧ ∀ lk t, a = .acquire lk t → ∀ lk', s.waiting lk' t = 0

end LockThreads

/-- The machine of the threads that call one lock manager. -/
def lockThreads : Machine LockThreads LockAction := ⟨.init, LockThreads.step⟩

/-! ## One lock -/

namespace LockEntry

/-- **The invariant of a lock**: how often each transaction holds it, how many of its calls
wait for it, and what has happened in its queue. -/
structure Counted (e : LockEntry) (held waiting : ℕ → ℕ) (line : List LineEvent) : Prop where
  zero : 0 ∉ e.waitQueue
  free : e.owner = 0 → e.waitQueue = []
  pos : e.owner ≠ 0 → 0 < e.holdCount
  owner : e.owner ≠ 0 → e.holdCount = held e.owner + waiting e.owner
  fresh : e.owner ∉ e.waitQueue
  others : ∀ t, t ≠ 0 → t ≠ e.owner → held t = 0 ∧ e.waitQueue.count t = waiting t
  one : ∀ t, waiting t ≤ 1
  inOrder : line.foldlM serveInOrder [] = some e.waitQueue

variable {e : LockEntry} {held waiting : ℕ → ℕ} {line : List LineEvent} {t : ℕ}

/-- A call waits no more. -/
theorem Counted.one_unwait (h : e.Counted held waiting line) (t' : ℕ) :
    update waiting t (waiting t - 1) t' ≤ 1 := by
  rw [update_apply]
  have := h.one t
  have := h.one t'
  split_ifs <;> omega

/-- The numbers of the owner change, and all else stays. -/
theorem Counted.recount (h : e.Counted held waiting line) {held' waiting' : ℕ → ℕ} {n : ℕ}
    (hown : e.owner = t) (hpos : 0 < n) (hn : n = held' t + waiting' t) (hone : waiting' t ≤ 1)
    (hrest : ∀ t', t' ≠ t → held' t' = held t' ∧ waiting' t' = waiting t') :
    Counted { e with holdCount := n } held' waiting' line := by
  subst hown
  exact {
    zero := h.zero
    free := h.free
    pos := fun _ => hpos
    owner := fun _ => hn
    fresh := h.fresh
    others := fun t' ht' hne => by
      rw [(hrest t' hne).1, (hrest t' hne).2]
      exact h.others t' ht' hne
    one := fun t' => by
      by_cases hne : t' = e.owner
      · exact hne ▸ hone
      · exact (hrest t' hne).2 ▸ h.one t'
    inOrder := h.inOrder }

theorem inOrder_concat {q q' : List ℕ} (h : line.foldlM serveInOrder [] = some q) {v : LineEvent}
    (hv : serveInOrder q v = some q') : (line ++ [v]).foldlM serveInOrder [] = some q' := by
  simp [List.foldlM_append, h, hv]

variable (h : e.Counted held waiting line) (ht : t ≠ 0)
include h ht

theorem Counted.held_owner (hheld : 0 < held t) : e.owner = t := by
  by_contra hne
  have := h.others t ht (Ne.symm hne)
  omega

theorem Counted.granted (hw : waiting t = 0) (hown : e.owner = 0 ∨ e.owner = t) :
    (e.acquired t).Counted (update held t (held t + 1)) waiting line := by
  by_cases hmine : e.owner = t
  · have howner := h.owner (hmine ▸ ht)
    rw [acquired, if_pos hmine]
    refine h.recount hmine (Nat.succ_pos _) ?_ (h.one t) fun t' hne => ⟨update_of_ne hne .., rfl⟩
    rw [update_self, howner, hmine, Nat.add_right_comm]
  · -- a free lock has no queue, and nobody holds it
    have hfree : e.owner = 0 := hown.resolve_right hmine
    have hheld : held t = 0 := (h.others t ht (Ne.symm hmine)).1
    rw [acquired, if_neg hmine, if_pos hfree]
    exact {
      zero := h.zero
      free := fun h0 => absurd h0 ht
      pos := fun _ => Nat.one_pos
      owner := fun _ => by rw [update_self, hheld, hw]
      fresh := by simp [h.free hfree]
      others := fun t' ht' hne => by
        rw [update_of_ne hne]
        exact h.others t' ht' (hfree ▸ ht')
      one := h.one
      inOrder := h.inOrder }

theorem Counted.queued (hw : waiting t = 0) (hown : ¬ (e.owner = 0 ∨ e.owner = t)) :
    (e.acquired t).Counted held (update waiting t (waiting t + 1)) (line ++ [.joined t]) := by
  obtain ⟨hused, hmine⟩ := not_or.mp hown
  have hcount : e.waitQueue.count t = 0 := (h.others t ht (Ne.symm hmine)).2.trans hw
  rw [acquired, if_neg hmine, if_neg hused]
  exact {
    zero := by simp [h.zero, Ne.symm ht]
    free := fun h0 => absurd h0 hused
    pos := h.pos
    owner := fun hne => by rw [update_of_ne hmine]; exact h.owner hne
    fresh := by simp [h.fresh, hmine]
    others := fun t' ht' hne => by
      refine ⟨(h.others t' ht' hne).1, ?_⟩
      rw [List.count_append, (h.others t' ht' hne).2]
      by_cases htt : t' = t
      · subst htt
        simp
      · simp [htt, Ne.symm htt]
    one := fun t' => by
      by_cases htt : t' = t
      · subst htt
        simp [hw]
      · rw [update_of_ne htt]
        exact h.one t'
    inOrder := inOrder_concat h.inOrder rfl }

theorem Counted.woken (hw : waiting t ≠ 0) (hown : e.owner = t) :
    e.Counted (update held t (held t + 1)) (update waiting t (waiting t - 1)) line := by
  subst hown
  refine h.recount rfl (h.pos ht) ?_ (h.one_unwait _)
    fun t' hne => ⟨update_of_ne hne .., update_of_ne hne ..⟩
  -- one call less waits, and its acquisition is held
  rw [update_self, update_self, h.owner ht]
  omega

theorem Counted.gaveUp (hw : waiting t ≠ 0) (hown : e.owner ≠ t) :
    Counted { e with waitQueue := e.waitQueue.erase t } held (update waiting t (waiting t - 1))
      (line ++ [.left t]) := by
  have hcount : e.waitQueue.count t = waiting t := (h.others t ht (Ne.symm hown)).2
  have hmem : t ∈ e.waitQueue := List.count_pos_iff.mp (by omega)
  exact {
    zero := fun h0 => h.zero (List.mem_of_mem_erase h0)
    free := fun h0 => by simp [h.free h0]
    pos := h.pos
    owner := fun hne => by rw [update_of_ne hown]; exact h.owner hne
    fresh := fun hmem => h.fresh (List.mem_of_mem_erase hmem)
    others := fun t' ht' hne => by
      refine ⟨(h.others t' ht' hne).1, ?_⟩
      by_cases htt : t' = t
      · subst htt
        rw [List.count_erase_self, update_self, hcount]
      · rw [List.count_erase_of_ne htt, update_of_ne htt]
        exact (h.others t' ht' hne).2
    one := h.one_unwait
    inOrder := inOrder_concat h.inOrder (if_pos hmem) }

/-- The first in the queue becomes the owner. -/
theorem Counted.passed {rest : List ℕ} (hq : e.waitQueue = t :: rest)
    (hlast : held e.owner + waiting e.owner = 1) (hheld : 0 < held e.owner) :
    Counted ⟨t, 1, rest⟩ (update held e.owner (held e.owner - 1)) waiting
      (line ++ [.served t]) := by
  have hne : t ≠ e.owner := fun heq => h.fresh (by simp [hq, ← heq])
  obtain ⟨hnone, hcount⟩ := h.others t ht hne
  rw [hq, List.count_cons_self] at hcount
  -- the first one waits with one call, so it stands in the queue once
  have hone := h.one t
  have hrest : rest.count t = 0 := by omega
  exact {
    zero := fun h0 => h.zero (hq ▸ List.mem_cons_of_mem t h0)
    free := fun h0 => absurd h0 ht
    pos := fun _ => Nat.one_pos
    owner := fun _ => by
      rw [update_of_ne hne, hnone]
      show 1 = 0 + waiting t
      omega
    fresh := List.count_eq_zero.mp hrest
    others := fun t' ht' hne' => by
      by_cases hold : t' = e.owner
      · have hfresh := h.fresh
        rw [hq, List.mem_cons, not_or] at hfresh
        rw [hold, update_self, List.count_eq_zero.mpr hfresh.2]
        omega
      · have hothers := h.others t' ht' hold
        rw [hq, List.count_cons_of_ne (Ne.symm hne')] at hothers
        rw [update_of_ne hold]
        exact hothers
    one := h.one
    inOrder := inOrder_concat h.inOrder (by rw [hq]; exact if_pos rfl) }

theorem Counted.released (hheld : 0 < held t) :
    e.released.Counted (update held t (held t - 1)) waiting (e.pass e.released line) := by
  obtain rfl := h.held_owner ht hheld
  have howner := h.owner ht
  have hne : e.holdCount ≠ 0 := (h.pos ht).ne'
  by_cases hmore : 0 < e.holdCount - 1
  · rw [LockEntry.released, if_neg hne, if_pos hmore, pass, if_neg (by simp)]
    refine h.recount rfl hmore ?_ (h.one _) fun t' hne => ⟨update_of_ne hne .., rfl⟩
    rw [update_self]
    omega
  · have hlast : held e.owner + waiting e.owner = 1 := by omega
    rw [LockEntry.released, if_neg hne, if_neg hmore]
    cases hq : e.waitQueue with
    | nil =>
      rw [pass, if_neg (by simp [hq])]
      exact {
        zero := List.not_mem_nil
        free := fun _ => rfl
        pos := fun h0 => absurd rfl h0
        owner := fun h0 => absurd rfl h0
        fresh := List.not_mem_nil
        others := fun t' ht' _ => by
          by_cases hold : t' = e.owner
          · rw [hold, update_self, List.count_nil]
            omega
          · have hothers := h.others t' ht' hold
            rw [hq] at hothers
            rw [update_of_ne hold]
            exact hothers
        one := h.one
        inOrder := h.inOrder.trans (congrArg some hq) }
    | cons next rest =>
      have hnext : next ∈ e.waitQueue := by simp [hq]
      have hnew : next ≠ e.owner := fun heq => h.fresh (heq ▸ hnext)
      rw [pass, if_pos ⟨List.ne_nil_of_mem hnext, hnew⟩]
      exact h.passed (fun h0 => h.zero (h0 ▸ hnext)) hq hlast hheld

end LockEntry

/-! ## The invariant -/

/-- All locks are counted, and what is held is in a list. -/
structure LocksOk (s : LockThreads) : Prop where
  counted : ∀ lk, (s.mgr.entry lk).Counted (s.held lk) (s.waiting lk) (s.line lk)
  listed : ∀ lk t, s.held lk t = (s.mgr.txnLocks t).count lk + s.releasing lk t
  bare : ∀ t, s.done t = true → s.mgr.txnLocks t = []

theorem LocksOk.init : LocksOk .init where
  counted _ := by
    constructor <;> simp [LockThreads.init, LockManager.entry, LockManager.empty]
  listed _ _ := rfl
  bare _ _ := rfl

section

variable {s s' : LockThreads} {a : LockAction} {m : LockManager} {lk : Bytes} {t : ℕ}

/-- Something happens to one lock. -/
theorem counted_update (lk : Bytes)
    (h : ∀ lk, (s.mgr.entry lk).Counted (s.held lk) (s.waiting lk) (s.line lk))
    {e : LockEntry} {held waiting : ℕ → ℕ} {line : List LineEvent}
    (he : e.Counted held waiting line) (lk' : Bytes) :
    (update s.mgr.entry lk e lk').Counted (update s.held lk held lk')
      (update s.waiting lk waiting lk') (update s.line lk line lk') := by
  by_cases hlk : lk' = lk
  · subst hlk
    simpa using he
  · simpa [hlk] using h lk'

/-- `Acquire` notes the lock and returns `OK`. -/
theorem LocksOk.granted (hm : m.txnLocks = (s.mgr.hold t lk).txnLocks)
    (hcounted : ∀ lk', (m.entry lk').Counted (s.held.set lk t (s.held lk t + 1) lk')
      (s.waiting lk') (s.line lk'))
    (hlisted : ∀ lk t, s.held lk t = (s.mgr.txnLocks t).count lk + s.releasing lk t)
    (hbare : ∀ t, s.done t = true → s.mgr.txnLocks t = []) : LocksOk (s.granted lk t m) := by
  refine ⟨hcounted, fun lk' t' => ?_, fun t' => ?_⟩
  · simp only [LockThreads.granted, hm, LockManager.hold, LockCounts.set_apply]
    grind
  · simp only [LockThreads.granted, hm, LockManager.hold]
    grind

theorem LocksOk.woken (h : LocksOk s) (ht : t ≠ 0) (hw : s.waiting lk t ≠ 0)
    (hm : s.mgr.wake lk t = some m) : LocksOk ((s.unwait lk t).granted lk t m) := by
  unfold LockManager.wake at hm
  obtain ⟨⟨hown, -⟩, hm⟩ := Option.ite_none_right_eq_some.mp hm
  cases hm
  refine LocksOk.granted rfl ?_ h.listed h.bare
  have hcounted := counted_update lk h.counted ((h.counted lk).woken ht hw hown)
  simp only [update_eq_self] at hcounted
  exact hcounted

/-- Who does not find the lock at the end of the time does not own it. -/
theorem LocksOk.not_owner (h : LocksOk s) (ht : t ≠ 0) (hgone : ¬ (s.mgr.timeout lk t).2 = true) :
    (s.mgr.entry lk).owner ≠ t := by
  rintro rfl
  exact (LockManager.timeout_of_not hgone).1 ⟨rfl, (h.counted lk).pos ht⟩

/-- `ReleaseInternal`, with the lock off the lists. -/
theorem LocksOk.releases (ht : t ≠ 0) (hheld : 0 < s.held lk t)
    (hcounted : ∀ lk, (s.mgr.entry lk).Counted (s.held lk) (s.waiting lk) (s.line lk))
    (hlisted : ∀ lk' t', s.held.set lk t (s.held lk t - 1) lk' t' =
      (s.mgr.txnLocks t').count lk' + s.releasing lk' t')
    (hbare : ∀ t, s.done t = true → s.mgr.txnLocks t = []) : LocksOk (s.releases lk t) := by
  have hlocks := s.mgr.txnLocks_releaseInternal lk
  refine ⟨?_, fun lk' t' => ?_, fun t' => ?_⟩
  · have hrest := counted_update lk hcounted ((hcounted lk).released ht hheld)
    simp only [update_eq_self] at hrest
    simp only [LockThreads.releases, LockManager.entry_releaseInternal, update_self]
    exact hrest
  · simp only [LockThreads.releases, hlocks]
    exact hlisted lk' t'
  · simp only [LockThreads.releases, hlocks]
    exact hbare t'

/-- **A careful step keeps the counts.** -/
theorem LocksOk.step (h : LocksOk s) (hC : s.careful a) (hs : s.step a = some s') : LocksOk s' := by
  obtain ⟨ht, hnew⟩ := hC
  cases a with
  | acquire lk t =>
    have ht : t ≠ 0 := ht
    have hw := hnew lk t rfl
    have hlocks := s.mgr.txnLocks_acquire lk t
    simp only [LockThreads.step] at hs
    split_ifs at hs with hgot
    · cases hs
      refine LocksOk.granted (by rw [hlocks, if_pos hgot]) ?_ h.listed h.bare
      have hcounted := counted_update lk h.counted
        ((h.counted lk).granted ht hw (s.mgr.acquire_iff.mp hgot))
      simp only [update_eq_self] at hcounted
      rw [LockManager.entry_acquire]
      exact hcounted
    · cases hs
      rw [if_neg hgot] at hlocks
      have hcounted := counted_update lk h.counted
        ((h.counted lk).queued ht hw (mt s.mgr.acquire_iff.mpr hgot))
      simp only [update_eq_self] at hcounted
      refine ⟨?_, ?_, ?_⟩
      · rw [LockManager.entry_acquire]
        exact hcounted
      · simp only [hlocks]
        exact h.listed
      · simp only [hlocks]
        exact h.bare
  | wake lk t =>
    simp only [LockThreads.step] at hs
    split_ifs at hs with hw
    obtain ⟨m, hm, rfl⟩ := Option.map_eq_some_iff.mp hs
    exact h.woken ht hw hm
  | timeout lk t =>
    simp only [LockThreads.step] at hs
    split_ifs at hs with hw hgot
    · cases hs
      exact h.woken ht hw (LockManager.wake_of_timeout hgot)
    · cases hs
      have hcounted := counted_update lk h.counted
        ((h.counted lk).gaveUp ht hw (h.not_owner ht hgot))
      simp only [update_eq_self] at hcounted
      rw [(LockManager.timeout_of_not hgot).2]
      refine ⟨?_, h.listed, h.bare⟩
      rw [LockManager.entry_setEntry]
      exact hcounted
  | release lk t =>
    simp only [LockThreads.step] at hs
    cases hm : s.mgr.release lk t with
    | none =>
      rw [hm] at hs
      cases hs
      exact h
    | some m =>
      rw [hm] at hs
      cases hs
      obtain ⟨⟨-, -, hmem⟩, hm⟩ := Option.ite_none_right_eq_some.mp hm
      cases hm
      have hpos := List.count_pos_iff.mpr hmem
      have hheld := h.listed lk t
      refine LocksOk.releases ht (by show 0 < s.held lk t; omega) h.counted (fun lk' t' => ?_) (fun t' => ?_)
      · have hold := h.listed lk' t'
        simp only [LockCounts.set_apply]
        grind
      · have hold := h.bare t'
        grind
  | releaseAll t =>
    cases hs
    refine ⟨h.counted, fun lk t' => ?_, fun t' => ?_⟩
    · have hold := h.listed lk t'
      simp only [LockManager.takeAll]
      grind
    · have hold := h.bare t'
      simp only [LockManager.takeAll]
      grind
  | releaseNext lk t =>
    simp only [LockThreads.step] at hs
    split_ifs at hs with hpending hown
    all_goals
      have hheld : 0 < s.held lk t := by
        have hlisted := h.listed lk t
        omega
    · -- what is held is one's own
      exact absurd ((h.counted lk).held_owner ht hheld) hown
    · cases hs
      refine LocksOk.releases ht hheld h.counted (fun lk' t' => ?_) h.bare
      have hold := h.listed lk' t'
      simp only [LockCounts.set_apply]
      grind

end

/-! ## Counts -/

/-- **Locks are counted and not orphaned**, if no transaction asks for a lock that one of its
calls waits for.  The waiting calls of the owner are those that were granted the lock and have
not woken up yet. -/
theorem lock_counts_exact {as : List LockAction} {s : LockThreads}
    (hrun : lockThreads.run as = some s)
    (hC : lockThreads.Meets LockThreads.careful lockThreads.init as) (lk : Bytes) :
    (s.mgr.owner lk ≠ 0 → s.mgr.owner lk ∉ (s.mgr.entry lk).waitQueue ∧
      (s.mgr.entry lk).holdCount =
        s.held lk (s.mgr.owner lk) + s.waiting lk (s.mgr.owner lk)) ∧
    ∀ t, t ≠ 0 → s.done t = true → s.waiting lk t = 0 → s.releasing lk t = 0 →
      s.mgr.owner lk ≠ t := by
  have hok : LocksOk s := Machine.inv_run_of_meets LocksOk.init (fun _ _ _ => LocksOk.step) hC hrun
  have hcounted := hok.counted lk
  refine ⟨fun hown => ⟨hcounted.fresh, hcounted.owner hown⟩, ?_⟩
  rintro _ ht hdone hwaiting hreleasing rfl
  have hheld := hok.listed lk (s.mgr.owner lk)
  rw [hok.bare _ hdone, hreleasing, List.count_nil] at hheld
  have hcount := hcounted.owner ht
  have hpos := hcounted.pos ht
  simp only [LockManager.owner] at hheld hwaiting
  omega

/-- Two threads take turns. -/
theorem lock_counts_exact_turns :
    ∃ s, lockThreads.run [.acquire [1] 1, .acquire [1] 2, .releaseAll 1, .releaseNext [1] 1] =
        some s ∧ s.mgr.owner [1] ∉ (s.mgr.entry [1]).waitQueue ∧
      (s.mgr.entry [1]).holdCount = s.held [1] 2 + s.waiting [1] 2 ∧ s.mgr.owner [1] ≠ 1 := by
  have hC : lockThreads.Meets LockThreads.careful lockThreads.init [.acquire [1] 1,
      .acquire [1] 2, .releaseAll 1, .releaseNext [1] 1] := by
    simp only [Machine.Meets, LockThreads.careful, LockAction.txnId]
    simp
    exact ⟨rfl, fun t ht => by cases ht; rfl⟩
  obtain ⟨hcount, hfree⟩ := lock_counts_exact rfl hC [1]
  obtain ⟨hqueue, hcount⟩ := hcount (by decide)
  exact ⟨_, rfl, hqueue, hcount, hfree 1 (by decide) rfl rfl rfl⟩

/-- **An orphaned lock.**  Two calls of transaction 2 wait for one lock, and one hand-over lets
both return `OK`.  `ReleaseAll` releases the lock once; the second place in the queue is still
there, and transaction 2 becomes the owner after it has ended. -/
theorem lock_orphaned :
    ∃ s, lockThreads.run [.acquire [1] 1, .acquire [1] 2, .acquire [1] 3, .acquire [1] 2,
        .releaseAll 1, .releaseNext [1] 1, .wake [1] 2, .wake [1] 2, .releaseAll 2,
        .releaseNext [1] 2, .releaseNext [1] 2, .wake [1] 3, .releaseAll 3,
        .releaseNext [1] 3] = some s ∧
      s.done 2 = true ∧ s.waiting [1] 2 = 0 ∧ s.releasing [1] 2 = 0 ∧ s.mgr.owner [1] = 2 :=
  ⟨_, rfl, rfl, rfl, rfl, rfl⟩

/-! ## First come, first served -/

/-- **Waiters are not stranded and are served in order**, if every transaction makes one call of
`Acquire` at a time. -/
theorem waiters_served_in_order {as : List LockAction} {s : LockThreads}
    (hrun : lockThreads.run as = some s)
    (hC : lockThreads.Meets LockThreads.oneAcquire lockThreads.init as) (lk : Bytes) :
    ((s.mgr.entry lk).waitQueue ≠ [] →
      (s.mgr.entry lk).owner ≠ 0 ∧ 0 < (s.mgr.entry lk).holdCount) ∧
    (s.line lk).foldlM serveInOrder [] = some (s.mgr.entry lk).waitQueue ∧
    (∀ t s', t ≠ 0 → s.step (.timeout lk t) = some s' → (s.mgr.timeout lk t).2 = false →
      (s'.mgr.entry lk).owner ≠ t ∧ t ∉ (s'.mgr.entry lk).waitQueue) ∧
    ∀ t, t ≠ 0 → 0 < s.held lk t → (s.mgr.entry lk).owner = t := by
  have hstep : ∀ s a s', LocksOk s → s.oneAcquire a → s.step a = some s' → LocksOk s' :=
    fun _ _ _ h hC => h.step ⟨hC.1, fun lk t ha => hC.2 lk t ha lk⟩
  have hok : LocksOk s := Machine.inv_run_of_meets LocksOk.init hstep hC hrun
  have hcounted := hok.counted lk
  refine ⟨?_, hcounted.inOrder, ?_, fun t ht => hcounted.held_owner ht⟩
  · intro hqueue
    have hown : (s.mgr.entry lk).owner ≠ 0 := mt hcounted.free hqueue
    exact ⟨hown, hcounted.pos hown⟩
  · intro t s' ht hs hgone
    have hgone : ¬ (s.mgr.timeout lk t).2 = true := by simp [hgone]
    have hown := hok.not_owner ht hgone
    simp only [LockThreads.step, if_neg hgone] at hs
    split_ifs at hs with hw
    cases hs
    have hentry : (s.mgr.timeout lk t).1.entry lk =
        { s.mgr.entry lk with waitQueue := (s.mgr.entry lk).waitQueue.erase t } := by
      rw [(LockManager.timeout_of_not hgone).2, LockManager.entry_setEntry, update_self]
    rw [hentry]
    refine ⟨hown, List.count_eq_zero.mp ?_⟩
    have hcount := (hcounted.others t ht (Ne.symm hown)).2
    have hone := hcounted.one t
    rw [List.count_erase_self]
    omega

/-- Of two that queue the first one runs out of time, and the lock goes to the second. -/
theorem waiters_served_in_order_timeout :
    ∃ s, lockThreads.run [.acquire [1] 1, .acquire [1] 2, .acquire [1] 3, .timeout [1] 2,
        .releaseAll 1, .releaseNext [1] 1, .wake [1] 3] = some s ∧
      s.line [1] = [.joined 2, .joined 3, .left 2, .served 3] ∧
      (s.line [1]).foldlM serveInOrder [] = some (s.mgr.entry [1]).waitQueue ∧
      (s.mgr.entry [1]).owner = 3 := by
  have hC : lockThreads.Meets LockThreads.oneAcquire lockThreads.init [.acquire [1] 1,
      .acquire [1] 2, .acquire [1] 3, .timeout [1] 2, .releaseAll 1, .releaseNext [1] 1,
      .wake [1] 3] := by
    simp only [Machine.Meets, LockThreads.oneAcquire, LockAction.txnId]
    simp
    refine ⟨fun _ => rfl, fun t ht => ?_⟩
    cases ht
    refine ⟨fun _ => rfl, fun t ht lk => ?_⟩
    cases ht
    exact (LockCounts.set_apply ..).trans (if_neg (by simp))
  obtain ⟨-, hline, -, hheld⟩ := waiters_served_in_order rfl hC [1]
  exact ⟨_, rfl, rfl, hline, hheld 3 (by decide) (by decide)⟩

end TransDb.Txn
