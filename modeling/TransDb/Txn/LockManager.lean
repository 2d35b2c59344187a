import TransDb.Storage.MvccStore

/-!
# The lock manager

The model of `src/txn/lock_manager.cpp`: exclusive locks on rows, counted per owner,
with a queue of waiting transactions.  An `Acquire` that has to wait is cut where it
waits: `acquire` enters the queue, `wake` is a look at the lock after a wake-up, and
`timeout` gives up.  `ReleaseAll` locks its mutex twice, so it is two functions.

* `LockManager.owner` — who holds a lock; `0` is nobody.
* `entry_acquire`, `entry_releaseInternal` — what the operations do to an entry.
* `owner_acquire`, `owner_releaseKeys`, … — what they do to the owners.
-/

namespace TransDb.Txn

open Function Storage

/-- The key of a lock: the table and the primary key as one string. -/
def makeLockKey (tableId : TableId) (key : Bytes) : Bytes := beBytes 4 tableId.toNat ++ key

/-- A lock and its queue. -/
structure LockEntry where
  owner : ℕ
  holdCount : ℕ
  waitQueue : List ℕ
  deriving DecidableEq

/-- All locks. -/
structure LockManager where
  /-- `locks_`. -/
  locks : Bytes → Option LockEntry
  /-- `txn_locks_`, with the empty list for a missing entry. -/
  txnLocks : ℕ → List Bytes

namespace LockManager

/-- There are no locks. -/
def empty : LockManager := ⟨fun _ => none, fun _ => []⟩

/-- `locks_[lk]`, which makes a fresh entry where there is none. -/
def entry (m : LockManager) (lk : Bytes) : LockEntry := (m.locks lk).getD ⟨0, 0, []⟩

/-- Who holds the lock. -/
def owner (m : LockManager) (lk : Bytes) : ℕ := (m.entry lk).owner

/-- A lock is changed. -/
def setEntry (m : LockManager) (lk : Bytes) (e : LockEntry) : LockManager :=
  { m with locks := update m.locks lk (some e) }

/-- `txn_locks_[txn_id].push_back(lk)`. -/
def hold (m : LockManager) (txnId : ℕ) (lk : Bytes) : LockManager :=
  { m with txnLocks := update m.txnLocks txnId (m.txnLocks txnId ++ [lk]) }

/-- `Acquire` up to its waiting loop; the second component says whether the lock was
granted at once. -/
def acquire (m : LockManager) (lk : Bytes) (txnId : ℕ) : LockManager × Bool :=
  let e := m.entry lk
  if e.owner = txnId then
    ((m.setEntry lk { e with holdCount := e.holdCount + 1 }).hold txnId lk, true)
  else if e.owner = 0 then
    ((m.setEntry lk { e with owner := txnId, holdCount := 1 }).hold txnId lk, true)
  else (m.setEntry lk { e with waitQueue := e.waitQueue ++ [txnId] }, false)

/-- A look at the lock in the waiting loop: the lock manager if the lock has been
handed over meanwhile. -/
def wake (m : LockManager) (lk : Bytes) (txnId : ℕ) : Option LockManager :=
  let e := m.entry lk
  if e.owner = txnId ∧ 0 < e.holdCount then some (m.hold txnId lk) else none

/-- The end of the waiting time: the second component says whether the lock was
there after all. -/
def timeout (m : LockManager) (lk : Bytes) (txnId : ℕ) : LockManager × Bool :=
  match m.wake lk txnId with
  | some m' => (m', true)
  | none =>
    let e := m.entry lk
    (m.setEntry lk { e with waitQueue := e.waitQueue.erase txnId }, false)

/-- `ReleaseInternal`. -/
def releaseInternal (m : LockManager) (lk : Bytes) : LockManager :=
  match m.locks lk with
  | none => m
  | some e =>
    if e.holdCount = 0 then m
    else if 0 < e.holdCount - 1 then m.setEntry lk { e with holdCount := e.holdCount - 1 }
    else
      match e.waitQueue with
      | next :: rest => m.setEntry lk ⟨next, 1, rest⟩
      | [] => { m with locks := update m.locks lk none }

/-- The first half of `ReleaseAll`: the list of locks is taken over. -/
def takeAll (m : LockManager) (txnId : ℕ) : LockManager × List Bytes :=
  ({ m with txnLocks := update m.txnLocks txnId [] }, m.txnLocks txnId)

/-- The second half of `ReleaseAll`: one release for each occurrence in the list. -/
def releaseKeys (m : LockManager) (txnId : ℕ) (keys : List Bytes) : LockManager :=
  keys.foldl (fun m lk => if m.owner lk ≠ txnId then m else m.releaseInternal lk) m

/-! ## Entries -/

variable (m : LockManager)

theorem entry_setEntry (lk : Bytes) (e : LockEntry) : (m.setEntry lk e).entry = update m.entry lk e := by
  funext lk'
  unfold entry setEntry
  by_cases h : lk' = lk
  · simp [h]
  · simp [h]

end LockManager

/-- An entry after `Acquire`. -/
def LockEntry.acquired (e : LockEntry) (txnId : ℕ) : LockEntry :=
  if e.owner = txnId then { e with holdCount := e.holdCount + 1 }
  else if e.owner = 0 then { e with owner := txnId, holdCount := 1 }
  else { e with waitQueue := e.waitQueue ++ [txnId] }

/-- An entry after `ReleaseInternal`. -/
def LockEntry.released (e : LockEntry) : LockEntry :=
  if e.holdCount = 0 then e
  else if 0 < e.holdCount - 1 then { e with holdCount := e.holdCount - 1 }
  else
    match e.waitQueue with
    | next :: rest => ⟨next, 1, rest⟩
    | [] => ⟨0, 0, []⟩

namespace LockManager

variable (m : LockManager)

theorem entry_acquire (lk : Bytes) (txnId : ℕ) :
    (m.acquire lk txnId).1.entry = update m.entry lk ((m.entry lk).acquired txnId) := by
  unfold acquire LockEntry.acquired
  dsimp only
  split_ifs <;> exact m.entry_setEntry lk _

theorem entry_releaseInternal (lk : Bytes) :
    (m.releaseInternal lk).entry = update m.entry lk (m.entry lk).released := by
  unfold releaseInternal LockEntry.released
  cases he : m.locks lk with
  | none =>
    have hentry : m.entry lk = ⟨0, 0, []⟩ := by simp [entry, he]
    rw [hentry, if_pos rfl, ← hentry, update_eq_self]
  | some e =>
    have hentry : m.entry lk = e := by simp [entry, he]
    rw [hentry]
    dsimp only
    split_ifs
    · rw [← hentry, update_eq_self]
    · exact m.entry_setEntry lk _
    · cases e.waitQueue with
      | cons next rest => exact m.entry_setEntry lk _
      | nil =>
        funext lk'
        simp only [entry, update_apply]
        split_ifs <;> rfl

variable {txnId : ℕ} {lk : Bytes}

/-- `Acquire` grants a lock that is free, or one's own, at once. -/
theorem acquire_iff :
    (m.acquire lk txnId).2 = true ↔ m.owner lk = 0 ∨ m.owner lk = txnId := by
  unfold acquire owner
  dsimp only
  split_ifs <;> simp_all

theorem txnLocks_acquire (lk : Bytes) (txnId : ℕ) : (m.acquire lk txnId).1.txnLocks =
    if (m.acquire lk txnId).2 then (m.hold txnId lk).txnLocks else m.txnLocks := by
  unfold acquire
  dsimp only
  split_ifs <;> simp_all [hold, setEntry]

theorem txnLocks_releaseInternal (lk : Bytes) : (m.releaseInternal lk).txnLocks = m.txnLocks := by
  unfold releaseInternal
  cases m.locks lk with
  | none => rfl
  | some e =>
    dsimp only
    split_ifs
    · rfl
    · rfl
    · cases e.waitQueue <;> rfl

/-- The time is up, and the lock is there. -/
theorem wake_of_timeout {m : LockManager}
    (h : (m.timeout lk txnId).2 = true) : m.wake lk txnId = some (m.timeout lk txnId).1 := by
  unfold timeout at h ⊢
  cases hw : m.wake lk txnId with
  | some m' => rfl
  | none => simp [hw] at h

/-- The time is up, and the lock is not there. -/
theorem timeout_of_not {m : LockManager} (h : ¬ (m.timeout lk txnId).2 = true) :
    ¬ (m.owner lk = txnId ∧ 0 < (m.entry lk).holdCount) ∧ (m.timeout lk txnId).1 =
      m.setEntry lk { m.entry lk with waitQueue := (m.entry lk).waitQueue.erase txnId } := by
  unfold timeout at h ⊢
  cases hw : m.wake lk txnId with
  | some m' => simp [hw] at h
  | none => exact ⟨by simpa [wake, owner] using hw, rfl⟩

/-! ## Owners -/

/-- `Acquire` changes the owner of a lock only where it was free. -/
theorem owner_acquire (lk lk' : Bytes) (txnId : ℕ) :
    (m.acquire lk txnId).1.owner lk' =
      if lk' = lk ∧ m.owner lk = 0 then txnId else m.owner lk' := by
  unfold owner
  rw [entry_acquire]
  by_cases h : lk' = lk
  · subst h
    rw [update_self, LockEntry.acquired]
    split_ifs <;> simp_all
  · simp [h]

theorem owner_of_acquire (h : (m.acquire lk txnId).2 = true) :
    (m.acquire lk txnId).1.owner lk = txnId := by
  rw [owner_acquire]
  rcases m.acquire_iff.mp h with hfree | hown
  · simp [hfree]
  · simp [hown]

theorem owner_wake {m' : LockManager} (h : m.wake lk txnId = some m') :
    m.owner lk = txnId ∧ ∀ lk', m'.owner lk' = m.owner lk' := by
  unfold wake at h
  simp only at h
  split_ifs at h with hown
  cases h
  exact ⟨hown.1, fun _ => rfl⟩

theorem owner_timeout (lk lk' : Bytes) (txnId : ℕ) :
    (m.timeout lk txnId).1.owner lk' = m.owner lk' := by
  unfold timeout
  cases hw : m.wake lk txnId with
  | some m' => exact (m.owner_wake hw).2 lk'
  | none =>
    by_cases h : lk' = lk
    · simp [owner, entry_setEntry, h]
    · simp [owner, entry_setEntry, h]

theorem owner_of_timeout (h : (m.timeout lk txnId).2 = true) : m.owner lk = txnId :=
  (m.owner_wake (wake_of_timeout h)).1

/-- Releasing the locks of a transaction leaves the locks of the others alone. -/
theorem owner_releaseKeys (keys : List Bytes) (h : m.owner lk ≠ txnId) :
    (m.releaseKeys txnId keys).owner lk = m.owner lk := by
  induction keys generalizing m with
  | nil => rfl
  | cons k ks ih =>
    unfold releaseKeys at ih ⊢
    rw [List.foldl_cons]
    by_cases hk : m.owner k ≠ txnId
    · rw [if_pos hk]
      exact ih m h
    · rw [if_neg hk]
      have hne : lk ≠ k := fun heq => hk (heq ▸ h)
      have hsame : (m.releaseInternal k).owner lk = m.owner lk := by
        rw [owner, entry_releaseInternal, update_of_ne hne, owner]
      rw [ih _ (by rw [hsame]; exact h), hsame]

end LockManager

end TransDb.Txn
