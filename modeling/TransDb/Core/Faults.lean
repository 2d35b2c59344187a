import TransDb.Core.Bytes

/-!
# Files whose operations can fail

A process that does file operations does not decide how they go.  A `Faulty` computation
takes their outcomes from a list, one for each operation in the order in which they are
made; an operation beyond the end of the list succeeds.

* `IoOutcome`, `Faulty`, `nextOutcome` — outcomes and how they are taken.
* `Reliably` — what a computation does if no operation fails, with the rules for `pure`,
  `bind` and loops.
* `AppendFile` — a file that is appended to through a stream and synced through a
  descriptor, and the operations on it.
-/

namespace TransDb

/-- How an operation goes.  Of what a failing write should have written, some bytes may
have come through. -/
inductive IoOutcome where
  | ok
  | fail (bytes : ℕ)
  deriving DecidableEq, Repr

/-- A computation that makes file operations. -/
abbrev Faulty (α : Type) := StateM (List IoOutcome) α

theorem run_bind {α β : Type} (m : Faulty α) (k : α → Faulty β) (io : List IoOutcome) :
    (m >>= k).run io = (k (m.run io).1).run (m.run io).2 := rfl

/-- The outcome of the next operation. -/
def nextOutcome : Faulty IoOutcome := do
  match ← get with
  | [] => return .ok
  | o :: os =>
    set os
    return o

/-! ## Computations without a failure -/

/-- No operation fails. -/
def AllOk (os : List IoOutcome) : Prop := ∀ o ∈ os, o = .ok

instance (os : List IoOutcome) : Decidable (AllOk os) :=
  inferInstanceAs (Decidable (∀ o ∈ os, o = .ok))

/-- If no operation fails, the result is as `P` says. -/
def Reliably {α : Type} (m : Faulty α) (P : α → Prop) : Prop :=
  ∀ os, AllOk os → P (m.run os).1 ∧ AllOk (m.run os).2

namespace Reliably

variable {α β : Type} {m : Faulty α} {k : α → Faulty β} {P Q : α → Prop} {R : β → Prop}

theorem pure {a : α} (h : P a) : Reliably (pure a) P := fun _ hos => ⟨h, hos⟩

/-- **One computation after the other.** -/
theorem bind (hm : Reliably m P) (hk : ∀ a, P a → Reliably (k a) R) : Reliably (m >>= k) R := by
  intro os hos
  obtain ⟨hP, hrest⟩ := hm os hos
  exact hk _ hP _ hrest

theorem mono (hm : Reliably m P) (h : ∀ a, P a → Q a) : Reliably m Q :=
  fun os hos => ⟨h _ (hm os hos).1, (hm os hos).2⟩

/-- The next operation succeeds. -/
theorem next : Reliably nextOutcome fun o => o = .ok := by
  intro os hos
  cases os with
  | nil => exact ⟨rfl, hos⟩
  | cons o os =>
    exact ⟨hos o List.mem_cons_self, fun o' ho' => hos o' (List.mem_cons_of_mem o ho')⟩

/-- **An operation that succeeds goes on with what follows its success.** -/
theorem next_bind {k : IoOutcome → Faulty β} (hk : Reliably (k .ok) R) :
    Reliably (nextOutcome >>= k) R :=
  next.bind fun o ho => by rw [ho]; exact hk

/-- **The loop rule.**  An invariant of the part of the list done so far. -/
theorem foldlM {I : List α → β → Prop} {f : β → α → Faulty β} {l : List α} {b : β} (h0 : I [] b)
    (hstep : ∀ done a rest b, l = done ++ a :: rest → I done b →
      Reliably (f b a) (I (done ++ [a]))) :
    Reliably (l.foldlM f b) (I l) := by
  suffices h : ∀ rest done b, l = done ++ rest → I done b → Reliably (rest.foldlM f b) (I l) from
    h l [] b rfl h0
  intro rest
  induction rest with
  | nil =>
    intro done b hl hI
    rw [List.append_nil] at hl
    exact Reliably.pure (hl ▸ hI)
  | cons a rest ih =>
    intro done b hl hI
    rw [List.foldlM_cons]
    exact (hstep done a rest b hl hI).bind fun b' hb' => ih (done ++ [a]) b' (by simp [hl]) hb'

end Reliably

/-! ## Files that are appended to -/

/-- A file, the stream through which a process appends to it, and the descriptor through
which it syncs the file. -/
structure AppendFile where
  /-- What the disk holds for sure. -/
  durable : Bytes
  /-- What was written behind it since. -/
  pending : Bytes
  isOpen : Bool
  /-- No operation on the stream has failed since it was opened. -/
  good : Bool
  /-- The descriptor is open. -/
  canSync : Bool
  deriving DecidableEq, Repr

namespace AppendFile

/-- A file that nobody has opened. -/
def closed (bytes : Bytes) : AppendFile := ⟨bytes, [], false, false, false⟩

/-- What the file holds if nothing is lost. -/
def bytes (f : AppendFile) : Bytes := f.durable ++ f.pending

/-- Open the stream. -/
def openStream (f : AppendFile) : Faulty AppendFile := do
  match ← nextOutcome with
  | .fail _ => return f
  | .ok => return { f with isOpen := true, good := true }

/-- Open the descriptor. -/
def openDescriptor (f : AppendFile) : Faulty AppendFile := do
  match ← nextOutcome with
  | .fail _ => return f
  | .ok => return { f with canSync := true }

/-- Write to the stream; nothing is written to one that has failed before. -/
def write (f : AppendFile) (bs : Bytes) : Faulty AppendFile := do
  if f.good then
    match ← nextOutcome with
    | .fail n => return { f with pending := (f.pending ++ bs).take n, good := false }
    | .ok => return { f with pending := f.pending ++ bs }
  else return f

/-- Hand what is in the buffer of the stream to the operating system. -/
def flush (f : AppendFile) : Faulty AppendFile := do
  if f.good then
    match ← nextOutcome with
    | .fail n => return { f with pending := f.pending.take n, good := false }
    | .ok => return f
  else return f

/-- Close the stream and the descriptor. -/
def close (f : AppendFile) : AppendFile := { f with isOpen := false, canSync := false }

/-- Sync the file through the descriptor; the answer says whether that succeeded. -/
def fsync (f : AppendFile) : Faulty (Bool × AppendFile) := do
  match ← nextOutcome with
  | .fail _ => return (false, f)
  | .ok => return (true, { f with durable := f.durable ++ f.pending, pending := [] })

/-- The file holds `bs`, whoever has it open can write to it and sync it, and nothing was
left behind when it was closed. -/
structure Holds (f : AppendFile) (bs : Bytes) : Prop where
  bytes : f.bytes = bs
  usable : f.isOpen = true → f.good = true ∧ f.canSync = true
  closed : f.isOpen = false → f.pending = []

section Reliable

variable {f : AppendFile} {bs : Bytes}

theorem holds_closed (bs : Bytes) : (closed bs).Holds bs :=
  ⟨List.append_nil bs, fun h => (Bool.false_ne_true h).elim, fun _ => rfl⟩

theorem Holds.durable_eq (h : f.Holds bs) (hp : f.pending = []) : f.durable = bs := by
  rw [← h.bytes, AppendFile.bytes, hp, List.append_nil]

theorem openStream_spec :
    Reliably f.openStream fun f' => f' = { f with isOpen := true, good := true } :=
  Reliably.next_bind (Reliably.pure rfl)

theorem openDescriptor_spec : Reliably f.openDescriptor fun f' => f' = { f with canSync := true } :=
  Reliably.next_bind (Reliably.pure rfl)

theorem write_spec (hgood : f.good = true) (bs : Bytes) :
    Reliably (f.write bs) fun f' => f' = { f with pending := f.pending ++ bs } := by
  unfold write
  rw [if_pos hgood]
  exact Reliably.next_bind (Reliably.pure rfl)

theorem flush_spec : Reliably f.flush fun f' => f' = f := by
  unfold flush
  split_ifs
  · exact Reliably.next_bind (Reliably.pure rfl)
  · exact Reliably.pure rfl

theorem fsync_spec :
    Reliably f.fsync fun r =>
      r = (true, { f with durable := f.durable ++ f.pending, pending := [] }) :=
  Reliably.next_bind (Reliably.pure rfl)

end Reliable

end AppendFile

end TransDb
