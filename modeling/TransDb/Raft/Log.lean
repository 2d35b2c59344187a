import Mathlib.Data.List.Range
import Mathlib.Tactic.Ring
import TransDb.Core.Bytes
import TransDb.Core.ReplicationSteps

/-!
# The Raft log

The model of `RaftLog` (`src/raft/raft_log.cpp`) with every file operation
succeeding, so that the file always holds what memory holds.  A `RaftLog` is a
list of entries with indices `1, 2, 3, …`; that the indices have no gap is a
field, so every operation below keeps it by construction.

* `append`, `get`, `getRange`, `lastIndex`, `termAt`, `appendEntries` — the
  operations, on entries that carry their own index as the source's do.
* `get_eq`, `lastIndex_eq`, `termAt_eq` — what the index arithmetic comes to.
* `appendEntries_eq` — **the follower's merge**: merging a stretch of a log `X`
  into a log that agrees with `X` before it leaves the log alone if it already
  holds the stretch, and otherwise makes it the beginning of `X`.
* `appendEntries_merges` — **the merge for arbitrary entries**: it is the reference
  merge, and merging any stretch of the entries again changes nothing.
-/

namespace TransDb.Raft

open List

/-- What an entry is for. -/
inductive RaftEntryType where
  | txnBegin
  | txnWrite
  | txnDelete
  | txnPrepare
  | txnCommit
  | txnAbort
  | noop
  | txnPrepareBatch
  deriving DecidableEq, Repr

/-- An entry of the log. -/
structure RaftLogEntry where
  index : ℕ
  term : ℕ
  type : RaftEntryType
  payload : Bytes
  deriving DecidableEq, Repr

/-- The indices are `1, 2, 3, …` without a gap. -/
def Contiguous (es : List RaftLogEntry) : Prop :=
  ∀ i e, es[i]? = some e → e.index = i + 1

theorem contiguous_nil : Contiguous [] := by
  intro i e h
  simp at h

variable {es : List RaftLogEntry}

theorem Contiguous.append_singleton (h : Contiguous es)
    {e : RaftLogEntry} (he : e.index = es.length + 1) : Contiguous (es ++ [e]) := by
  intro i x hx
  rcases Nat.lt_or_ge i es.length with hi | hi
  · rw [getElem?_append_left hi] at hx
    exact h i x hx
  · rw [getElem?_append_right hi, getElem?_singleton] at hx
    split at hx
    · obtain rfl := Option.some.inj hx
      omega
    · cases hx

theorem Contiguous.anti {es fs : List RaftLogEntry} (h : Contiguous es) (hp : fs <+: es) :
    Contiguous fs := by
  obtain ⟨gs, rfl⟩ := hp
  intro i e he
  have hi : i < fs.length := (List.getElem?_eq_some_iff.mp he).1
  exact h i e (by rw [getElem?_append_left hi]; exact he)

theorem Contiguous.take (h : Contiguous es) (n : ℕ) :
    Contiguous (es.take n) :=
  h.anti <| take_prefix n es

theorem Contiguous.map_index (h : Contiguous es) :
    es.map RaftLogEntry.index = List.range' 1 es.length := by
  refine ext_getElem (by simp) fun i h1 h2 => ?_
  have hi : i < es.length := by simpa using h1
  have := h i es[i] (getElem?_eq_getElem hi)
  simp only [getElem_map, getElem_range']
  omega

/-- The entries of a log, numbered from one. -/
structure RaftLog where
  entries : List RaftLogEntry
  contiguous : Contiguous entries

namespace RaftLog

/-- The log of a node that has never run. -/
def empty : RaftLog := ⟨[], contiguous_nil⟩

/-- `entries_.front().index`, where there is a front. -/
def firstIndex (l : RaftLog) : ℕ := (l.entries.head?.map RaftLogEntry.index).getD 0

/-- `LastIndex`. -/
def lastIndex (l : RaftLog) : ℕ := (l.entries.getLast?.map RaftLogEntry.index).getD 0

/-- The index an entry must have to go at the end. -/
def expect (l : RaftLog) : ℕ := if l.entries = [] then 1 else l.lastIndex + 1

/-- `Get`. -/
def get (l : RaftLog) (index : ℕ) : Option RaftLogEntry :=
  if index = 0 ∨ l.entries = [] ∨ l.lastIndex < index then none
  else if index < l.firstIndex then none
  else l.entries[index - l.firstIndex]?

/-- `TermAt`. -/
def termAt (l : RaftLog) (index : ℕ) : ℕ :=
  if index = 0 ∨ l.entries = [] then 0
  else if index < l.firstIndex ∨ l.lastIndex < index then 0
  else (l.entries[index - l.firstIndex]?.map RaftLogEntry.term).getD 0

/-- `GetRange`. -/
def getRange (l : RaftLog) (startIndex endIndex : ℕ) : List RaftLogEntry :=
  if l.entries = [] ∨ startIndex = 0 ∨ endIndex < startIndex then []
  else
    let s := max startIndex l.firstIndex
    let e := min endIndex l.lastIndex
    (List.range' s (e + 1 - s)).filterMap fun i => l.entries[i - l.firstIndex]?

/-! ### What the index arithmetic comes to -/

section

variable (l : RaftLog)
include l

theorem lastIndex_eq : l.lastIndex = l.entries.length := by
  unfold lastIndex
  rcases eq_nil_or_concat l.entries with h | ⟨p, e, h⟩
  · simp [h]
  · have h' : l.entries = p ++ [e] := by simpa using h
    have := l.contiguous p.length e (by simp [h'])
    simp [h', this]

theorem firstIndex_eq (h : l.entries ≠ []) : l.firstIndex = 1 := by
  have hlen : 0 < l.entries.length := length_pos_iff.mpr h
  have := l.contiguous 0 _ (getElem?_eq_getElem hlen)
  unfold firstIndex
  rw [head?_eq_getElem?, getElem?_eq_getElem hlen]
  simpa using this

theorem expect_eq : l.expect = l.entries.length + 1 := by
  unfold expect
  split
  · next h => simp [h]
  · rw [lastIndex_eq]

theorem get_eq (i : ℕ) : l.get (i + 1) = l.entries[i]? := by
  unfold get
  by_cases h : l.entries = []
  · simp [h]
  · rw [lastIndex_eq, firstIndex_eq l h]
    by_cases hi : l.entries.length < i + 1
    · rw [if_pos (by simp [hi]), eq_comm, getElem?_eq_none_iff]
      omega
    · rw [if_neg (by simp [h, hi]), if_neg (by omega)]
      simp

theorem get_zero : l.get 0 = none := by
  simp [get]

theorem termAt_zero : l.termAt 0 = 0 := by
  simp [termAt]

theorem termAt_eq (i : ℕ) : l.termAt (i + 1) = (l.entries[i]?.map RaftLogEntry.term).getD 0 := by
  unfold termAt
  by_cases h : l.entries = []
  · simp [h]
  · rw [lastIndex_eq, firstIndex_eq l h]
    by_cases hi : l.entries.length < i + 1
    · rw [if_neg (by simp [h]), if_pos (by simp [hi]), getElem?_eq_none (by omega)]
      rfl
    · rw [if_neg (by simp [h]), if_neg (by omega)]
      simp

/-- The term of the last entry is the stamp of the last entry. -/
theorem termAt_lastIndex :
    l.termAt l.lastIndex = Replication.lastStamp RaftLogEntry.term l.entries := by
  rw [lastIndex_eq]
  rcases Replication.eq_nil_or_append l.entries with h | ⟨p, e, h⟩
  · simp [h, termAt_zero, Replication.lastStamp]
  · rw [h, length_append, length_singleton, termAt_eq, h,
      Replication.lastStamp_append]
    simp

end

/-- The loop of `getRange` reads the entries off one by one. -/
theorem filterMap_range'_getElem? {α : Type*} (es : List α) :
    ∀ n i, i + n = es.length →
      ((List.range' (i + 1) n).filterMap fun k => es[k - 1]?) = es.drop i := by
  intro n
  induction n with
  | zero => intro i hi; simp [drop_eq_nil_iff.mpr (show es.length ≤ i by omega)]
  | succ n ih =>
    intro i hi
    have hlt : i < es.length := by omega
    rw [range'_succ, filterMap_cons, Nat.add_sub_cancel, getElem?_eq_getElem hlt,
      drop_eq_getElem_cons hlt, ih (i + 1) (by omega)]

/-- Everything from an index on, up to the last entry. -/
theorem getRange_eq (l : RaftLog) (i : ℕ) :
    l.getRange (i + 1) l.lastIndex = l.entries.drop i := by
  unfold getRange
  by_cases h : l.entries = [] ∨ i + 1 = 0 ∨ l.lastIndex < i + 1
  · rw [if_pos h, eq_comm, drop_eq_nil_iff]
    rw [lastIndex_eq] at h
    rcases h with h | h | h
    · simp [h]
    · omega
    · omega
  · rw [if_neg h]
    push Not at h
    obtain ⟨hne, -, hi⟩ := h
    rw [lastIndex_eq] at hi ⊢
    rw [firstIndex_eq l hne, max_eq_left (by omega), min_self]
    exact filterMap_range'_getElem? l.entries _ i (by omega)

/-! ### Putting entries in -/

/-- Put an entry at the end, unless its index does not fit there. -/
def pushNext (l : RaftLog) (e : RaftLogEntry) : RaftLog :=
  if h : e.index = l.expect then
    ⟨l.entries ++ [e], l.contiguous.append_singleton (by rw [h, expect_eq])⟩
  else l

/-- `Append`: the new log and the index of the new entry. -/
def append (l : RaftLog) (term : ℕ) (type : RaftEntryType) (payload : Bytes) : RaftLog × ℕ :=
  let e : RaftLogEntry := ⟨l.expect, term, type, payload⟩
  (l.pushNext e, l.expect)

/-- `entries_.erase(begin + off, end)`. -/
def eraseFrom (l : RaftLog) (off : ℕ) : RaftLog := ⟨l.entries.take off, l.contiguous.take off⟩

/-- One turn of the loop of `AppendEntries`: an entry whose index is already
taken is skipped if the terms agree and cuts the log off if they do not; an entry
that then does not fit at the end is skipped. -/
def mergeEntry (l : RaftLog) (e : RaftLogEntry) : RaftLog :=
  if l.entries ≠ [] ∧ e.index ≤ l.lastIndex then
    let off := e.index - l.firstIndex
    if (l.entries[off]?.map RaftLogEntry.term).getD 0 ≠ e.term then
      (l.eraseFrom off).pushNext e
    else l
  else l.pushNext e

/-- `AppendEntries`. -/
def appendEntries (l : RaftLog) (es : List RaftLogEntry) : RaftLog := es.foldl mergeEntry l

theorem entries_append (l : RaftLog) (term : ℕ) (type : RaftEntryType) (payload : Bytes) :
    (l.append term type payload).1.entries =
      l.entries ++ [⟨l.entries.length + 1, term, type, payload⟩] := by
  simp [append, pushNext, expect_eq]

theorem snd_append (l : RaftLog) (term : ℕ) (type : RaftEntryType) (payload : Bytes) :
    (l.append term type payload).2 = l.entries.length + 1 := expect_eq l

variable {e : RaftLogEntry} {k : ℕ}

theorem pushNext_of_eq (l : RaftLog) (h : e.index = l.entries.length + 1) :
    (l.pushNext e).entries = l.entries ++ [e] := by
  unfold pushNext
  rw [dif_pos (by rw [h, expect_eq])]

/-- An entry with the next index goes at the end. -/
theorem mergeEntry_next (l : RaftLog) (h : e.index = l.entries.length + 1) :
    (l.mergeEntry e).entries = l.entries ++ [e] := by
  unfold mergeEntry
  rw [if_neg (by rw [h, lastIndex_eq]; omega), pushNext_of_eq l h]

/-- An entry whose index is taken by one of the same term is skipped. -/
theorem mergeEntry_skip (l : RaftLog) {e x : RaftLogEntry} {i : ℕ} (h : e.index = i + 1)
    (hx : l.entries[i]? = some x) (hterm : x.term = e.term) : l.mergeEntry e = l := by
  have hlt : i < l.entries.length := (List.getElem?_eq_some_iff.mp hx).1
  have hne : l.entries ≠ [] := ne_nil_of_length_pos (by omega)
  unfold mergeEntry
  rw [if_pos ⟨hne, by rw [h, lastIndex_eq]; omega⟩]
  simp [h, firstIndex_eq l hne, hx, hterm]

/-- An entry whose index is taken by one of another term replaces it and all that
follow. -/
theorem mergeEntry_conflict (l : RaftLog) {e x : RaftLogEntry} {i : ℕ} (h : e.index = i + 1)
    (hx : l.entries[i]? = some x) (hterm : x.term ≠ e.term) :
    (l.mergeEntry e).entries = l.entries.take i ++ [e] := by
  have hlt : i < l.entries.length := (List.getElem?_eq_some_iff.mp hx).1
  have hne : l.entries ≠ [] := ne_nil_of_length_pos (by omega)
  have hlen : e.index = (l.eraseFrom i).entries.length + 1 := by
    simp only [eraseFrom, length_take]
    omega
  unfold mergeEntry
  rw [if_pos ⟨hne, by rw [h, lastIndex_eq]; omega⟩]
  simp only [h, firstIndex_eq l hne, Nat.add_sub_cancel, hx, Option.map_some, Option.getD_some,
    ne_eq, hterm, not_false_eq_true, if_true]
  exact pushNext_of_eq _ hlen

/-- The indices are `k + 1, k + 2, …` without a gap. -/
def Consecutive (k : ℕ) (es : List RaftLogEntry) : Prop :=
  ∀ j e, es[j]? = some e → e.index = k + j + 1

theorem Consecutive.head (h : Consecutive k (e :: es)) : e.index = k + 1 := h 0 e rfl

theorem Consecutive.tail (h : Consecutive k (e :: es)) : Consecutive (k + 1) es := by
  intro j x hx
  have := h (j + 1) x (by simpa using hx)
  omega

/-- Entries that follow on the last one are all taken. -/
theorem appendEntries_end (l : RaftLog)
    (h : Consecutive l.entries.length es) : (l.appendEntries es).entries = l.entries ++ es := by
  induction es generalizing l with
  | nil => simp [appendEntries]
  | cons e es ih =>
    have hnext := l.mergeEntry_next h.head
    have hrest := ih (l.mergeEntry e) (by rw [hnext]; simpa using h.tail)
    rw [hnext, append_assoc] at hrest
    exact hrest

/-- From the first entry that the log lacks or has with another term on, the log is
replaced. -/
theorem appendEntries_diverges (l : RaftLog)
    (hk : k ≤ l.entries.length) (h : Consecutive k (e :: es))
    (hno : ∀ x, l.entries[k]? = some x → x.term ≠ e.term) :
    (l.appendEntries (e :: es)).entries = l.entries.take k ++ e :: es := by
  have hmerge : (l.mergeEntry e).entries = l.entries.take k ++ [e] := by
    cases hx : l.entries[k]? with
    | none =>
      have hle : l.entries.length ≤ k := by simpa using hx
      rw [take_of_length_le hle]
      exact l.mergeEntry_next (by rw [h.head]; omega)
    | some x => exact l.mergeEntry_conflict h.head hx (hno x hx)
  have hnext : Consecutive (l.mergeEntry e).entries.length es := by
    rw [hmerge]
    simpa [hk] using h.tail
  have hrest := (l.mergeEntry e).appendEntries_end hnext
  rw [hmerge, append_assoc] at hrest
  exact hrest

open Replication in
/-- **The follower's merge.**  `X` is a contiguous log that agrees with `l` up to
any place where the two have an entry of the same term.  If they agree before
`prev`, merging the `k` entries of `X` after `prev` into `l` leaves `l` alone if
`l` holds the first `prev + k` entries of `X`, and makes it those otherwise. -/
theorem appendEntries_eq (l : RaftLog) {X : List RaftLogEntry} (hX : Contiguous X) {prev : ℕ}
    (hprev : X.take prev <+: l.entries)
    (hmatch : ∀ i e f, l.entries[i]? = some e → X[i]? = some f → e.term = f.term →
      l.entries.take (i + 1) = X.take (i + 1)) (k : ℕ) (hk : prev + k ≤ X.length) :
    (l.appendEntries ((X.drop prev).take k)).entries = overwrite l.entries (X.take (prev + k)) := by
  induction k generalizing prev with
  | zero =>
    simp only [appendEntries, take_zero, foldl_nil, Nat.add_zero, overwrite]
    rw [if_pos hprev]
  | succ k ih =>
    have hlt : prev < X.length := by omega
    have hlen : prev ≤ l.entries.length := by
      have := hprev.length_le
      rw [length_take] at this
      omega
    have hcons : (X.drop prev).take (k + 1) = X[prev] :: (X.drop (prev + 1)).take k := by
      rw [drop_eq_getElem_cons hlt, take_succ_cons]
    have hf : X[prev]? = some X[prev] := getElem?_eq_getElem hlt
    by_cases hsame : ∃ x, l.entries[prev]? = some x ∧ x.term = X[prev].term
    · -- the log has the next entry already
      obtain ⟨x, hx, hterm⟩ := hsame
      have hpre : X.take (prev + 1) <+: l.entries := by
        rw [← hmatch prev x _ hx hf hterm]
        exact take_prefix _ _
      have hskip : l.appendEntries ((X.drop prev).take (k + 1)) =
          l.appendEntries ((X.drop (prev + 1)).take k) := by
        rw [hcons, appendEntries, foldl_cons, l.mergeEntry_skip (hX _ _ hf) hx hterm]
        rfl
      rw [hskip, ih hpre (by omega), Nat.add_right_comm, Nat.add_assoc]
    · push Not at hsame
      have hnot : ¬ X.take (prev + (k + 1)) <+: l.entries := by
        rintro ⟨t, ht⟩
        refine hsame X[prev] ?_ rfl
        rw [← ht, getElem?_append_left (by rw [length_take]; omega),
          getElem?_take_of_lt (by omega), hf]
      have hconsec : Consecutive prev (X[prev] :: (X.drop (prev + 1)).take k) := by
        rw [← hcons]
        intro j e he
        rw [getElem?_take, getElem?_drop] at he
        split at he
        · exact hX _ _ he
        · cases he
      have htake : l.entries.take prev = X.take prev := by
        rw [prefix_iff_eq_take.mp hprev, length_take, min_eq_left hlt.le]
      rw [hcons, l.appendEntries_diverges hlen hconsec hsame, overwrite, if_neg hnot, ← hcons,
        htake, ← take_add]

/-! ### The merge as a function of the two lists -/

/-- Whether a log holds an entry of the same index and term. -/
def holds (es : List RaftLogEntry) (e : RaftLogEntry) : Bool :=
  es[e.index - 1]?.map RaftLogEntry.term == some e.term

/-- The log is left alone if it holds all of `es`, and otherwise cut before the first
entry it does not hold, which is appended with all that follow. -/
def referenceMerge (log es : List RaftLogEntry) : List RaftLogEntry :=
  match es.dropWhile (holds log) with
  | [] => log
  | e :: rest => log.take (e.index - 1) ++ e :: rest

theorem holds_iff :
    holds es e = true ↔ ∃ x, es[e.index - 1]? = some x ∧ x.term = e.term := by
  simp [holds]

theorem Consecutive.holds_append {p es : List RaftLogEntry} (h : Consecutive p.length es)
    (he : e ∈ es) : holds (p ++ es) e = true := by
  obtain ⟨j, hj⟩ := mem_iff_getElem?.mp he
  refine holds_iff.mpr ⟨e, ?_, rfl⟩
  rw [h j e hj, getElem?_append_right (by omega), ← hj]
  congr 1
  omega

/-- The merge is the reference merge; it keeps what is before the entries and holds
each of them afterwards. -/
theorem appendEntries_spec (l : RaftLog) (hk : k ≤ l.entries.length) (h : Consecutive k es) :
    (l.appendEntries es).entries = referenceMerge l.entries es ∧
      l.entries.take k <+: (l.appendEntries es).entries ∧
      ∀ e ∈ es, holds (l.appendEntries es).entries e = true := by
  induction es generalizing k with
  | nil => exact ⟨rfl, take_prefix _ _, by simp⟩
  | cons e es ih =>
    have hindex : e.index - 1 = k := by rw [h.head, Nat.add_sub_cancel]
    cases hhold : holds l.entries e with
    | true =>
      obtain ⟨x, hx, hterm⟩ := holds_iff.mp hhold
      rw [hindex] at hx
      have hlt : k < l.entries.length := (List.getElem?_eq_some_iff.mp hx).1
      have hskip : l.appendEntries (e :: es) = l.appendEntries es := by
        rw [appendEntries, foldl_cons, l.mergeEntry_skip h.head hx hterm]
        rfl
      obtain ⟨hmerge, hpre, hheld⟩ := ih hlt h.tail
      rw [hskip]
      refine ⟨?_, (take_prefix_take_left (Nat.le_succ k)).trans hpre, ?_⟩
      · rw [hmerge, referenceMerge, referenceMerge, dropWhile_cons_of_pos hhold]
      · refine forall_mem_cons.mpr ⟨holds_iff.mpr ⟨x, ?_, hterm⟩, hheld⟩
        obtain ⟨t, ht⟩ := hpre
        rw [hindex, ← ht, getElem?_append_left (by rw [length_take]; omega),
          getElem?_take_of_lt (Nat.lt_succ_self k), hx]
    | false =>
      have hno : ∀ x, l.entries[k]? = some x → x.term ≠ e.term := by
        intro x hx hterm
        rw [holds_iff.mpr ⟨x, hindex ▸ hx, hterm⟩] at hhold
        cases hhold
      rw [l.appendEntries_diverges hk h hno]
      refine ⟨?_, prefix_append _ _, fun f hf => ?_⟩
      · rw [referenceMerge, dropWhile_cons_of_neg (by simp [hhold])]
        simp only [hindex]
      · exact Consecutive.holds_append (by simpa [hk] using h) hf

/-- Entries the log holds change nothing. -/
theorem appendEntries_of_holds (l : RaftLog)
    (h : ∀ e ∈ es, 0 < e.index ∧ holds l.entries e = true) : l.appendEntries es = l := by
  induction es with
  | nil => rfl
  | cons e es ih =>
    obtain ⟨⟨hpos, hhold⟩, hrest⟩ := forall_mem_cons.mp h
    obtain ⟨x, hx, hterm⟩ := holds_iff.mp hhold
    rw [appendEntries, foldl_cons, l.mergeEntry_skip (by omega) hx hterm]
    exact ih hrest

/-- **`AppendEntries` is the reference merge and tolerates repeats.**  Entries that
start within the log or right after it are merged as `referenceMerge` says, and
whatever stretch of them comes again leaves the log as it is. -/
theorem appendEntries_merges (l : RaftLog) (k : ℕ) (es : List RaftLogEntry)
    (hk : k ≤ l.entries.length) (hes : Consecutive k es) :
    (l.appendEntries es).entries = referenceMerge l.entries es ∧
      ∀ fs, fs <:+: es → (l.appendEntries es).appendEntries fs = l.appendEntries es := by
  obtain ⟨hmerge, -, hheld⟩ := l.appendEntries_spec hk hes
  refine ⟨hmerge, fun fs hfs => appendEntries_of_holds _ fun e he => ?_⟩
  obtain ⟨j, hj⟩ := mem_iff_getElem?.mp (hfs.subset he)
  exact ⟨by rw [hes j e hj]; omega, hheld e (hfs.subset he)⟩

/-- A log of terms 1, 1, 2 meets entries 2 and 3 of terms 1 and 3. -/
theorem appendEntries_merges_conflict :
    let l := RaftLog.empty.appendEntries [⟨1, 1, .noop, []⟩, ⟨2, 1, .noop, []⟩, ⟨3, 2, .noop, []⟩]
    let es := [⟨2, 1, .noop, []⟩, ⟨3, 3, .noop, []⟩]
    (l.appendEntries es).entries = [⟨1, 1, .noop, []⟩, ⟨2, 1, .noop, []⟩, ⟨3, 3, .noop, []⟩] ∧
      (l.appendEntries es).appendEntries [⟨3, 3, .noop, []⟩] = l.appendEntries es := by
  intro l es
  have hes : Consecutive 1 es := by
    intro j e he
    match j with
    | 0 | 1 => cases he; rfl
    | j + 2 => cases he
  obtain ⟨hmerge, hagain⟩ := appendEntries_merges l 1 es (by decide) hes
  exact ⟨hmerge.trans (by decide), hagain _ ⟨[⟨2, 1, .noop, []⟩], [], rfl⟩⟩

end RaftLog

end TransDb.Raft
