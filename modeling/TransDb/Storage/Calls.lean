import Mathlib.Data.List.Induction
import TransDb.Storage.Exact

/-!
# Reads after a sequence of calls

What `Get` and a scan answer after any sequence of `Put` and `Delete` calls, compared with
the call that should decide: the one on exactly that row with the largest timestamp at or
below the snapshot, and the latest of those for equal timestamps.

* `StoreCall.newest` — the call that should decide a read.
* `newest_spec` — it wrote the newest version of the row.
* `get_eq_answer_iff` — **a point read answers what that call says, unless it is a `Put` of
  the tombstone byte or the version of another row stands in the way.**
* `scan_store` — **a scan of a table with prefix-free keys shows the `Put`s that decide.**
-/

namespace TransDb.Storage

open List

/-- A call that writes a version. -/
inductive StoreCall
  | put (tableId : TableId) (key : Bytes) (writeTs : Timestamp) (value : Bytes)
  | delete (tableId : TableId) (key : Bytes) (writeTs : Timestamp)
  deriving DecidableEq

namespace StoreCall

/-- The table of a call. -/
def tableId : StoreCall → TableId
  | put t _ _ _ => t
  | delete t _ _ => t

/-- Its key. -/
def key : StoreCall → Bytes
  | put _ k _ _ => k
  | delete _ k _ => k

/-- Its timestamp. -/
def writeTs : StoreCall → Timestamp
  | put _ _ ts _ => ts
  | delete _ _ ts => ts

/-- What it does to the store. -/
def run (s : MVCCStore) : StoreCall → MVCCStore
  | put t k ts v => s.put t k ts v
  | delete t k ts => s.delete t k ts

/-- The store after some calls, from an empty one. -/
def store (calls : List StoreCall) : MVCCStore := calls.foldl run SortedMap.empty

/-- The call is on the row, at or below the snapshot. -/
def counts (t : TableId) (k : Bytes) (snap : Timestamp) (c : StoreCall) : Bool :=
  decide (c.tableId = t) && decide (c.key = k) && decide (c.writeTs ≤ snap)

/-- The call on a row with the largest timestamp not above the snapshot, and the latest of
those for equal timestamps. -/
def newest (t : TableId) (k : Bytes) (snap : Timestamp) (calls : List StoreCall) :
    Option StoreCall :=
  calls.foldl (fun best c =>
    if c.counts t k snap && best.all (fun b => decide (b.writeTs ≤ c.writeTs)) then some c else best)
    none

/-- What a read should answer: the value and the timestamp of a `Put`, or `NotFound`. -/
def answer : Option StoreCall → Option (Bytes × Timestamp)
  | some (put _ _ ts v) => some (v, ts)
  | some (delete _ _ _) => none
  | none => none

/-! ## The versions that calls leave -/

/-- The bytes that are stored. -/
def stored : StoreCall → Bytes
  | put _ _ _ v => v
  | delete _ _ _ => tombstone

/-- The key of the version. -/
def encoded (c : StoreCall) : Bytes := encodeKey c.tableId c.key c.writeTs

theorem run_eq (s : MVCCStore) (c : StoreCall) : c.run s = s.put c.tableId c.key c.writeTs c.stored := by
  cases c <;> rfl

theorem store_concat (calls : List StoreCall) (c : StoreCall) :
    store (calls ++ [c]) = c.run (store calls) := by
  simp [store]

theorem newest_concat (t : TableId) (k : Bytes) (snap : Timestamp) (calls : List StoreCall)
    (c : StoreCall) :
    newest t k snap (calls ++ [c]) =
      if c.counts t k snap && (newest t k snap calls).all (fun b => decide (b.writeTs ≤ c.writeTs))
      then some c else newest t k snap calls := by
  simp [newest]

variable {t : TableId} {k : Bytes} {snap : Timestamp} {c : StoreCall} {calls : List StoreCall}
    {o : Option StoreCall}

theorem counts_iff : c.counts t k snap = true ↔ c.tableId = t ∧ c.key = k ∧ c.writeTs ≤ snap := by
  simp [counts, and_assoc]

theorem version_store_concat (calls : List StoreCall) (c : StoreCall) (t : TableId) (k : Bytes)
    (ts : Timestamp) :
    MVCCStore.version (store (calls ++ [c])) t k ts =
      if t = c.tableId ∧ k = c.key ∧ ts = c.writeTs then some c.stored
      else MVCCStore.version (store calls) t k ts := by
  rw [store_concat, run_eq, MVCCStore.version_put]

/-- All keys of the store are keys of versions. -/
theorem store_keys (calls : List StoreCall) :
    ∀ e ∈ (store calls).entries, ∃ t k ts, e.1 = encodeKey t k ts := by
  induction calls using reverseRecOn with
  | nil => exact fun e he => absurd he not_mem_nil
  | append_singleton calls c ih =>
    rw [store_concat, run_eq]
    exact MVCCStore.put_keys ih _ _ _ _

/-- A version is there if a call wrote it. -/
theorem version_store_ne_none_iff (calls : List StoreCall) (t : TableId) (k : Bytes) (ts : Timestamp) :
    MVCCStore.version (store calls) t k ts ≠ none ↔
      ∃ c ∈ calls, c.tableId = t ∧ c.key = k ∧ c.writeTs = ts := by
  induction calls using reverseRecOn with
  | nil =>
    have hnone : MVCCStore.version (store []) t k ts = none := SortedMap.find_empty _
    simp [hnone]
  | append_singleton calls c ih =>
    rw [version_store_concat]
    by_cases hc : t = c.tableId ∧ k = c.key ∧ ts = c.writeTs
    · rw [if_pos hc]
      obtain ⟨rfl, rfl, rfl⟩ := hc
      exact ⟨fun _ => ⟨c, by simp, rfl, rfl, rfl⟩, fun _ => Option.some_ne_none _⟩
    · rw [if_neg hc, ih]
      constructor
      · rintro ⟨c', hc', hrow⟩
        exact ⟨c', mem_append_left _ hc', hrow⟩
      · rintro ⟨c', hc', rfl, rfl, rfl⟩
        rcases mem_append.mp hc' with hin | hin
        · exact ⟨c', hin, rfl, rfl, rfl⟩
        · obtain rfl := mem_singleton.mp hin
          exact absurd ⟨rfl, rfl, rfl⟩ hc

theorem version_store_encoded (hc : c ∈ calls) : ∃ v, (c.encoded, v) ∈ (store calls).entries := by
  have hne := (version_store_ne_none_iff calls c.tableId c.key c.writeTs).mpr ⟨c, hc, rfl, rfl, rfl⟩
  obtain ⟨v, hv⟩ := Option.ne_none_iff_exists'.mp hne
  exact ⟨v, (store calls).find_eq_some_iff.mp hv⟩

/-- Each entry of the store was written by a call. -/
theorem exists_call_of_entry {e : Bytes × Bytes} (he : e ∈ (store calls).entries) :
    ∃ c ∈ calls, e.1 = c.encoded := by
  obtain ⟨t, k, ts, hkey⟩ := store_keys calls e he
  have hmem : (encodeKey t k ts, e.2) ∈ (store calls).entries := hkey ▸ he
  obtain ⟨c, hc, rfl, rfl, rfl⟩ :=
    (version_store_ne_none_iff calls t k ts).mp (MVCCStore.version_ne_none hmem)
  exact ⟨c, hc, hkey⟩

/-! ## The call that decides -/

/-- What is known of the call that should decide a read, or if there is none. -/
def Decides (s : MVCCStore) (t : TableId) (k : Bytes) (snap : Timestamp) : Option StoreCall → Prop
  | none => ∀ ts, ts ≤ snap → MVCCStore.version s t k ts = none
  | some c => c.tableId = t ∧ c.key = k ∧ MVCCStore.Newest s t k snap c.writeTs c.stored

/-- A call that does not count leaves the versions up to the snapshot as they are. -/
theorem Decides.skip (h : Decides (store calls) t k snap o) (hc : c.counts t k snap = false) :
    Decides (store (calls ++ [c])) t k snap o := by
  have hsame : ∀ ts, ts ≤ snap →
      MVCCStore.version (store (calls ++ [c])) t k ts = MVCCStore.version (store calls) t k ts := by
    intro ts hle
    rw [version_store_concat, if_neg]
    rintro ⟨rfl, rfl, rfl⟩
    rw [counts_iff.mpr ⟨rfl, rfl, hle⟩] at hc
    cases hc
  cases o with
  | none => exact fun ts hle => (hsame ts hle).trans (h ts hle)
  | some b => exact ⟨h.1, h.2.1, (MVCCStore.newest_congr hsame).mpr h.2.2⟩

/-- A call with a smaller timestamp than the one that decides does not change it. -/
theorem Decides.older {b : StoreCall} (h : Decides (store calls) t k snap (some b))
    (hlt : c.writeTs < b.writeTs) : Decides (store (calls ++ [c])) t k snap (some b) := by
  obtain ⟨ht, hk, hver, hle, hnew⟩ := h
  have hsame : ∀ ts, b.writeTs ≤ ts →
      MVCCStore.version (store (calls ++ [c])) t k ts = MVCCStore.version (store calls) t k ts := by
    intro ts hge
    rw [version_store_concat, if_neg]
    rintro ⟨-, -, rfl⟩
    exact UInt64.not_lt.mpr hge hlt
  refine ⟨ht, hk, (hsame _ (UInt64.le_refl _)).trans hver, hle, ?_⟩
  intro ts' hts' hle'
  exact (hsame ts' (UInt64.le_of_lt hts')).trans (hnew ts' hts' hle')

/-- A call that counts, with no larger timestamp before it, decides. -/
theorem Decides.take (h : Decides (store calls) t k snap o) (hc : c.counts t k snap = true)
    (ho : ∀ b ∈ o, b.writeTs ≤ c.writeTs) : Decides (store (calls ++ [c])) t k snap (some c) := by
  obtain ⟨rfl, rfl, hle⟩ := counts_iff.mp hc
  refine ⟨rfl, rfl, ?_, hle, ?_⟩
  · rw [version_store_concat, if_pos ⟨rfl, rfl, rfl⟩]
  · intro ts' hlt hle'
    rw [version_store_concat, if_neg]
    · cases o with
      | none => exact h ts' hle'
      | some b => exact h.2.2.2.2 ts' (UInt64.lt_of_le_of_lt (ho b rfl) hlt) hle'
    · rintro ⟨-, -, rfl⟩
      exact UInt64.lt_irrefl _ hlt

/-- **The call that should decide a read wrote the newest version of the row.** -/
theorem newest_spec (t : TableId) (k : Bytes) (snap : Timestamp) (calls : List StoreCall) :
    Decides (store calls) t k snap (newest t k snap calls) := by
  induction calls using reverseRecOn with
  | nil => exact fun ts _ => SortedMap.find_empty _
  | append_singleton calls c ih =>
    rw [newest_concat]
    by_cases hc : c.counts t k snap = true
    · rw [hc, Bool.true_and]
      by_cases hall : (newest t k snap calls).all (fun b => decide (b.writeTs ≤ c.writeTs)) = true
      · rw [if_pos hall]
        refine ih.take hc fun b hb => ?_
        exact of_decide_eq_true (Option.all_eq_true _ _ |>.mp hall b hb)
      · rw [if_neg hall]
        cases ho : newest t k snap calls with
        | none => simp [ho] at hall
        | some b =>
          rw [ho] at hall ih
          have hlt : c.writeTs < b.writeTs := by simpa using hall
          exact ih.older hlt
    · have hc' : c.counts t k snap = false := Bool.eq_false_iff.mpr hc
      rw [hc', Bool.false_and, if_neg Bool.false_ne_true]
      exact ih.skip hc'

end StoreCall

/-! ## Point reads -/

namespace MVCCStore

variable {s : MVCCStore} {t : TableId} {k : Bytes} {snap : Timestamp}

/-- A read finds nothing if the newest version is a tombstone. -/
theorem Newest.get_tombstone {ts : Timestamp} (h : Newest s t k snap ts tombstone) :
    get s t k snap = none := by
  cases hget : get s t k snap with
  | none => rfl
  | some r =>
    obtain ⟨v, ts'⟩ := r
    obtain ⟨hver, hle, hvalue, hnew⟩ := get_eq_some hget
    obtain ⟨-, rfl⟩ := h.unique ⟨hver, hle, hnew⟩
    exact absurd hvalue (by decide)

/-- A read finds nothing if there is no version up to the snapshot. -/
theorem get_eq_none_of_version (h : ∀ ts, ts ≤ snap → version s t k ts = none) :
    get s t k snap = none := by
  cases hget : get s t k snap with
  | none => rfl
  | some r =>
    obtain ⟨v, ts⟩ := r
    obtain ⟨hver, hle, -⟩ := get_eq_some hget
    rw [h ts hle] at hver
    cases hver

end MVCCStore

namespace StoreCall

theorem isTombstone_eq_false_iff {v : Bytes} : isTombstone v = false ↔ v ≠ tombstone := by
  simp [isTombstone]

/-- **A point read answers what the newest call on its row says**, if that is a `Delete` or
there is none.  If it is a `Put`, the read answers it exactly if the value is not the
tombstone byte and no call on another row wrote a key between the start of the row and
this version. -/
theorem get_eq_answer_iff (calls : List StoreCall) (t : TableId) (k : Bytes) (snap : Timestamp) :
    (store calls).get t k snap = answer (newest t k snap calls) ↔
      ∀ ts v, newest t k snap calls = some (put t k ts v) → v ≠ tombstone ∧
        ∀ c ∈ calls, ¬ (c.tableId = t ∧ c.key = k) →
          ¬ (encodeKeyPrefixNewest t k ≤ c.encoded ∧ c.encoded < encodeKey t k ts) := by
  have hspec := newest_spec t k snap calls
  cases hnew : newest t k snap calls with
  | none =>
    rw [hnew] at hspec
    refine ⟨fun _ ts v heq => (nomatch heq), fun _ => ?_⟩
    exact MVCCStore.get_eq_none_of_version hspec
  | some c =>
    rw [hnew] at hspec
    obtain ⟨ht, hk, hnewest⟩ := hspec
    cases c with
    | delete t' k' ts =>
      refine ⟨fun _ ts v heq => (nomatch heq), fun _ => ?_⟩
      exact hnewest.get_tombstone
    | put t' k' ts v =>
      obtain rfl : t' = t := ht
      obtain rfl : k' = k := hk
      have hnewest : MVCCStore.Newest (store calls) t' k' snap ts v := hnewest
      show (store calls).get t' k' snap = some (v, ts) ↔ _
      rw [hnewest.get_iff, isTombstone_eq_false_iff]
      constructor
      · rintro ⟨hvalue, hrow⟩ ts' v' heq
        cases heq
        refine ⟨hvalue, fun c hc hother hbetween => hother ?_⟩
        obtain ⟨w, hentry⟩ := version_store_encoded hc
        obtain ⟨w', hw'⟩ := hrow _ hentry hbetween.1 hbetween.2
        obtain ⟨ht, hk, -⟩ := encodeKey_inj hw'
        exact ⟨ht, hk⟩
      · intro h
        obtain ⟨hvalue, hrow⟩ := h ts v rfl
        refine ⟨hvalue, fun e he hstart hlt => ?_⟩
        obtain ⟨c, hc, hkey⟩ := exists_call_of_entry he
        by_cases hsame : c.tableId = t' ∧ c.key = k'
        · obtain ⟨rfl, rfl⟩ := hsame
          exact ⟨c.writeTs, hkey⟩
        · rw [hkey] at hstart hlt
          exact absurd ⟨hstart, hlt⟩ (hrow c hc hsame)

/-- Rows `1` and `10` are put, and the first is not found: the inverted timestamp of a version
starts with large bytes, so the versions of `10` come before it. -/
theorem get_hidden_by_longer_key :
    (store [put 1 [49] 5 [65], put 1 [49, 48] 6 [66]]).get 1 [49] 10 = none ∧
      answer (newest 1 [49] 10 [put 1 [49] 5 [65], put 1 [49, 48] 6 [66]]) = some ([65], 5) := by
  decide +kernel

/-- The value of one zero byte is put, and is not found. -/
example : (store [put 1 [49] 5 [0]]).get 1 [49] 10 = none ∧
    answer (newest 1 [49] 10 [put 1 [49] 5 [0]]) = some ([0], 5) := by
  decide +kernel

/-! ## Scans -/

variable {calls : List StoreCall} {t : TableId}

/-- Calls whose keys of a table are prefix-free leave a table like that. -/
theorem prefixFreeIn_store
    (h : ∀ c ∈ calls, ∀ c' ∈ calls, c.tableId = t → c'.tableId = t → c.key <+: c'.key →
      c.key = c'.key) : MVCCStore.PrefixFreeIn (store calls) t := by
  refine ⟨store_keys calls, ?_⟩
  intro k k' ts ts' hk hk' hpre
  obtain ⟨c, hc, ht, rfl, -⟩ := (version_store_ne_none_iff calls t k ts).mp hk
  obtain ⟨c', hc', ht', rfl, -⟩ := (version_store_ne_none_iff calls t k' ts').mp hk'
  exact h c hc c' hc' ht ht' hpre

theorem mem_of_newest {k : Bytes} {snap : Timestamp} {c : StoreCall}
    (h : newest t k snap calls = some c) : c ∈ calls := by
  induction calls using reverseRecOn with
  | nil => cases h
  | append_singleton calls d ih =>
    rw [newest_concat] at h
    split_ifs at h with hd
    · cases h
      exact mem_append_right _ (mem_singleton_self _)
    · exact mem_append_left _ (ih h)

/-- If no `Put` stores the tombstone byte, the newest version of a row that is not a tombstone
is that of the `Put` that decides. -/
theorem newest_eq_put_iff {k : Bytes} {snap ts : Timestamp} {v : Bytes}
    (hvalues : ∀ t k ts, put t k ts tombstone ∉ calls) :
    newest t k snap calls = some (put t k ts v) ↔
      MVCCStore.Newest (store calls) t k snap ts v ∧ isTombstone v = false := by
  have hspec := newest_spec t k snap calls
  constructor
  · intro hnew
    rw [hnew] at hspec
    refine ⟨hspec.2.2, isTombstone_eq_false_iff.mpr ?_⟩
    rintro rfl
    exact hvalues t k ts (mem_of_newest hnew)
  · rintro ⟨hnewest, hvalue⟩
    cases hnew : newest t k snap calls with
    | none =>
      rw [hnew] at hspec
      have hnone := hspec ts hnewest.2.1
      rw [hnewest.1] at hnone
      cases hnone
    | some c =>
      rw [hnew] at hspec
      obtain ⟨ht, hk, hc⟩ := hspec
      obtain ⟨hts, hv⟩ := hc.unique hnewest
      cases c with
      | delete t' k' ts' =>
        rw [← hv] at hvalue
        exact absurd hvalue (show ¬ isTombstone tombstone = false by decide)
      | put t' k' ts' v' =>
        obtain rfl : t' = t := ht
        obtain rfl : k' = k := hk
        obtain rfl : ts' = ts := hts
        obtain rfl : v' = v := hv
        rfl

/-- **Scans of tables with prefix-free keys are exact**: the rows are those in the range for
which the newest call is a `Put`, with its value and timestamp, once and in the order of
their keys.  The other tables may have any keys, and the ends of the range may be any. -/
theorem scan_store (calls : List StoreCall) (r : ScanRange) (snap : Timestamp)
    (hvalues : ∀ t k ts, put t k ts tombstone ∉ calls)
    (hkeys : ∀ c ∈ calls, ∀ c' ∈ calls, c.tableId = r.tableId → c'.tableId = r.tableId →
      c.key <+: c'.key → c.key = c'.key) :
    (∀ row, row ∈ (store calls).scan r snap ↔ r.contains row.pk = true ∧
      newest r.tableId row.pk snap calls = some (put r.tableId row.pk row.writeTs row.value)) ∧
    ((store calls).scan r snap).Pairwise fun a b => a.pk < b.pk := by
  have hfree : MVCCStore.PrefixFreeIn (store calls) r.tableId := prefixFreeIn_store hkeys
  refine ⟨fun row => ?_, hfree.scan_exact.2⟩
  rw [hfree.scan_exact.1, newest_eq_put_iff hvalues]
  exact Iff.rfl

/-- Two rows, of which one is deleted later, beside a table with the keys `1` and `10`. -/
def besideOtherTable : List StoreCall :=
  [put 1 [49] 1 [65], put 1 [49, 48] 1 [66], put 2 [65] 2 [67], put 2 [66] 3 [68], delete 2 [65] 4]

theorem scan_store_besideOtherTable :
    (store besideOtherTable).scan ⟨2, [], [], true⟩ 9 = [⟨[66], [68], 3⟩] ∧
      ∀ row, row ∈ (store besideOtherTable).scan ⟨2, [], [], true⟩ 9 ↔
        (ScanRange.mk 2 [] [] true).contains row.pk = true ∧
          newest 2 row.pk 9 besideOtherTable = some (put 2 row.pk row.writeTs row.value) :=
  ⟨by decide +kernel,
    (scan_store besideOtherTable ⟨2, [], [], true⟩ 9 (by simp [besideOtherTable, tombstone])
      (by decide)).1⟩

end StoreCall

end TransDb.Storage
