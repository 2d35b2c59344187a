import TransDb.Storage.MvccStore

/-!
# Reads on prefix-free keys

Keys of versions have no separator between the primary key and the timestamp, so the
versions of two rows can interleave if one primary key is a prefix of the other.  Where no
primary key of a table is a proper prefix of another one, the versions of a row are next
to each other, and point reads and scans are exact.

* `MVCCStore.Newest` — the newest version of a row at or below a timestamp.
* `MVCCStore.PrefixFree` — the stores that are meant; `PrefixFreeIn` asks this of one table only.
* `get_iff` — **a point read finds the newest version, unless it is a tombstone.**
* `mem_scan_iff`, `scan_sorted` — **a scan shows these versions of the rows in its range,
  once and in order.**
-/

namespace TransDb.Storage

open List

/-! ## The order of keys -/

/-- What follows two strings does not matter for their order, if none is a prefix. -/
theorem append_lt_append_of_lt : ∀ {a b : Bytes}, a < b → ¬ a <+: b → ∀ x y, a ++ x < b ++ y
  | [], _, _, hp, _, _ => absurd (List.nil_prefix) hp
  | _ :: _, [], h, _, _, _ => absurd h (List.not_lt_nil _)
  | c :: a, d :: b, h, hp, x, y => by
    rw [List.cons_append, List.cons_append]
    rcases List.cons_lt_cons_iff.mp h with hlt | ⟨rfl, hlt⟩
    · exact List.cons_lt_cons_iff.mpr (.inl hlt)
    · have hp' : ¬ a <+: b := fun hab => hp (List.cons_prefix_cons.mpr ⟨rfl, hab⟩)
      exact List.cons_lt_cons_iff.mpr (.inr ⟨rfl, append_lt_append_of_lt hlt hp' x y⟩)

theorem encodeKey_lt_of_table {t t' : TableId} (h : t < t') (k k' : Bytes) (ts ts' : Timestamp) :
    encodeKey t k ts < encodeKey t' k' ts' := by
  have hlt : beBytes 4 t.toNat < beBytes 4 t'.toNat := beBytes_lt t'.toNat_lt h
  refine append_lt_append_of_lt hlt ?_ _ _
  intro hp
  rw [hp.eq_of_length (by simp)] at hlt
  exact lt_irrefl _ hlt

theorem encodeKey_lt_of_key (t : TableId) {k k' : Bytes} (h : k < k') (hp : ¬ k <+: k')
    (ts ts' : Timestamp) : encodeKey t k ts < encodeKey t k' ts' :=
  append_left_lt (append_lt_append_of_lt h hp _ _)

/-- What lies between two versions of a row is a version of it, if the primary keys are
not prefixes of one another. -/
theorem encodeKey_between {t t' : TableId} {k k' : Bytes} {ts ts' w : Timestamp}
    (h1 : encodeKey t k ts ≤ encodeKey t' k' w) (h2 : encodeKey t' k' w ≤ encodeKey t k ts')
    (hp : t' = t → k <+: k' ∨ k' <+: k → k' = k) : t' = t ∧ k' = k := by
  have ht : t' = t := by
    rcases lt_trichotomy t'.toNat t.toNat with hlt | heq | hlt
    · exact absurd h1 (not_le.mpr (encodeKey_lt_of_table hlt _ _ _ _))
    · exact UInt32.toNat_inj.mp heq
    · exact absurd h2 (not_le.mpr (encodeKey_lt_of_table hlt _ _ _ _))
  subst ht
  refine ⟨rfl, ?_⟩
  by_contra hne
  rcases lt_trichotomy k' k with hlt | heq | hlt
  · exact absurd h1 (not_le.mpr
      (encodeKey_lt_of_key _ hlt (fun hpre => hne (hp rfl (.inr hpre))) _ _))
  · exact hne heq
  · exact absurd h2 (not_le.mpr
      (encodeKey_lt_of_key _ hlt (fun hpre => hne (hp rfl (.inl hpre))) _ _))

namespace MVCCStore

/-- The newest version of a row at or below a timestamp. -/
def Newest (s : MVCCStore) (t : TableId) (k : Bytes) (snap ts : Timestamp) (v : Bytes) : Prop :=
  version s t k ts = some v ∧ ts ≤ snap ∧ ∀ ts', ts < ts' → ts' ≤ snap → version s t k ts' = none

variable {t : TableId} {snap ts : Timestamp} {s : MVCCStore} {k : Bytes} {v : Bytes}

theorem Newest.unique {snap ts ts' : Timestamp}
    {v v' : Bytes} (h : Newest s t k snap ts v) (h' : Newest s t k snap ts' v') :
    ts = ts' ∧ v = v' := by
  have hts : ts = ts' := by
    rcases lt_trichotomy ts.toNat ts'.toNat with hlt | heq | hlt
    · have hnone := h.2.2 ts' hlt h'.2.1
      rw [h'.1] at hnone
      cases hnone
    · exact UInt64.toNat_inj.mp heq
    · have hnone := h'.2.2 ts hlt h.2.1
      rw [h.1] at hnone
      cases hnone
  subst hts
  exact ⟨rfl, Option.some.inj (h.1.symm.trans h'.1)⟩

/-- Versions above the timestamp do not matter. -/
theorem newest_congr {s s' : MVCCStore} {snap : Timestamp}
    (h : ∀ ts, ts ≤ snap → version s' t k ts = version s t k ts) {ts : Timestamp} :
    Newest s' t k snap ts v ↔ Newest s t k snap ts v := by
  unfold Newest
  constructor
  · rintro ⟨hver, hle, hnew⟩
    exact ⟨h ts hle ▸ hver, hle, fun ts' hlt hle' => h ts' hle' ▸ hnew ts' hlt hle'⟩
  · rintro ⟨hver, hle, hnew⟩
    exact ⟨(h ts hle).trans hver, hle, fun ts' hlt hle' => (h ts' hle').trans (hnew ts' hlt hle')⟩

/-- All keys are keys of versions, and no primary key of a table is a proper prefix of
another one. -/
structure PrefixFree (s : MVCCStore) : Prop where
  keys : ∀ e ∈ s.entries, ∃ t k ts, e.1 = encodeKey t k ts
  apart : ∀ t k k' ts ts', version s t k ts ≠ none → version s t k' ts' ≠ none → k <+: k' → k = k'

/-- The same for the primary keys of one table; the other tables may have any. -/
structure PrefixFreeIn (s : MVCCStore) (t : TableId) : Prop where
  keys : ∀ e ∈ s.entries, ∃ t k ts, e.1 = encodeKey t k ts
  apart : ∀ k k' ts ts', version s t k ts ≠ none → version s t k' ts' ≠ none → k <+: k' → k = k'

theorem PrefixFree.inTable (h : PrefixFree s) (t : TableId) : PrefixFreeIn s t :=
  ⟨h.keys, h.apart t⟩

section Row

variable {t' : TableId} {k' : Bytes} {ts' w : Timestamp} {v' : Bytes}

theorem version_ne_none (h : (encodeKey t k ts, v) ∈ s.entries) : version s t k ts ≠ none := by
  rw [show version s t k ts = some v from s.find_eq_some_iff.mpr h]
  simp

/-- Two rows of the store, of which one has a prefix of the other's key, are the same. -/
theorem PrefixFreeIn.eq_of_prefix (h : PrefixFreeIn s t) (h1 : (encodeKey t k ts, v) ∈ s.entries)
    (h2 : (encodeKey t k' ts', v') ∈ s.entries) (hp : k <+: k' ∨ k' <+: k) : k' = k := by
  rcases hp with hp | hp
  · exact (h.apart k k' ts ts' (version_ne_none h1) (version_ne_none h2) hp).symm
  · exact h.apart k' k ts' ts (version_ne_none h2) (version_ne_none h1) hp

/-- The versions of a row are next to each other. -/
theorem PrefixFreeIn.between (h : PrefixFreeIn s t) {e : Bytes × Bytes} (he : e ∈ s.entries)
    (hk : (encodeKey t k ts', v) ∈ s.entries) (h1 : encodeKey t k ts ≤ e.1)
    (h2 : e.1 ≤ encodeKey t k ts') : ∃ w, e.1 = encodeKey t k w := by
  obtain ⟨t', k', w, hkey⟩ := h.keys e he
  have hmem : (encodeKey t' k' w, e.2) ∈ s.entries := hkey ▸ he
  rw [hkey] at h1 h2
  obtain ⟨rfl, rfl⟩ := encodeKey_between h1 h2 fun ht hp => by
    subst ht
    exact h.eq_of_prefix hk hmem hp
  exact ⟨w, hkey⟩

/-- Rows are in the order of their keys. -/
theorem PrefixFreeIn.key_lt (h : PrefixFreeIn s t) (h1 : (encodeKey t k ts, v) ∈ s.entries)
    (h2 : (encodeKey t k' ts', v') ∈ s.entries) (hlt : encodeKey t k ts < encodeKey t k' ts')
    (hne : k' ≠ k) : k < k' := by
  rcases lt_trichotomy k k' with hkk | rfl | hkk
  · exact hkk
  · exact absurd rfl hne
  · have hnot : ¬ k' <+: k := fun hp => hne (h.eq_of_prefix h1 h2 (.inr hp))
    exact absurd (hlt.trans (encodeKey_lt_of_key t hkk hnot ts' ts)) (lt_irrefl _)

end Row

/-! ## Point reads -/

/-- The loop of `Get` skips the versions above the snapshot. -/
theorem getLoop_of_newest {it : List (Bytes × Bytes)} (hsorted : it.Pairwise fun a b => a.1 < b.1)
    (hrow : ∀ e ∈ it, e.1 ≤ encodeKey t k ts → ∃ w, e.1 = encodeKey t k w)
    (hmem : (encodeKey t k ts, v) ∈ it) (hle : ts ≤ snap) (hvalue : isTombstone v = false)
    (hnew : ∀ w v', ts < w → w ≤ snap → (encodeKey t k w, v') ∉ it) :
    getLoop t k snap it = some (v, ts) := by
  induction it with
  | nil => cases hmem
  | cons e it ih =>
    obtain ⟨hhead, htail⟩ := pairwise_cons.mp hsorted
    unfold getLoop
    rcases mem_cons.mp hmem with rfl | hmem
    · simp [decodeKey_encodeKey, hle, hvalue]
    · have hlt := hhead _ hmem
      obtain ⟨w, hw⟩ := hrow e mem_cons_self hlt.le
      -- a version before the newest one is above the snapshot
      have hgt : ts < w := by
        by_contra hnot
        have hle' : w ≤ ts := UInt64.not_lt.mp hnot
        rw [hw] at hlt
        rcases UInt64.lt_or_eq_of_le hle' with hwt | rfl
        · exact absurd (hlt.trans (encodeKey_lt t k hwt)) (lt_irrefl _)
        · exact lt_irrefl _ hlt
      have hhigh : ¬ w ≤ snap := fun hws =>
        hnew w e.2 hgt hws (hw ▸ mem_cons_self)
      rw [hw, decodeKey_encodeKey]
      simp only [ne_eq, not_true_eq_false, or_self, if_false, hhigh]
      exact ih htail (fun e' he' => hrow e' (mem_cons_of_mem _ he')) hmem
        (fun w' v' h1 h2 hin => hnew w' v' h1 h2 (mem_cons_of_mem _ hin))

/-- A read that should find the newest version of a row does so, unless it is a tombstone or
another row's version stands between the start of the row and it. -/
theorem Newest.get_iff (h : Newest s t k snap ts v) :
    get s t k snap = some (v, ts) ↔ isTombstone v = false ∧
      ∀ e ∈ s.entries, encodeKeyPrefixNewest t k ≤ e.1 → e.1 < encodeKey t k ts →
        ∃ w, e.1 = encodeKey t k w := by
  obtain ⟨hver, hle, hnew⟩ := h
  constructor
  · intro hget
    obtain ⟨-, -, hvalue, hbefore⟩ := getLoop_eq_some (s.sorted_seek _) hget
    refine ⟨hvalue, fun e he hstart hlt => ?_⟩
    obtain ⟨w, hw, -⟩ := hbefore e (SortedMap.mem_seek he hstart) hlt
    exact ⟨w, hw⟩
  · rintro ⟨hvalue, hrow⟩
    have hmem : (encodeKey t k ts, v) ∈ s.entries := s.find_eq_some_iff.mp hver
    refine getLoop_of_newest (s.sorted_seek _) ?_
      (SortedMap.mem_seek hmem (encodeKeyPrefixNewest_le t k ts)) hle hvalue ?_
    · intro e he hbefore
      rcases lt_or_eq_of_le hbefore with hlt | heq
      · exact hrow e (SortedMap.mem_of_mem_seek he) (SortedMap.le_of_mem_seek he) hlt
      · exact ⟨ts, heq⟩
    · intro w v' hlt hws hin
      exact version_ne_none (SortedMap.mem_of_mem_seek hin) (hnew w hlt hws)

/-- **Point reads are exact**: they find the newest version, unless it is a tombstone. -/
theorem PrefixFreeIn.get_iff (h : PrefixFreeIn s t)
    :
    get s t k snap = some (v, ts) ↔ Newest s t k snap ts v ∧ isTombstone v = false := by
  constructor
  · intro hget
    obtain ⟨hver, hle, hvalue, hnew⟩ := get_eq_some hget
    exact ⟨⟨hver, hle, hnew⟩, hvalue⟩
  · rintro ⟨hnewest, hvalue⟩
    refine hnewest.get_iff.mpr ⟨hvalue, fun e he hstart hlt => ?_⟩
    exact h.between he (s.find_eq_some_iff.mp hnewest.1) hstart hlt.le

theorem PrefixFree.get_iff (h : PrefixFree s)
    :
    get s t k snap = some (v, ts) ↔ Newest s t k snap ts v ∧ isTombstone v = false :=
  (h.inTable t).get_iff

end MVCCStore

/-! ## Scans -/

/-- The primary keys that a scan is asked for. -/
def ScanRange.contains (r : ScanRange) (pk : Bytes) : Bool :=
  decide (r.startPk ≤ pk) && (r.openEndExclusive || decide (pk < r.endPkExclusive))

theorem ScanRange.contains_iff {r : ScanRange} {pk : Bytes} :
    r.contains pk = true ↔
      r.startPk ≤ pk ∧ (r.openEndExclusive = true ∨ pk < r.endPkExclusive) := by
  simp [contains]

/-- No string of at least that length comes before zeros. -/
theorem not_lt_replicate_zero : ∀ {n : ℕ} {l : Bytes}, n ≤ l.length → ¬ l < List.replicate n 0
  | 0, _, _, hlt => absurd hlt (List.not_lt_nil _)
  | n + 1, [], h, _ => absurd h (by simp)
  | n + 1, b :: l, h, hlt => by
    rw [List.replicate_succ] at hlt
    rcases List.cons_lt_cons_iff.mp hlt with hb | ⟨-, hl⟩
    · exact absurd hb UInt8.not_lt_zero
    · exact not_lt_replicate_zero (Nat.le_of_succ_le_succ h) hl

/-- Every version of a row in the range comes after the start of the scan. -/
theorem start_le_encodeKey {t : TableId} {start pk : Bytes} (h : start ≤ pk) (ts : Timestamp) :
    encodeKeyPrefixNewest t start ≤ encodeKey t pk ts := by
  by_cases hp : start <+: pk
  · obtain ⟨rest, rfl⟩ := hp
    unfold encodeKeyPrefixNewest encodeKey
    rw [append_assoc start]
    have hzero : beBytes 8 (invertTimestamp (-1)).toNat = replicate 8 0 := by decide
    rcases lt_trichotomy (replicate 8 0) (rest ++ beBytes 8 (invertTimestamp ts).toNat) with
      hlt | heq | hlt
    · rw [hzero]
      exact le_of_lt (append_left_lt (append_left_lt hlt))
    · rw [hzero, heq]
    · exact absurd hlt (not_lt_replicate_zero (by simp))
  · rcases lt_or_eq_of_le h with hlt | rfl
    · exact (encodeKey_lt_of_key t hlt hp _ _).le
    · exact absurd prefix_rfl hp

namespace MVCCIterator

theorem versionOf_encodeKey (t t' : TableId) (pk pk' : Bytes) (w : Timestamp) :
    versionOf t pk (encodeKey t' pk' w) = if t' = t ∧ pk' = pk then some w else none := by
  unfold versionOf
  rw [decodeKey_encodeKey]
  by_cases h : t' = t ∧ pk' = pk
  · simp [h]
  · have h' : t' ≠ t ∨ pk' ≠ pk := by
      by_contra hnot
      push Not at hnot
      exact h hnot
    simp only [if_pos h', if_neg h]

/-- What the loop for the visible version steps over, and where it stops. -/
theorem findVisible_split (t : TableId) (pk : Bytes) (snap : Timestamp) (it : List (Bytes × Bytes)) :
    ∃ passed, it = passed ++ (findVisible t pk snap it).2 ∧
      (∀ e ∈ passed, ∃ w, e.1 = encodeKey t pk w ∧ ¬ w ≤ snap) ∧
      match (findVisible t pk snap it).1 with
      | none => ∀ e ∈ (findVisible t pk snap it).2.head?, versionOf t pk e.1 = none
      | some (w, v) => (findVisible t pk snap it).2.head? = some (encodeKey t pk w, v) ∧ w ≤ snap := by
  induction it with
  | nil => exact ⟨[], rfl, by simp, by simp [findVisible]⟩
  | cons e it ih =>
    unfold findVisible
    cases hv : versionOf t pk e.1 with
    | none => exact ⟨[], rfl, by simp, by simp [hv]⟩
    | some w =>
      dsimp only
      have hkey := versionOf_eq_some hv
      split_ifs with hle
      · refine ⟨[], rfl, by simp, ?_⟩
        simp [hle, ← hkey]
      · obtain ⟨passed, hsplit, hpassed, hstop⟩ := ih
        refine ⟨e :: passed, by rw [cons_append, ← hsplit], ?_, hstop⟩
        exact forall_mem_cons.mpr ⟨⟨w, hkey, hle⟩, hpassed⟩

/-- What `skipRow` steps over, and where it stops. -/
theorem skipRow_split (t : TableId) (pk : Bytes) (it : List (Bytes × Bytes)) :
    ∃ passed, it = passed ++ skipRow t pk it ∧ (∀ e ∈ passed, ∃ w, e.1 = encodeKey t pk w) ∧
      ∀ e ∈ (skipRow t pk it).head?, versionOf t pk e.1 = none := by
  refine ⟨it.takeWhile fun e => (versionOf t pk e.1).isSome,
    takeWhile_append_dropWhile.symm, ?_, ?_⟩
  · intro e he
    have hsome := mem_takeWhile_imp he
    obtain ⟨w, hw⟩ := Option.isSome_iff_exists.mp hsome
    exact ⟨w, versionOf_eq_some hw⟩
  · intro e he
    have hnot := head?_dropWhile_not (fun e : Bytes × Bytes => (versionOf t pk e.1).isSome) it
    rw [show it.dropWhile _ = skipRow t pk it from rfl] at hnot
    cases hh : (skipRow t pk it).head? with
    | none => simp [hh] at he
    | some x =>
      rw [hh] at he hnot
      obtain rfl := Option.some.inj he
      simpa using hnot

/-- A row that a scan has to show. -/
def Shown (s : MVCCStore) (r : ScanRange) (snap : Timestamp) (row : ScanRow) : Prop :=
  r.contains row.pk = true ∧ MVCCStore.Newest s r.tableId row.pk snap row.writeTs row.value ∧
    isTombstone row.value = false

/-- The entry that a row is taken from. -/
def entryOf (t : TableId) (row : ScanRow) : Bytes × Bytes :=
  (encodeKey t row.pk row.writeTs, row.value)

/-- The iterator has passed no visible version of a row that it still has versions of. -/
structure Position (s : MVCCStore) (r : ScanRange) (snap : Timestamp) (it : List (Bytes × Bytes)) :
    Prop where
  suffix : it <:+ s.entries
  start : ∀ e ∈ it, encodeKeyPrefixNewest r.tableId r.startPk ≤ e.1
  whole : ∀ pk w v w' v', (encodeKey r.tableId pk w, v) ∈ it → r.startPk ≤ pk →
    (encodeKey r.tableId pk w', v') ∈ s.entries → w' ≤ snap → (encodeKey r.tableId pk w', v') ∈ it

/-- What a move of the iterator finds: the next row to show and what is left, or that
nothing is left to show. -/
def Advanced (s : MVCCStore) (r : ScanRange) (snap : Timestamp) (it : List (Bytes × Bytes)) :
    Option ScanRow × List (Bytes × Bytes) → Prop
  | (none, _) => ∀ row, Shown s r snap row → entryOf r.tableId row ∉ it
  | (some row, it') => Shown s r snap row ∧ entryOf r.tableId row ∈ it ∧ Position s r snap it' ∧
      it'.length < it.length ∧ it' ⊆ it ∧ (∀ e ∈ it', ∀ w, e.1 ≠ encodeKey r.tableId row.pk w) ∧
      ∀ row', Shown s r snap row' → entryOf r.tableId row' ∈ it →
        row' = row ∨ row.pk < row'.pk ∧ entryOf r.tableId row' ∈ it'

section Advance

variable {s : MVCCStore} {r : ScanRange} {snap : Timestamp} {it passed rest : List (Bytes × Bytes)}

theorem Position.sorted (h : Position s r snap it) : it.Pairwise fun a b => a.1 < b.1 :=
  s.sorted.sublist h.suffix.sublist

variable {e : Bytes × Bytes} {pk : Bytes} {it' : List (Bytes × Bytes)}

theorem Position.mem (h : Position s r snap it) (he : e ∈ it) : e ∈ s.entries :=
  h.suffix.subset he

/-- The iterator may step over rows of which nothing is left after it. -/
theorem Position.drop (h : Position s r snap (passed ++ rest))
    (hpassed : ∀ e ∈ passed, ∀ pk w, e.1 = encodeKey r.tableId pk w → r.startPk ≤ pk →
      ∀ e' ∈ rest, ∀ w', e'.1 ≠ encodeKey r.tableId pk w') : Position s r snap rest := by
  refine ⟨(suffix_append passed rest).trans h.suffix,
    fun e he => h.start e (mem_append_right _ he), ?_⟩
  intro pk w v w' v' hmem hstart hentry hle
  rcases mem_append.mp (h.whole pk w v w' v' (mem_append_right _ hmem) hstart hentry hle)
    with hin | hin
  · exact absurd rfl (hpassed _ hin pk w' rfl hstart _ hmem w)
  · exact hin

theorem head_le {e x : Bytes × Bytes} (h : (e :: it).Pairwise fun a b => a.1 < b.1)
    (hx : x ∈ e :: it) : e.1 ≤ x.1 := by
  rcases mem_cons.mp hx with rfl | hx
  · exact le_refl _
  · exact ((pairwise_cons.mp h).1 x hx).le

/-- Behind the versions of a row there are no more of them. -/
theorem Position.gone (hfree : s.PrefixFreeIn r.tableId) (h : Position s r snap (passed ++ rest))
    {x : Bytes × Bytes} {w : Timestamp} (hx : x ∈ passed) (hxkey : x.1 = encodeKey r.tableId pk w)
    (hstop : ∀ e ∈ rest.head?, versionOf r.tableId pk e.1 = none) :
    ∀ e ∈ rest, ∀ w', e.1 ≠ encodeKey r.tableId pk w' := by
  intro e he w' hkey
  cases rest with
  | nil => cases he
  | cons y rest =>
    have hy := hstop y rfl
    obtain ⟨-, hsorted, hcross⟩ := pairwise_append.mp h.sorted
    have hxy : x.1 < y.1 := hcross x hx y mem_cons_self
    have hmem : (encodeKey r.tableId pk w', e.2) ∈ s.entries :=
      hkey ▸ h.mem (mem_append_right _ he)
    obtain ⟨w2, hw2⟩ := hfree.between (h.mem (mem_append_right _ mem_cons_self)) hmem
      (hxkey ▸ hxy.le) (hkey ▸ head_le hsorted he)
    rw [hw2, versionOf_encodeKey, if_pos ⟨rfl, rfl⟩] at hy
    cases hy

/-- Entries that are not shown may be stepped over. -/
theorem Advanced.of_append {p : Option ScanRow × List (Bytes × Bytes)}
    (hpassed : ∀ row, Shown s r snap row → entryOf r.tableId row ∉ passed)
    (h : Advanced s r snap rest p) : Advanced s r snap (passed ++ rest) p := by
  obtain ⟨o, it'⟩ := p
  cases o with
  | none =>
    intro row hrow hmem
    rcases mem_append.mp hmem with hin | hin
    · exact hpassed row hrow hin
    · exact h row hrow hin
  | some row =>
    obtain ⟨hshown, hmem, hpos, hlen, hsub, hgone, hrest⟩ := h
    refine ⟨hshown, mem_append_right _ hmem, hpos, ?_,
      fun e he => mem_append_right _ (hsub he), hgone, ?_⟩
    · rw [length_append]
      omega
    · intro row' hrow' hmem'
      rcases mem_append.mp hmem' with hin | hin
      · exact absurd hin (hpassed row' hrow')
      · exact hrest row' hrow' hin

section

variable (hfree : s.PrefixFreeIn r.tableId)
include hfree

/-- If no version of a row is visible, the iterator steps over all that it has. -/
theorem Position.findVisible_none (h : Position s r snap it) {w : Timestamp}
    (he : it.head? = some e) (hkey : e.1 = encodeKey r.tableId pk w)
    (hfind : findVisible r.tableId pk snap it = (none, it')) :
    ∃ passed, it = passed ++ it' ∧ passed ≠ [] ∧ Position s r snap it' ∧
      ∀ row, Shown s r snap row → entryOf r.tableId row ∉ passed := by
  obtain ⟨passed, hsplit, hpassed, hstop⟩ := findVisible_split r.tableId pk snap it
  rw [hfind] at hsplit hstop
  dsimp only at hsplit hstop
  have hne : passed ≠ [] := by
    rintro rfl
    rw [nil_append] at hsplit
    have hnone := hstop e (hsplit ▸ he)
    rw [hkey, versionOf_encodeKey, if_pos ⟨rfl, rfl⟩] at hnone
    cases hnone
  obtain ⟨x, hx⟩ := exists_mem_of_ne_nil _ hne
  obtain ⟨wx, hxkey, -⟩ := hpassed x hx
  subst hsplit
  have hgone := h.gone hfree hx hxkey hstop
  refine ⟨passed, rfl, hne, h.drop ?_, ?_⟩
  · intro y hy pk' w' hykey _
    obtain ⟨wy, hykey', -⟩ := hpassed y hy
    obtain ⟨-, rfl, -⟩ := encodeKey_inj (hykey.symm.trans hykey')
    exact hgone
  · intro row hrow hin
    obtain ⟨wrow, hrowkey, hhigh⟩ := hpassed _ hin
    obtain ⟨-, -, hw⟩ := encodeKey_inj hrowkey
    exact hhigh (hw ▸ hrow.2.1.2.1)

/-- If a version of a row is visible, it is the newest such; the rest is stepped over. -/
theorem Position.findVisible_some (h : Position s r snap it) (hstart : r.startPk ≤ pk)
    {w : Timestamp} {v : Bytes} (hfind : findVisible r.tableId pk snap it = (some (w, v), it')) :
    MVCCStore.Newest s r.tableId pk snap w v ∧ (encodeKey r.tableId pk w, v) ∈ it ∧
      ∃ passed, it = passed ++ skipRow r.tableId pk it' ∧ passed ≠ [] ∧
        Position s r snap (skipRow r.tableId pk it') ∧
        (∀ e ∈ passed, ∃ w, e.1 = encodeKey r.tableId pk w) ∧
        ∀ e ∈ skipRow r.tableId pk it', ∀ w', e.1 ≠ encodeKey r.tableId pk w' := by
  obtain ⟨passed, hsplit, hpassed, hhead, hle⟩ :
      ∃ passed, it = passed ++ it' ∧ (∀ e ∈ passed, ∃ w, e.1 = encodeKey r.tableId pk w ∧ ¬ w ≤ snap) ∧
        it'.head? = some (encodeKey r.tableId pk w, v) ∧ w ≤ snap := by
    obtain ⟨passed, hsplit, hpassed, hstop⟩ := findVisible_split r.tableId pk snap it
    rw [hfind] at hsplit hstop
    exact ⟨passed, hsplit, hpassed, hstop⟩
  have hmem' : (encodeKey r.tableId pk w, v) ∈ it' := mem_of_head? hhead
  have hmem : (encodeKey r.tableId pk w, v) ∈ it := hsplit ▸ mem_append_right _ hmem'
  have hsorted' : it'.Pairwise fun a b => a.1 < b.1 := by
    have hall := h.sorted
    rw [hsplit] at hall
    exact (pairwise_append.mp hall).2.1
  refine ⟨⟨s.find_eq_some_iff.mpr (h.mem hmem), hle, ?_⟩, hmem, ?_⟩
  · -- a newer visible version would stand before the one that was found
    intro w' hlt hle'
    cases hv : MVCCStore.version s r.tableId pk w' with
    | none => rfl
    | some v' =>
      have hin := h.whole pk w v w' v' hmem hstart (s.find_eq_some_iff.mp hv) hle'
      rw [hsplit] at hin
      rcases mem_append.mp hin with hin | hin
      · obtain ⟨w2, hw2, hhigh⟩ := hpassed _ hin
        obtain ⟨-, -, rfl⟩ := encodeKey_inj hw2
        exact absurd hle' hhigh
      · cases it' with
        | nil => cases hhead
        | cons y rest =>
          cases hhead
          have hless := encodeKey_lt r.tableId pk hlt
          rcases mem_cons.mp hin with heq | hin
          · obtain ⟨-, -, rfl⟩ := encodeKey_inj (congrArg Prod.fst heq)
            exact absurd hless (lt_irrefl _)
          · exact absurd (hless.trans ((pairwise_cons.mp hsorted').1 _ hin)) (lt_irrefl _)
  · obtain ⟨more, hsplit', hmore, hstop⟩ := skipRow_split r.tableId pk it'
    have hmem2 : (encodeKey r.tableId pk w, v) ∈ more := by
      cases more with
      | nil =>
        rw [nil_append] at hsplit'
        rw [← hsplit'] at hstop
        have hnone := hstop _ hhead
        rw [versionOf_encodeKey, if_pos ⟨rfl, rfl⟩] at hnone
        cases hnone
      | cons y more =>
        rw [hsplit'] at hhead
        cases hhead
        exact mem_cons_self
    have hall : it = (passed ++ more) ++ skipRow r.tableId pk it' := by
      rw [append_assoc, ← hsplit', ← hsplit]
    have hrows : ∀ e ∈ passed ++ more, ∃ w, e.1 = encodeKey r.tableId pk w := by
      intro e he
      rcases mem_append.mp he with he | he
      · obtain ⟨w', hw', -⟩ := hpassed e he
        exact ⟨w', hw'⟩
      · exact hmore e he
    have hpos : Position s r snap ((passed ++ more) ++ skipRow r.tableId pk it') := hall ▸ h
    have hgone := hpos.gone hfree (mem_append_right _ hmem2) rfl hstop
    refine ⟨passed ++ more, hall, ne_nil_of_mem (mem_append_right _ hmem2), hpos.drop ?_,
      hrows, hgone⟩
    intro y hy pk' w' hykey _
    obtain ⟨wy, hykey'⟩ := hrows y hy
    obtain ⟨-, rfl, -⟩ := encodeKey_inj (hykey.symm.trans hykey')
    exact hgone

/-- **`Advance` finds the next row to show.** -/
theorem advance_exact (fuel : ℕ) : ∀ it : List (Bytes × Bytes),
    Position s r snap it → it.length ≤ fuel → Advanced s r snap it (advance r snap fuel it) := by
  induction fuel with
  | zero =>
    intro it _ hlen
    obtain rfl : it = [] := length_eq_zero_iff.mp (Nat.le_zero.mp hlen)
    exact fun row _ hin => absurd hin not_mem_nil
  | succ fuel ih =>
    intro it hpos hlen
    cases it with
    | nil => exact fun row _ hin => absurd hin not_mem_nil
    | cons e it =>
      obtain ⟨t, pk, w0, hkey⟩ := hfree.keys e (hpos.mem mem_cons_self)
      have hfirst : ∀ x ∈ e :: it, e.1 ≤ x.1 := fun x hx => head_le hpos.sorted hx
      -- going on behind entries that are not to be shown
      have hgo : ∀ passed rest, e :: it = passed ++ rest → passed ≠ [] → Position s r snap rest →
          (∀ row, Shown s r snap row → entryOf r.tableId row ∉ passed) →
          Advanced s r snap (e :: it) (advance r snap fuel rest) := by
        intro passed rest hsplit hne hrest hpassed
        rw [hsplit]
        refine Advanced.of_append hpassed (ih rest hrest ?_)
        have hlen' := congrArg length hsplit
        rw [length_append] at hlen'
        have hpositive := length_pos_of_ne_nil hne
        omega
      unfold advance
      rw [hkey, decodeKey_encodeKey]
      dsimp only
      by_cases ht : t = r.tableId
      · subst ht
        rw [if_neg (not_not.mpr rfl)]
        by_cases hend : r.openEndExclusive = false ∧ r.endPkExclusive ≤ pk
        · rw [if_pos hend]
          -- the rows that follow are behind the end, too
          intro row hrow hin
          have hrowpk : row.pk < r.endPkExclusive := by
            rcases (ScanRange.contains_iff.mp hrow.1).2 with hopen | hlt
            · rw [hend.1] at hopen
              cases hopen
            · exact hlt
          have hlt : row.pk < pk := lt_of_lt_of_le hrowpk hend.2
          have hmem : (encodeKey r.tableId pk w0, e.2) ∈ s.entries :=
            hkey ▸ hpos.mem mem_cons_self
          have hnot : ¬ row.pk <+: pk := fun hp =>
            hlt.ne (hfree.eq_of_prefix hmem (hpos.mem hin) (.inr hp))
          have hless := encodeKey_lt_of_key r.tableId hlt hnot row.writeTs w0
          exact absurd (lt_of_le_of_lt (hkey ▸ hfirst _ hin) hless) (lt_irrefl _)
        rw [if_neg hend]
        by_cases hstart : r.startPk ≠ [] ∧ pk < r.startPk
        · rw [if_pos hstart]
          refine hgo [e] it rfl (cons_ne_nil _ _) ?_ ?_
          · have hsplit : Position s r snap ([e] ++ it) := hpos
            refine hsplit.drop ?_
            intro y hy pk' w' hykey hle
            obtain rfl := mem_singleton.mp hy
            obtain ⟨-, rfl, -⟩ := encodeKey_inj (hykey.symm.trans hkey)
            exact absurd hstart.2 (not_lt.mpr hle)
          · intro row hrow hin
            have heq := mem_singleton.mp hin
            obtain ⟨-, rfl, -⟩ := encodeKey_inj ((congrArg Prod.fst heq).trans hkey)
            exact absurd hstart.2 (not_lt.mpr (ScanRange.contains_iff.mp hrow.1).1)
        rw [if_neg hstart]
        have hle : r.startPk ≤ pk := by
          by_contra hnot
          refine hstart ⟨?_, not_le.mp hnot⟩
          intro hnil
          rw [hnil] at hnot
          exact not_lt_nil _ (not_le.mp hnot)
        cases hfind : findVisible r.tableId pk snap (e :: it) with
        | mk o it' =>
          cases o with
          | none =>
            obtain ⟨passed, hsplit, hne, hrest, hpassed⟩ := hpos.findVisible_none hfree rfl hkey hfind
            exact hgo passed it' hsplit hne hrest hpassed
          | some wv =>
            obtain ⟨w, v⟩ := wv
            obtain ⟨hnewest, hmem, passed, hsplit, hne, hrest, hrows, hgone⟩ :=
              hpos.findVisible_some hfree hle hfind
            -- a row to show among the versions stepped over is the one that was found
            have hfound : ∀ row, Shown s r snap row → entryOf r.tableId row ∈ passed →
                row = ⟨pk, v, w⟩ := by
              intro row hrow hin
              obtain ⟨w', hw'⟩ := hrows _ hin
              obtain ⟨-, hpk, -⟩ := encodeKey_inj hw'
              obtain ⟨hts, hval⟩ := hrow.2.1.unique (hpk ▸ hnewest)
              cases row
              simp_all
            dsimp only
            by_cases htomb : isTombstone v = true
            · rw [if_pos htomb]
              refine hgo passed _ hsplit hne hrest ?_
              intro row hrow hin
              have hvalue := hrow.2.2
              rw [hfound row hrow hin, htomb] at hvalue
              cases hvalue
            · rw [if_neg htomb]
              have hinrange : r.contains pk = true := by
                refine ScanRange.contains_iff.mpr ⟨hle, ?_⟩
                by_contra hnot
                push Not at hnot
                exact hend ⟨Bool.eq_false_iff.mpr hnot.1, hnot.2⟩
              refine ⟨⟨hinrange, hnewest, Bool.eq_false_iff.mpr htomb⟩, hmem, hrest, ?_,
                fun e he => hsplit ▸ mem_append_right _ he, hgone, ?_⟩
              · have hlen' := congrArg length hsplit
                rw [length_append] at hlen'
                have hpositive := length_pos_of_ne_nil hne
                omega
              · intro row' hrow' hin
                have hin0 := hin
                rw [hsplit] at hin
                rcases mem_append.mp hin with hin | hin
                · exact .inl (hfound row' hrow' hin)
                · refine .inr ⟨?_, hin⟩
                  have hne' : row'.pk ≠ pk := by
                    intro heq
                    exact hgone _ hin row'.writeTs (by rw [← heq]; rfl)
                  obtain ⟨x, hx⟩ := exists_mem_of_ne_nil _ hne
                  obtain ⟨wx, hxkey⟩ := hrows x hx
                  have hxmem : (encodeKey r.tableId pk wx, x.2) ∈ s.entries := by
                    rw [← hxkey]
                    exact hpos.mem (hsplit ▸ mem_append_left _ hx)
                  have hcross : x.1 < (entryOf r.tableId row').1 := by
                    have hsorted := hpos.sorted
                    rw [hsplit] at hsorted
                    exact (pairwise_append.mp hsorted).2.2 x hx _ hin
                  exact hfree.key_lt hxmem (hpos.mem hin0) (hxkey ▸ hcross) hne'
      · rw [if_pos ht]
        -- behind the table
        intro row hrow hin
        have hge := hpos.start e mem_cons_self
        rw [hkey] at hge
        have hle := hfirst _ hin
        rw [hkey] at hle
        rcases lt_trichotomy t.toNat r.tableId.toNat with hlt | heq | hlt
        · exact absurd (lt_of_le_of_lt hge (encodeKey_lt_of_table hlt _ _ _ _)) (lt_irrefl _)
        · exact ht (UInt32.toNat_inj.mp heq)
        · exact absurd (lt_of_le_of_lt hle (encodeKey_lt_of_table hlt _ _ _ _)) (lt_irrefl _)

/-- `Next` goes on behind the current row. -/
theorem next_exact (hpos : Position s r snap it)
    (hgone : ∀ e ∈ it, ∀ w, e.1 ≠ encodeKey r.tableId pk w) :
    Advanced s r snap it (next r snap pk it) := by
  cases it with
  | nil => exact fun row _ hin => absurd hin not_mem_nil
  | cons e it =>
    have hskip : skipRow r.tableId pk (e :: it) = e :: it := by
      unfold skipRow
      refine dropWhile_cons_of_neg ?_
      intro hsome
      obtain ⟨w, hw⟩ := Option.isSome_iff_exists.mp hsome
      exact hgone e mem_cons_self w (versionOf_eq_some hw)
    have hadvance := advance_exact hfree (e :: it).length (e :: it) hpos (le_refl _)
    obtain ⟨t, pk', w0, hkey⟩ := hfree.keys e (hpos.mem mem_cons_self)
    simp only [next, hskip, hkey, decodeKey_encodeKey]
    by_cases ht : t = r.tableId
    · rw [if_neg (not_not.mpr ht)]
      exact hadvance
    · rw [if_pos ht]
      -- `Advance` stops here, too
      simp only [advance, length_cons, hkey, decodeKey_encodeKey, if_pos ht] at hadvance
      exact hadvance

/-- **The rows of a scan** from a move of the iterator on: those to be shown, in the order of their
keys. -/
theorem rows_exact {p : Option ScanRow × List (Bytes × Bytes)} (fuel : ℕ)
    (h : Advanced s r snap it p) (hlen : it.length ≤ fuel) :
    (∀ row, row ∈ rows r snap fuel p ↔ Shown s r snap row ∧ entryOf r.tableId row ∈ it) ∧
      (rows r snap fuel p).Pairwise fun a b => a.pk < b.pk := by
  induction fuel generalizing it p with
  | zero =>
    obtain rfl : it = [] := length_eq_zero_iff.mp (Nat.le_zero.mp hlen)
    obtain ⟨_ | row, it'⟩ := p
    · simp [rows]
    · exact absurd h.2.1 not_mem_nil
  | succ fuel ih =>
    obtain ⟨_ | row, it'⟩ := p
    · refine ⟨fun row => iff_of_false not_mem_nil ?_, List.Pairwise.nil⟩
      rintro ⟨hshown, hin⟩
      exact h row hshown hin
    · obtain ⟨hshown, hmem, hpos, hshort, hsub, hgone, hrest⟩ := h
      obtain ⟨hrows, hsorted⟩ := ih (next_exact hfree hpos hgone) (by omega)
      rw [rows]
      refine ⟨fun row' => ?_, pairwise_cons.mpr ⟨fun row' hin => ?_, hsorted⟩⟩
      · rw [mem_cons, hrows]
        constructor
        · rintro (rfl | ⟨hshown', hin⟩)
          · exact ⟨hshown, hmem⟩
          · exact ⟨hshown', hsub hin⟩
        · rintro ⟨hshown', hin⟩
          exact (hrest row' hshown' hin).imp_right fun hlater => ⟨hshown', hlater.2⟩
      · obtain ⟨hshown', hin'⟩ := (hrows row').mp hin
        rcases hrest row' hshown' (hsub hin') with rfl | ⟨hlt, -⟩
        · exact absurd rfl (hgone _ hin' row'.writeTs)
        · exact hlt

end

end Advance

end MVCCIterator

namespace MVCCStore

variable {s : MVCCStore} {r : ScanRange} {snap : Timestamp}

open MVCCIterator in
theorem PrefixFreeIn.scan_exact (h : PrefixFreeIn s r.tableId) :
    (∀ row, row ∈ scan s r snap ↔ Shown s r snap row) ∧
      (scan s r snap).Pairwise fun a b => a.pk < b.pk := by
  have hpos : Position s r snap (s.seek (encodeKeyPrefixNewest r.tableId r.startPk)) := by
    refine ⟨dropWhile_suffix _, fun e he => SortedMap.le_of_mem_seek he, ?_⟩
    intro pk w v w' v' _ hstart hentry _
    exact SortedMap.mem_seek hentry (start_le_encodeKey hstart w')
  have hall : ∀ row, Shown s r snap row →
      entryOf r.tableId row ∈ s.seek (encodeKeyPrefixNewest r.tableId r.startPk) := by
    intro row hrow
    exact SortedMap.mem_seek (s.find_eq_some_iff.mp hrow.2.1.1)
      (start_le_encodeKey (ScanRange.contains_iff.mp hrow.1).1 _)
  obtain ⟨hrows, hsorted⟩ := rows_exact h _ (advance_exact h _ _ hpos (le_refl _)) (le_refl _)
  refine ⟨fun row => (hrows row).trans ?_, hsorted⟩
  exact and_iff_left_of_imp (hall row)

/-- **Scans are exact**: they show the newest versions of the rows in their range, unless
they are tombstones. -/
theorem PrefixFree.mem_scan_iff (h : PrefixFree s) {row : ScanRow} :
    row ∈ scan s r snap ↔ r.contains row.pk = true ∧
      Newest s r.tableId row.pk snap row.writeTs row.value ∧ isTombstone row.value = false :=
  (h.inTable r.tableId).scan_exact.1 row

theorem PrefixFree.scan_sorted (h : PrefixFree s) :
    (scan s r snap).Pairwise fun a b => a.pk < b.pk :=
  (h.inTable r.tableId).scan_exact.2

/-- Versions above the snapshot do not matter for a point read. -/
theorem PrefixFree.get_congr {s' : MVCCStore} (h : PrefixFree s) (h' : PrefixFree s') {t : TableId}
    {k : Bytes} (hver : ∀ ts, ts ≤ snap → version s' t k ts = version s t k ts) :
    get s' t k snap = get s t k snap := by
  refine Option.ext fun x => ?_
  obtain ⟨v, ts⟩ := x
  rw [h.get_iff, h'.get_iff, newest_congr hver]

/-- Versions above the snapshot do not matter for a scan. -/
theorem PrefixFree.scan_congr {s' : MVCCStore} (h : PrefixFree s) (h' : PrefixFree s')
    (hver : ∀ k ts, ts ≤ snap → version s' r.tableId k ts = version s r.tableId k ts) :
    scan s' r snap = scan s r snap := by
  have hmem : ∀ row, row ∈ scan s' r snap ↔ row ∈ scan s r snap := by
    intro row
    rw [h.mem_scan_iff, h'.mem_scan_iff, newest_congr (hver row.pk)]
  have hnodup : ∀ {rows : List ScanRow}, rows.Pairwise (fun a b => a.pk < b.pk) → rows.Nodup :=
    fun hsorted => hsorted.imp fun hab heq => absurd hab (by rw [heq]; exact lt_irrefl _)
  have hperm : (scan s' r snap).Perm (scan s r snap) :=
    (perm_ext_iff_of_nodup (hnodup h'.scan_sorted) (hnodup h.scan_sorted)).mpr hmem
  exact hperm.eq_of_pairwise (fun a b _ _ hab hba => absurd (hab.trans hba) (lt_irrefl _))
    h'.scan_sorted h.scan_sorted

end MVCCStore

end TransDb.Storage
