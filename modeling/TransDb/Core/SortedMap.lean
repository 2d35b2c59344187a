import Mathlib.Data.List.TakeWhile
import Mathlib.Order.Lattice

/-!
# Maps in key order

A finite map kept as the list of its entries in increasing order of the keys, with
a cursor that starts at any key.  The order is a field, so two maps that hold the
same values are equal (`SortedMap.ext_find`).

* `find`, `insert`, `erase` — look up, overwrite and remove; `find_insert` relates them.
* `seek` — the entries from a key on, in order: `mem_seek`, `sorted_seek`.
-/

namespace TransDb

open List

/-- A finite map as the list of its entries in key order. -/
structure SortedMap (κ β : Type*) [LinearOrder κ] where
  entries : List (κ × β)
  sorted : entries.Pairwise (fun a b => a.1 < b.1)

namespace SortedMap

variable {κ β : Type*} [LinearOrder κ]

/-- The map without entries. -/
def empty : SortedMap κ β := ⟨[], List.Pairwise.nil⟩

/-- Put a value under a key in a list of entries in key order. -/
def insertEntry (k : κ) (v : β) : List (κ × β) → List (κ × β)
  | [] => [(k, v)]
  | e :: es =>
    if k < e.1 then (k, v) :: e :: es
    else if k = e.1 then (k, v) :: es
    else e :: insertEntry k v es

variable {es : List (κ × β)} {k : κ} {m : SortedMap κ β} {e : κ × β}

theorem mem_insertEntry {v : β} {x : κ × β}
    (hx : x ∈ insertEntry k v es) : x = (k, v) ∨ x ∈ es := by
  induction es with
  | nil => simpa [insertEntry] using hx
  | cons e es ih =>
    unfold insertEntry at hx
    split_ifs at hx with hlt heq
    · exact mem_cons.mp hx
    · rcases mem_cons.mp hx with hx | hx
      · exact Or.inl hx
      · exact Or.inr (mem_cons_of_mem _ hx)
    · rcases mem_cons.mp hx with rfl | hx
      · exact Or.inr mem_cons_self
      · exact (ih hx).imp_right (mem_cons_of_mem _)

theorem sorted_insertEntry {v : β} (h : es.Pairwise (fun a b => a.1 < b.1)) :
    (insertEntry k v es).Pairwise (fun a b => a.1 < b.1) := by
  induction es with
  | nil => simp [insertEntry]
  | cons e es ih =>
    obtain ⟨hhead, htail⟩ := pairwise_cons.mp h
    unfold insertEntry
    split_ifs with hlt heq
    · refine pairwise_cons.mpr ⟨?_, h⟩
      exact forall_mem_cons.mpr ⟨hlt, fun x hx => hlt.trans (hhead x hx)⟩
    · exact pairwise_cons.mpr ⟨fun x hx => heq ▸ hhead x hx, htail⟩
    · refine pairwise_cons.mpr ⟨?_, ih htail⟩
      intro x hx
      rcases mem_insertEntry hx with rfl | hx
      · exact lt_of_le_of_ne (not_lt.mp hlt) (Ne.symm heq)
      · exact hhead x hx

/-- Overwrite the value under a key. -/
def insert (m : SortedMap κ β) (k : κ) (v : β) : SortedMap κ β :=
  ⟨insertEntry k v m.entries, sorted_insertEntry m.sorted⟩

/-- The value under a key. -/
def find (m : SortedMap κ β) (k : κ) : Option β :=
  (m.entries.find? (fun e => decide (e.1 = k))).map Prod.snd

theorem find_empty (k : κ) : (empty : SortedMap κ β).find k = none := rfl

/-- A key occurs once. -/
theorem find_eq_some_iff (m : SortedMap κ β) {v : β} :
    m.find k = some v ↔ (k, v) ∈ m.entries := by
  obtain ⟨es, hs⟩ := m
  unfold find
  induction es with
  | nil => simp
  | cons e es ih =>
    obtain ⟨hhead, htail⟩ := pairwise_cons.mp hs
    by_cases hk : e.1 = k
    · rw [find?_cons_of_pos (by simpa using hk)]
      constructor
      · intro h
        have hv : e.2 = v := Option.some.inj h
        exact mem_cons.mpr (Or.inl (by rw [← hk, ← hv]))
      · intro h
        rcases mem_cons.mp h with rfl | h
        · rfl
        · exact absurd (hhead _ h) (by rw [hk]; exact lt_irrefl k)
    · rw [find?_cons_of_neg (by simpa using hk)]
      refine (ih htail).trans ?_
      constructor
      · exact fun h => mem_cons_of_mem _ h
      · intro h
        rcases mem_cons.mp h with rfl | h
        · exact absurd rfl hk
        · exact h

theorem find_insertEntry (hs : es.Pairwise (fun a b => a.1 < b.1)) (k j : κ) (v : β) :
    (insertEntry k v es).find? (fun e => decide (e.1 = j)) =
      if j = k then some (k, v) else es.find? (fun e => decide (e.1 = j)) := by
  induction es with
  | nil =>
    by_cases h : j = k
    · simp [insertEntry, h]
    · simp [insertEntry, h, Ne.symm h]
  | cons e es ih =>
    obtain ⟨hhead, htail⟩ := pairwise_cons.mp hs
    unfold insertEntry
    by_cases hlt : k < e.1
    · rw [if_pos hlt]
      by_cases hj : j = k
      · rw [if_pos hj, find?_cons_of_pos (by simpa using hj.symm)]
      · rw [if_neg hj, find?_cons_of_neg (by simpa using Ne.symm hj)]
    rw [if_neg hlt]
    by_cases heq : k = e.1
    · rw [if_pos heq]
      by_cases hj : j = k
      · rw [if_pos hj, find?_cons_of_pos (by simpa using hj.symm)]
      · have he : ¬ e.1 = j := fun h => hj (heq.trans h).symm
        rw [if_neg hj, find?_cons_of_neg (by simpa using Ne.symm hj),
          find?_cons_of_neg (by simpa using he)]
    rw [if_neg heq]
    by_cases hj : j = k
    · have he : ¬ e.1 = j := fun h => heq (hj.symm.trans h.symm)
      rw [find?_cons_of_neg (by simpa using he), ih htail, if_pos hj, if_pos hj]
    · by_cases he : e.1 = j
      · rw [if_neg hj, find?_cons_of_pos (by simpa using he),
          find?_cons_of_pos (by simpa using he)]
      · rw [find?_cons_of_neg (by simpa using he), ih htail, if_neg hj, if_neg hj,
          find?_cons_of_neg (by simpa using he)]

theorem find_insert (m : SortedMap κ β) (k j : κ) (v : β) :
    (m.insert k v).find j = if j = k then some v else m.find j := by
  unfold find insert
  rw [find_insertEntry m.sorted]
  split <;> rfl

/-- Remove the entry under a key. -/
def erase (m : SortedMap κ β) (k : κ) : SortedMap κ β :=
  ⟨m.entries.filter fun e => decide (e.1 ≠ k), m.sorted.filter _⟩

/-- Two maps with the same values are the same list of entries. -/
theorem ext_find {m m' : SortedMap κ β} (h : ∀ k, m.find k = m'.find k) : m = m' := by
  have hmem : ∀ x, x ∈ m.entries ↔ x ∈ m'.entries := by
    rintro ⟨k, v⟩
    rw [← find_eq_some_iff, ← find_eq_some_iff, h]
  have hnodup : ∀ m : SortedMap κ β, m.entries.Nodup := fun m =>
    m.sorted.imp (fun hab heq => absurd hab (by rw [heq]; exact lt_irrefl _))
  have hperm : m.entries.Perm m'.entries :=
    (perm_ext_iff_of_nodup (hnodup m) (hnodup m')).mpr hmem
  have heq : m.entries = m'.entries :=
    hperm.eq_of_pairwise (fun a b _ _ hab hba => absurd (hab.trans hba) (lt_irrefl _))
      m.sorted m'.sorted
  cases m
  cases m'
  simpa using heq

/-- The entries from a key on. -/
def seek (m : SortedMap κ β) (k : κ) : List (κ × β) :=
  m.entries.dropWhile (fun e => decide (e.1 < k))

theorem sorted_seek (m : SortedMap κ β) (k : κ) :
    (m.seek k).Pairwise (fun a b => a.1 < b.1) :=
  m.sorted.sublist (dropWhile_sublist _)

theorem mem_of_mem_seek (h : e ∈ m.seek k) :
    e ∈ m.entries :=
  (dropWhile_sublist _).subset h

/-- The cursor starts at its key. -/
theorem le_of_mem_seek (h : e ∈ m.seek k) : k ≤ e.1 := by
  have hsorted := m.sorted_seek k
  unfold seek at h hsorted
  cases hd : m.entries.dropWhile (fun e => decide (e.1 < k)) with
  | nil =>
    rw [hd] at h
    cases h
  | cons x xs =>
    have hx : ¬ x.1 < k := by
      have hne : m.entries.dropWhile (fun e => decide (e.1 < k)) ≠ [] := by
        rw [hd]
        exact cons_ne_nil _ _
      have hhead := head_dropWhile_not _ hne
      simpa [hd] using hhead
    rw [hd] at h hsorted
    rcases mem_cons.mp h with rfl | h
    · exact not_lt.mp hx
    · exact (not_lt.mp hx).trans ((pairwise_cons.mp hsorted).1 e h).le

/-- The cursor misses nothing from its start on. -/
theorem mem_seek (he : e ∈ m.entries) (hk : k ≤ e.1) :
    e ∈ m.seek k := by
  have hsplit := takeWhile_append_dropWhile (p := fun e : κ × β => decide (e.1 < k))
    (l := m.entries)
  rw [← hsplit] at he
  rcases mem_append.mp he with h | h
  · have := mem_takeWhile_imp h
    exact absurd (of_decide_eq_true this) (not_lt.mpr hk)
  · exact h

end SortedMap

end TransDb
