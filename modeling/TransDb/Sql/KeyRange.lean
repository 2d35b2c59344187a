import TransDb.Sql.Rows

/-!
# Key ranges

`Executor::ExtractKeyRange` (`src/coordinator/executor.cpp`): the primary keys that the
conditions of a `WHERE` allow, as one key or as a range of keys in byte order.

* `Bounds` — the local variables of the function; `Bounds.add` is one turn of its loop.
* `KeyRange`, `extractKeyRange`, `extractPrimaryKey` — the result.
* `Bounds.within_addAll` — **the bounds are exact**: the integers between them are those that
  meet all the conditions, if no strict comparison is with the last integer.
* `KeyRange.holdsInt`, `intSums` — the integers that a range stands for and the sums that are
  formed on the way; `extractKeyRange_int_iff` — **the range is exact and no sum overflows**
  exactly if no strict comparison is with the last integer.
-/

namespace TransDb.Sql

open Option

/-- The keys of a `WHERE`. -/
structure KeyRange where
  start : Bytes
  stop : Bytes
  startUnbounded : Bool
  endUnbounded : Bool
  isPoint : Bool
  deriving DecidableEq

/-- The range of one key. -/
def KeyRange.point (key : Bytes) : KeyRange := ⟨key, [], false, false, true⟩

/-- The bounds in the making. -/
structure Bounds where
  sawPk : Bool
  sawNe : Bool
  haveInt : Bool
  loI : Int64
  hiI : Int64
  haveF : Bool
  loF : Double
  hiF : Double
  eqText : Option Bytes
  deriving DecidableEq

namespace Bounds

/-- No bounds. -/
def init (D : DoubleLib) : Bounds :=
  ⟨false, false, false, Int64.minValue, Int64.maxValue, false, D.negInfinity, D.infinity, none⟩

/-- `apply_int_cmp`.  The additions wrap around; in the source they may overflow. -/
def applyIntCmp (b : Bounds) (op : CompareOp) (v : Int64) : Bounds :=
  let b := { b with haveInt := true }
  match op with
  | .eq => { b with loI := max b.loI v, hiI := min b.hiI v }
  | .ne => { b with sawNe := true }
  | .ge => { b with loI := max b.loI v }
  | .gt => { b with loI := max b.loI (v + 1) }
  | .le => { b with hiI := min b.hiI v }
  | .lt => { b with hiI := min b.hiI (v - 1) }

/-- `apply_f_cmp`. -/
def applyFCmp (D : DoubleLib) (b : Bounds) (op : CompareOp) (v : Double) : Bounds :=
  let b := { b with haveF := true }
  match op with
  | .eq => { b with loF := D.max b.loF v, hiF := D.min b.hiF v }
  | .ne => { b with sawNe := true }
  | .ge => { b with loF := D.max b.loF v }
  | .gt => { b with loF := D.max b.loF (D.nextafter v b.hiF) }
  | .le => { b with hiF := D.min b.hiF v }
  | .lt => { b with hiF := D.min b.hiF (D.nextafter v b.loF) }

/-- One condition.  The outer `none` is an exception of a conversion, the inner one the
result "no range". -/
def add (D : DoubleLib) (pk : ColumnDef) (b : Bounds) (ex : CompareExpr) : Option (Option Bounds) :=
  if ex.column ≠ pk.name then some (some b)
  else
    let b := { b with sawPk := true }
    match pk.type with
    | .varchar =>
      if ex.op ≠ .eq then some none
      else
        let v := literalToString D ex.value
        match b.eqText with
        | none => some (some { b with eqText := some v })
        | some t => if t = v then some (some b) else some none
    | .int | .bigint => (literalToInt64 D ex.value).map fun v => some (b.applyIntCmp ex.op v)
    | .float => (literalToDouble D ex.value).map fun v => some (b.applyFCmp D ex.op v)

/-- The loop over the conditions. -/
def addAll (D : DoubleLib) (pk : ColumnDef) : Bounds → WhereClause → Option (Option Bounds)
  | b, [] => some (some b)
  | b, ex :: exs =>
    match b.add D pk ex with
    | some (some b) => addAll D pk b exs
    | r => r

/-- What the function returns after the loop. -/
def range (D : DoubleLib) (type : ColumnType) (b : Bounds) : Option KeyRange :=
  if !b.sawPk || b.sawNe then none
  else
    match type with
    | .varchar => b.eqText.map fun key => ⟨key, [], false, true, true⟩
    | .int | .bigint =>
      if !b.haveInt then none
      else if b.hiI < b.loI then some (.point [])
      else if b.loI = b.hiI then some (.point (decimalInt b.loI.toInt))
      else if b.hiI = Int64.maxValue then some ⟨decimalInt b.loI.toInt, [], false, true, false⟩
      else some ⟨decimalInt b.loI.toInt, decimalInt (b.hiI + 1).toInt, false, false, false⟩
    | .float =>
      if !b.haveF then none
      else if D.less (D.add b.hiF D.eps) b.loF then some (.point [])
      else if D.less (D.fabs (D.sub b.loF b.hiF)) D.eps then some (.point (D.print b.loF))
      else none

end Bounds

/-- `none` where a conversion throws, `some none` where there is no range. -/
def extractKeyRange (D : DoubleLib) (conditions : WhereClause) (table : TableDef) :
    Option (Option KeyRange) :=
  match findColumn table table.primaryKey with
  | none => some none
  | some pk =>
    (Bounds.addAll D pk (.init D) conditions).map fun b => b.bind fun b => b.range D pk.type

/-- `ExtractPrimaryKey`. -/
def extractPrimaryKey (D : DoubleLib) (conditions : WhereClause) (table : TableDef) :
    Option (Option Bytes) :=
  (extractKeyRange D conditions table).map fun kr =>
    kr.bind fun kr => if kr.isPoint then some kr.start else none

/-! ## Integer bounds -/

variable {v x : Int64} {D : DoubleLib} {type : ColumnType} {b : Bounds} {kr : KeyRange}
    {table : TableDef} {conditions : WhereClause} {pk : ColumnDef}

theorem max_le_int64 {a b : Int64} : max a b ≤ x ↔ a ≤ x ∧ b ≤ x := by
  have hmax : max a b = if a ≤ b then b else a := rfl
  rw [hmax]
  split_ifs with h <;> rw [Int64.le_iff_toInt_le] at h <;>
    simp only [Int64.le_iff_toInt_le] <;> omega

theorem le_min_int64 {a b : Int64} : x ≤ min a b ↔ x ≤ a ∧ x ≤ b := by
  have hmin : min a b = if a ≤ b then a else b := rfl
  rw [hmin]
  split_ifs with h <;> rw [Int64.le_iff_toInt_le] at h <;>
    simp only [Int64.le_iff_toInt_le] <;> omega

theorem toInt_add_one (hv : v ≠ Int64.maxValue) : (v + 1).toInt = v.toInt + 1 := by
  have hmax : v.toInt ≠ Int64.maxValue.toInt := fun h => hv (Int64.toInt_inj.mp h)
  have hlo := v.le_toInt
  have hhi := v.toInt_lt
  have hone : (1 : Int64).toInt = 1 := rfl
  rw [Int64.toInt_maxValue] at hmax
  rw [Int64.toInt_add, hone, Int.bmod_eq_of_le (by omega) (by omega)]

theorem toInt_sub_one (hv : v ≠ Int64.minValue) : (v - 1).toInt = v.toInt - 1 := by
  have hmin : v.toInt ≠ Int64.minValue.toInt := fun h => hv (Int64.toInt_inj.mp h)
  have hlo := v.le_toInt
  have hhi := v.toInt_lt
  have hone : (1 : Int64).toInt = 1 := rfl
  rw [Int64.toInt_minValue] at hmin
  rw [Int64.toInt_sub, hone, Int.bmod_eq_of_le (by omega) (by omega)]

theorem add_one_le_iff (hv : v ≠ Int64.maxValue) : v + 1 ≤ x ↔ v < x := by
  rw [Int64.le_iff_toInt_le, Int64.lt_iff_toInt_lt, toInt_add_one hv]
  omega

theorem le_sub_one_iff (hv : v ≠ Int64.minValue) : x ≤ v - 1 ↔ x < v := by
  rw [Int64.le_iff_toInt_le, Int64.lt_iff_toInt_lt, toInt_sub_one hv]
  omega

/-- The strict comparison with an integer that has no next one on that side. -/
def wraps (op : CompareOp) (v : Int64) : Bool :=
  (op = .gt && v = Int64.maxValue) || (op = .lt && v = Int64.minValue)

namespace Bounds

/-- The number is within the bounds. -/
def Within (b : Bounds) (x : Int64) : Prop := b.loI ≤ x ∧ x ≤ b.hiI

@[simp] theorem sawNe_applyIntCmp (b : Bounds) (op : CompareOp) (v : Int64) :
    (b.applyIntCmp op v).sawNe = (b.sawNe || decide (op = .ne)) := by
  cases op <;> simp [applyIntCmp]

variable {ex : CompareExpr}

/-- One comparison narrows the bounds to the integers that meet it. -/
theorem within_applyIntCmp {op : CompareOp} {v : Int64} (hne : op ≠ .ne) (hv : wraps op v = false)
    (x : Int64) : (b.applyIntCmp op v).Within x ↔ b.Within x ∧ compareInt x op v = true := by
  cases op with
  | eq =>
    simp only [applyIntCmp, Within, max_le_int64, le_min_int64, compareInt, decide_eq_true_eq]
    constructor
    · rintro ⟨⟨hlo, hvx⟩, hhi, hxv⟩
      exact ⟨⟨hlo, hhi⟩, Int64.le_antisymm hxv hvx⟩
    · rintro ⟨⟨hlo, hhi⟩, rfl⟩
      exact ⟨⟨hlo, Int64.le_refl x⟩, hhi, Int64.le_refl x⟩
  | ne => exact absurd rfl hne
  | lt =>
    have hmin : v ≠ Int64.minValue := by simpa [wraps] using hv
    simp only [applyIntCmp, Within, le_min_int64, le_sub_one_iff hmin, compareInt,
      decide_eq_true_eq, and_assoc]
  | le => simp only [applyIntCmp, Within, le_min_int64, compareInt, decide_eq_true_eq, and_assoc]
  | gt =>
    have hmax : v ≠ Int64.maxValue := by simpa [wraps] using hv
    simp only [applyIntCmp, Within, max_le_int64, add_one_le_iff hmax, compareInt,
      decide_eq_true_eq, and_right_comm]
  | ge =>
    simp only [applyIntCmp, Within, max_le_int64, compareInt, decide_eq_true_eq, and_right_comm]

/-- What the loop does with a condition on an integer key. -/
theorem add_int (htype : pk.type = .int ∨ pk.type = .bigint) (b : Bounds)
    (hcol : ex.column = pk.name) :
    b.add D pk ex = (literalToInt64 D ex.value).map fun v =>
      some ({ b with sawPk := true }.applyIntCmp ex.op v) := by
  unfold add
  rw [if_neg (not_not.mpr hcol)]
  rcases htype with htype | htype <;> rw [htype]

theorem addAll_cons_eq_some {b' : Bounds} {exs : WhereClause}
    (h : addAll D pk b (ex :: exs) = some (some b')) :
    ∃ b₁, b.add D pk ex = some (some b₁) ∧ addAll D pk b₁ exs = some (some b') := by
  unfold addAll at h
  split at h
  · exact ⟨_, by assumption, h⟩
  · rename_i hne
    exact absurd h (hne b')

/-- The integers that meet a condition on the key. -/
def MeetsInt (D : DoubleLib) (x : Int64) (ex : CompareExpr) : Prop :=
  ∃ v, literalToInt64 D ex.value = some v ∧ compareInt x ex.op v = true

/-- The condition does not wrap around. -/
def noWrap (D : DoubleLib) (ex : CompareExpr) : Bool :=
  (literalToInt64 D ex.value).all fun v => !wraps ex.op v

/-- **The bounds are exact**: they hold the integers that meet every condition on the key, and a
result without `<>` comes from bounds without it. -/
theorem within_addAll (htype : pk.type = .int ∨ pk.type = .bigint) {b' : Bounds}
    (h : addAll D pk b conditions = some (some b')) (hne : b'.sawNe = false)
    (hwrap : ∀ ex ∈ conditions, ex.column = pk.name → noWrap D ex = true) (x : Int64) :
    b.sawNe = false ∧
      (b'.Within x ↔ b.Within x ∧ ∀ ex ∈ conditions, ex.column = pk.name → MeetsInt D x ex) := by
  induction conditions generalizing b with
  | nil =>
    obtain rfl : b = b' := by simpa [addAll] using h
    exact ⟨hne, by simp⟩
  | cons ex exs ih =>
    obtain ⟨b₁, hadd, hrest⟩ := addAll_cons_eq_some h
    obtain ⟨hwrap₁, hwraps⟩ := List.forall_mem_cons.mp hwrap
    obtain ⟨hne₁, hwithin⟩ := ih hrest hwraps
    rw [hwithin, List.forall_mem_cons, ← and_assoc]
    by_cases hcol : ex.column = pk.name
    · rw [add_int htype b hcol] at hadd
      obtain ⟨v, hv, hb₁⟩ := map_eq_some_iff.mp hadd
      obtain rfl := some.inj hb₁
      rw [sawNe_applyIntCmp, Bool.or_eq_false_iff, decide_eq_false_iff_not] at hne₁
      have hnowrap : wraps ex.op v = false := by
        have := hwrap₁ hcol
        rw [noWrap, hv] at this
        simpa using this
      rw [within_applyIntCmp hne₁.2 hnowrap]
      refine ⟨hne₁.1, and_congr_left fun _ => and_congr Iff.rfl ?_⟩
      constructor
      · exact fun hcmp _ => ⟨v, hv, hcmp⟩
      · intro hmeets
        obtain ⟨w, hw, hcmp⟩ := hmeets hcol
        obtain rfl := some.inj (hv.symm.trans hw)
        exact hcmp
    · rw [add, if_pos hcol] at hadd
      obtain rfl := some.inj (some.inj hadd)
      exact ⟨hne₁, by simp [hcol]⟩

end Bounds

/-! ## The keys of a range -/

/-- The result for integer bounds: nothing, one key, or a range that may have no end. -/
theorem Bounds.range_int_cases (htype : type = .int ∨ type = .bigint)
    (h : b.range D type = some kr) :
    (b.hiI < b.loI ∧ kr = .point []) ∨
      (b.loI = b.hiI ∧ kr = .point (decimalInt b.loI.toInt)) ∨
      (b.hiI = Int64.maxValue ∧ kr = ⟨decimalInt b.loI.toInt, [], false, true, false⟩) ∨
      (b.hiI ≠ Int64.maxValue ∧
        kr = ⟨decimalInt b.loI.toInt, decimalInt (b.hiI + 1).toInt, false, false, false⟩) := by
  have hrange : b.range D type =
      if !b.sawPk || b.sawNe then none
      else if !b.haveInt then none
      else if b.hiI < b.loI then some (.point [])
      else if b.loI = b.hiI then some (.point (decimalInt b.loI.toInt))
      else if b.hiI = Int64.maxValue then some ⟨decimalInt b.loI.toInt, [], false, true, false⟩
      else some ⟨decimalInt b.loI.toInt, decimalInt (b.hiI + 1).toInt, false, false, false⟩ := by
    rcases htype with rfl | rfl <;> rfl
  rw [hrange] at h
  split_ifs at h with _ _ hempty hpoint hmax <;> obtain rfl := some.inj h
  · exact .inl ⟨hempty, rfl⟩
  · exact .inr (.inl ⟨hpoint, rfl⟩)
  · exact .inr (.inr (.inl ⟨hmax, rfl⟩))
  · exact .inr (.inr (.inr ⟨hmax, rfl⟩))

theorem Bounds.not_within_of_lt (h : b.hiI < b.loI) : ¬ b.Within x := by
  rintro ⟨hlo, hhi⟩
  rw [Int64.le_iff_toInt_le] at hlo hhi
  rw [Int64.lt_iff_toInt_lt] at h
  omega

theorem Bounds.within_iff_of_eq (h : b.loI = b.hiI) : b.Within x ↔ x = b.loI := by
  constructor
  · rintro ⟨hlo, hhi⟩
    exact Int64.le_antisymm (h ▸ hhi) hlo
  · rintro rfl
    exact ⟨Int64.le_refl _, h ▸ Int64.le_refl _⟩

theorem le_maxValue (x : Int64) : x ≤ Int64.maxValue := by
  have := x.toInt_lt
  rw [Int64.le_iff_toInt_le, Int64.toInt_maxValue]
  omega

theorem Bounds.within_init : (Bounds.init D).Within x := by
  refine ⟨?_, le_maxValue x⟩
  have hlo := x.le_toInt
  have hloI : (Bounds.init D).loI = Int64.minValue := rfl
  rw [hloI, Int64.le_iff_toInt_le, Int64.toInt_minValue]
  omega

/-! ## The integers of a range -/

/-- The integers that a range stands for: its bounds are numerals, and its end is not in it. -/
def KeyRange.holdsInt (kr : KeyRange) (x : Int64) : Bool :=
  if kr.isPoint then stoll kr.start = some x
  else (stoll kr.start).any (· ≤ x) && (kr.endUnbounded || (stoll kr.stop).any (x < ·))

theorem Bounds.holdsInt_range (htype : type = .int ∨ type = .bigint)
    (h : b.range D type = some kr) (x : Int64) : kr.holdsInt x = true ↔ b.Within x := by
  rcases range_int_cases htype h with ⟨hempty, rfl⟩ | ⟨hpoint, rfl⟩ | ⟨hmax, rfl⟩ | ⟨hmax, rfl⟩
  · refine iff_of_false ?_ (not_within_of_lt hempty)
    have hnil : stoll [] = none := by decide
    simp [KeyRange.holdsInt, KeyRange.point, hnil]
  · rw [within_iff_of_eq hpoint]
    simp [KeyRange.holdsInt, KeyRange.point, stoll_decimalInt, eq_comm]
  · have hle : x ≤ b.hiI := hmax ▸ le_maxValue x
    simp [KeyRange.holdsInt, stoll_decimalInt, Within, hle]
  · have hlt : x < b.hiI + 1 ↔ x ≤ b.hiI := by
      rw [Int64.lt_iff_toInt_lt, toInt_add_one hmax, Int64.le_iff_toInt_le]
      omega
    simp [KeyRange.holdsInt, stoll_decimalInt, Within, hlt, -Int64.toInt_add]

/-- The sum that a strict comparison forms, as an integer without bounds. -/
def strictSum (op : CompareOp) (v : Int64) : Option ℤ :=
  match op with
  | .gt => some (v.toInt + 1)
  | .lt => some (v.toInt - 1)
  | _ => none

/-- All the sums that the function forms for an integer key. -/
def intSums (D : DoubleLib) (pk : ColumnDef) (conditions : WhereClause) : List ℤ :=
  ((conditions.filter fun ex => ex.column = pk.name).filterMap fun ex =>
      (literalToInt64 D ex.value).bind (strictSum ex.op)) ++
    match Bounds.addAll D pk (.init D) conditions with
    | some (some b) =>
      if b.loI < b.hiI ∧ b.hiI ≠ Int64.maxValue then [b.hiI.toInt + 1] else []
    | _ => []

/-- It is a number of 64 bits. -/
def FitsInt64 (z : ℤ) : Prop := Int64.minValue.toInt ≤ z ∧ z ≤ Int64.maxValue.toInt

theorem fits_strictSum_iff {op : CompareOp} :
    (∀ z ∈ strictSum op v, FitsInt64 z) ↔ wraps op v = false := by
  have hlo := v.le_toInt
  have hhi := v.toInt_lt
  have hmax : v = Int64.maxValue ↔ v.toInt = 2 ^ 63 - 1 := by
    rw [← Int64.toInt_inj, Int64.toInt_maxValue]
  have hmin : v = Int64.minValue ↔ v.toInt = -2 ^ 63 := by
    rw [← Int64.toInt_inj, Int64.toInt_minValue]
  cases op <;> simp [strictSum, wraps, FitsInt64, hmax, hmin, Int64.toInt_maxValue] <;> omega

theorem fits_intSums_iff : (∀ z ∈ intSums D pk conditions, FitsInt64 z) ↔
    ∀ ex ∈ conditions, ex.column = pk.name → Bounds.noWrap D ex = true := by
  have hend : ∀ z ∈ (match Bounds.addAll D pk (.init D) conditions with
      | some (some b) => if b.loI < b.hiI ∧ b.hiI ≠ Int64.maxValue then [b.hiI.toInt + 1] else []
      | _ => []), FitsInt64 z := by
    intro z hz
    split at hz
    · rename_i b _
      split_ifs at hz with hlt
      · have hlo := (b.hiI + 1).le_toInt
        have hhi := (b.hiI + 1).toInt_lt
        rw [toInt_add_one hlt.2] at hlo hhi
        obtain rfl := List.mem_singleton.mp hz
        rw [FitsInt64, Int64.toInt_minValue, Int64.toInt_maxValue]
        omega
      · cases hz
    · cases hz
  have hone : ∀ ex, (∀ z ∈ (literalToInt64 D ex.value).bind (strictSum ex.op), FitsInt64 z) ↔
      Bounds.noWrap D ex = true := by
    intro ex
    cases hv : literalToInt64 D ex.value with
    | none => simp [Bounds.noWrap, hv]
    | some v => simpa [Bounds.noWrap, hv] using fits_strictSum_iff
  simp only [intSums, List.forall_mem_append, and_iff_left hend, List.mem_filterMap,
    List.mem_filter, decide_eq_true_eq, ← hone]
  constructor
  · exact fun h ex hex hcol z hz => h z ⟨ex, ⟨hex, hcol⟩, hz⟩
  · rintro h z ⟨ex, ⟨hex, hcol⟩, hz⟩
    exact h ex hex hcol z hz

/-- The loop comes to its end on comparisons with integers. -/
theorem Bounds.addAll_int (htype : pk.type = .int ∨ pk.type = .bigint)
    (hcond : ∀ ex ∈ conditions, ex.column = pk.name → ex.op ≠ .ne ∧ ∃ v, ex.value = .int v)
    (b : Bounds) :
    ∃ b', addAll D pk b conditions = some (some b') ∧ b'.sawNe = b.sawNe ∧
      ((b.sawPk = true ∧ b.haveInt = true) ∨ (∃ ex ∈ conditions, ex.column = pk.name) →
        b'.sawPk = true ∧ b'.haveInt = true) := by
  induction conditions generalizing b with
  | nil => exact ⟨b, rfl, rfl, by simp⟩
  | cons ex exs ih =>
    obtain ⟨hex, hexs⟩ := List.forall_mem_cons.mp hcond
    by_cases hcol : ex.column = pk.name
    · obtain ⟨hne, v, hv⟩ := hex hcol
      obtain ⟨b', hb', hsaw, hint⟩ := ih hexs ({ b with sawPk := true }.applyIntCmp ex.op v)
      refine ⟨b', ?_, ?_, fun _ => hint (.inl ?_)⟩
      · rw [addAll, add_int htype b hcol, hv]
        exact hb'
      · rw [hsaw, sawNe_applyIntCmp, decide_eq_false hne, Bool.or_false]
      · cases ex.op <;> exact ⟨rfl, rfl⟩
    · obtain ⟨b', hb', hsaw, hint⟩ := ih hexs b
      refine ⟨b', ?_, hsaw, ?_⟩
      · rw [addAll, add, if_pos hcol]
        exact hb'
      · simpa [hcol] using hint

/-- **The range of an integer key is exact**, and none of the sums overflows, exactly if no strict
comparison is with the last integer on its side. -/
theorem extractKeyRange_int_iff (hpk : findColumn table table.primaryKey = some pk)
    (htype : pk.type = .int ∨ pk.type = .bigint) (hkey : ∃ ex ∈ conditions, ex.column = pk.name)
    (hcond : ∀ ex ∈ conditions, ex.column = pk.name → ex.op ≠ .ne ∧ ∃ v, ex.value = .int v) :
    ∃ kr, extractKeyRange D conditions table = some (some kr) ∧
      (((∀ x, kr.holdsInt x = true ↔
            ∀ ex ∈ conditions, ex.column = pk.name → Bounds.MeetsInt D x ex) ∧
          ∀ z ∈ intSums D pk conditions, FitsInt64 z) ↔
        ∀ ex ∈ conditions, ex.column = pk.name → ∀ v, ex.value = .int v → wraps ex.op v = false) := by
  obtain ⟨b, hb, hne, hint⟩ := Bounds.addAll_int (D := D) htype hcond (.init D)
  obtain ⟨hsaw, hhave⟩ := hint (.inr hkey)
  have hne : b.sawNe = false := hne
  obtain ⟨kr, hkr⟩ : ∃ kr, b.range D pk.type = some kr := by
    rcases htype with htype | htype <;> rw [htype] <;> simp only [Bounds.range, hsaw, hne, hhave] <;>
      split_ifs <;> simp at *
  have hwrap : (∀ ex ∈ conditions, ex.column = pk.name → Bounds.noWrap D ex = true) ↔
      ∀ ex ∈ conditions, ex.column = pk.name → ∀ v, ex.value = .int v → wraps ex.op v = false := by
    refine forall₃_congr fun ex hex hcol => ?_
    obtain ⟨-, v, hv⟩ := hcond ex hex hcol
    simp [Bounds.noWrap, literalToInt64, hv]
  refine ⟨kr, ?_, ?_⟩
  · simp only [extractKeyRange, hpk, hb]
    exact congrArg some hkr
  · rw [← hwrap, fits_intSums_iff]
    refine ⟨And.right, fun h => ⟨fun x => ?_, h⟩⟩
    rw [Bounds.holdsInt_range htype hkr, (Bounds.within_addAll htype hb hne h x).2,
      and_iff_right Bounds.within_init]

theorem extractKeyRange_int_below_nine :
    ∃ kr, extractKeyRange noDoubles [⟨ascii "id", .lt, .int 9⟩] idTable = some (some kr) ∧
      kr.holdsInt 8 = true := by
  obtain ⟨kr, hkr, hexact⟩ := @extractKeyRange_int_iff noDoubles idTable
    [⟨ascii "id", .lt, .int 9⟩] ⟨ascii "id", .bigint⟩ (by decide) (.inr rfl) (by decide) (by simp)
  have hwraps : wraps .lt 9 = false := by decide
  refine ⟨kr, hkr, ((hexact.mpr ?_).1 8).mpr ?_⟩
  · simpa using hwraps
  · simp [Bounds.MeetsInt, literalToInt64, compareInt]

/-- Nothing is above the last integer, but the sum wraps around to the first one. -/
theorem above_last_integer :
    ∃ kr, extractKeyRange noDoubles [⟨ascii "id", .gt, .int Int64.maxValue⟩] idTable =
        some (some kr) ∧ kr.holdsInt 5 = true ∧ compareInt 5 .gt Int64.maxValue = false ∧
      (2 : ℤ) ^ 63 ∈ intSums noDoubles ⟨ascii "id", .bigint⟩
        [⟨ascii "id", .gt, .int Int64.maxValue⟩] := by
  refine ⟨⟨decimalInt Int64.minValue.toInt, [], false, true, false⟩, ?_⟩
  decide +kernel

end TransDb.Sql
