import TransDb.Sql.Tokenizer

/-!
# Parameters of prepared statements

`PgSession::SubstituteParams` (`src/pgwire/pgwire_server.cpp`) puts the texts of the
parameters into the text of a statement, which is then tokenized.

* `substituteParams` — the source: one pass over the whole text for each parameter, the last
  parameter first.
* `placed`, `plain` — where placeholders may stand, and what their parameters may be.
* `Filled` — the text after some of the passes; `Filled.pass` is one pass.
* `filled_substituteParams` — **all passes together replace the placeholders and nothing
  else**, if the placeholders are well placed.
-/

namespace TransDb.Pgwire

open Option List Sql

/-! ## The source -/

/-- `LooksLikeNumber`. -/
def looksLikeNumber (s : Bytes) : Bool :=
  let rest := if s.head? = some 43 ∨ s.head? = some 45 then s.tail else s
  rest.all (fun c => isDigit c || c == 46) && rest.count 46 ≤ 1 && rest.any isDigit

/-- `SqlQuoteLiteral`. -/
def sqlQuoteLiteral (text : Bytes) : Bytes :=
  39 :: text.flatMap (fun c => if c = 39 then [39, 39] else [c]) ++ [39]

/-- What is put in place of a parameter. -/
def replacement (raw : Bytes) : Bytes :=
  if looksLikeNumber raw then raw else sqlQuoteLiteral raw

/-- One pass of `SubstituteParams`: `query.find(pat, pos)` and `query.replace`.  The number
counts the bytes of a match that are still to be passed, `prev` is the byte before. -/
def substitutePass (pat rep : Bytes) : ℕ → Option UInt8 → Bytes → Bytes
  | _, _, [] => []
  | skip + 1, prev, _ :: s => substitutePass pat rep skip prev s
  | 0, prev, c :: s =>
    if pat <+: c :: s then
      let okLeft := !(prev.any isAlnum)
      let okRight := !((s.drop (pat.length - 1)).head?.any isDigit)
      if okLeft && okRight then rep ++ substitutePass pat rep (pat.length - 1) rep.getLast? s
      else pat ++ substitutePass pat rep (pat.length - 1) pat.getLast? s
    else c :: substitutePass pat rep 0 (some c) s

/-- `$i`. -/
def pattern (i : ℕ) : Bytes := 36 :: decimal i

/-- The passes for the parameters `i`, …, 1. -/
def substituteDown (params : List Bytes) : ℕ → Bytes → Bytes
  | 0, query => query
  | i + 1, query =>
    substituteDown params i
      (substitutePass (pattern (i + 1)) (replacement (params.getD i [])) 0 none query)

/-- `SubstituteParams`. -/
def substituteParams (query : Bytes) (params : List Bytes) : Bytes :=
  substituteDown params params.length query

/-! ## Placeholders -/

/-- A placeholder for one of `n` parameters, after its `$`: the longest sequence of digits. -/
def placeholderAt (n : ℕ) (s : Bytes) : Option ℕ :=
  let digits := s.takeWhile isDigit
  let i := digitsValue digits
  if 0 < i ∧ i ≤ n ∧ decimal i = digits then some i else none

/-! ## Where placeholders may stand -/

/-- A reader of the query is in a string literal, in a comment, or in neither. -/
inductive Mode where
  | code
  | quoted
  | comment
  deriving DecidableEq

/-- Where the next byte is. -/
def Mode.next : Mode → UInt8 → Bytes → Mode
  | .code, c, s =>
    if c = 39 then .quoted else if c = 45 ∧ s.head? = some 45 then .comment else .code
  | .quoted, c, _ => if c = 39 then .code else .quoted
  | .comment, c, _ => if c = 10 ∨ c = 13 then .code else .comment

/-- The byte before a placeholder: it must not end a word, a number, a `$` or a literal that
the replacement would continue. -/
def freeLeft (number : Bool) (prev : Option UInt8) : Bool :=
  !(prev.any fun p => isAlnum p || p == 36 || if number then p == 95 || p == 46 else p == 39)

/-- The byte after a placeholder. -/
def freeRight (number : Bool) (next : Option UInt8) : Bool :=
  !(next.any fun q => if number then q == 46 else q == 39)

/-- A pass for a parameter before the `i`-th finds a placeholder in the text. -/
def namesBelow (i : ℕ) : Option UInt8 → Bytes → Bool
  | _, [] => false
  | prev, c :: s =>
    (c == 36 && !(prev.any isAlnum) && (placeholderAt (i - 1) s).isSome) || namesBelow i (some c) s

/-- The text of the `i`-th parameter is not searched for another one once it stands in its quotes,
and it is not taken for two tokens. -/
def plain (i : ℕ) (text : Bytes) : Bool :=
  !namesBelow i (some 39) text &&
    !(looksLikeNumber text && (text.head? == some 43 || text.head? == some 45))

/-- Where a placeholder stands: outside literals and comments, apart from its neighbours, and for
a parameter that is plain. -/
def mayStand (params : List Bytes) (mode : Mode) (prev : Option UInt8) (i : ℕ) (s : Bytes) : Bool :=
  let text := params.getD (i - 1) []
  let number := looksLikeNumber text
  mode = .code && freeLeft number prev && freeRight number (s.dropWhile isDigit).head? &&
    plain i text

/-- All placeholders of a query are well placed. -/
def placed (params : List Bytes) : Mode → Option UInt8 → Bytes → Bool
  | _, _, [] => true
  | mode, prev, c :: s =>
    ((if c = 36 then placeholderAt params.length s else none).all fun i =>
      mayStand params mode prev i s) && placed params (mode.next c s) (some c) s

/-! ## Digits after a dollar sign -/

variable {ds query s t text : Bytes} {i k : ℕ}

theorem dollar_not_mem_of_digits (h : ∀ c ∈ ds, isDigit c = true) : 36 ∉ ds :=
  fun hmem => absurd (h 36 hmem) (by decide)

section

variable (hds : ∀ c ∈ ds, isDigit c = true) (ht : t.head?.any isDigit = false)
include hds ht

theorem takeWhile_digits : (ds ++ t).takeWhile isDigit = ds := by
  rw [takeWhile_append_of_pos hds]
  cases t with
  | nil => simp
  | cons c t =>
    have hc : isDigit c = false := by simpa using ht
    rw [takeWhile_cons_of_neg (by simp [hc]), append_nil]

theorem dropWhile_digits : (ds ++ t).dropWhile isDigit = t := by
  rw [dropWhile_append_of_pos hds]
  cases t with
  | nil => rfl
  | cons c t =>
    have hc : isDigit c = false := by simpa using ht
    rw [dropWhile_cons_of_neg (by simp [hc])]

theorem placeholderAt_digits {n : ℕ} :
    placeholderAt n (ds ++ t) = some i ↔ 0 < i ∧ i ≤ n ∧ decimal i = ds := by
  rw [placeholderAt, takeWhile_digits hds ht]
  constructor
  · intro h
    split_ifs at h with hi
    cases h
    exact hi
  · rintro ⟨hpos, hn, rfl⟩
    simp [digitsValue_decimal, hpos, hn]

end

theorem placeholderAt_decimal {n : ℕ} (hpos : 0 < i) (hn : i ≤ n)
    (ht : t.head?.any isDigit = false) : placeholderAt n (decimal i ++ t) = some i :=
  (placeholderAt_digits (fun _ hc => isDigit_of_mem_decimal hc) ht).mpr ⟨hpos, hn, rfl⟩

/-! ## One pass -/

theorem substitutePass_skip (pat rep x s : Bytes) (prev : Option UInt8) :
    substitutePass pat rep x.length prev (x ++ s) = substitutePass pat rep 0 prev s := by
  induction x with
  | nil => rfl
  | cons c x ih =>
    rw [length_cons, cons_append, substitutePass]
    exact ih

theorem getLast?_or_some (x : Bytes) (c : UInt8) : x.getLast?.or (some c) = (c :: x).getLast? := by
  cases x with
  | nil => rfl
  | cons d x => simp [getLast?_eq_some_getLast]

theorem getLast?_cons_or (x : Bytes) (c : UInt8) (prev : Option UInt8) :
    (c :: x).getLast?.or prev = (c :: x).getLast? := by
  rw [getLast?_cons, some_or]

section Pass

variable {rep : Bytes} {prev : Option UInt8} {c : UInt8}

theorem substitutePass_other (hc : c ≠ 36) (prev : Option UInt8) (s : Bytes) :
    substitutePass (pattern i) rep 0 prev (c :: s) =
      c :: substitutePass (pattern i) rep 0 (some c) s := by
  rw [substitutePass, if_neg]
  rw [pattern, cons_prefix_cons]
  exact fun h => hc h.1.symm

/-- Bytes without a `$` stay. -/
theorem substitutePass_append {x : Bytes} (hx : 36 ∉ x) (prev : Option UInt8) (s : Bytes) :
    substitutePass (pattern i) rep 0 prev (x ++ s) =
      x ++ substitutePass (pattern i) rep 0 (x.getLast?.or prev) s := by
  induction x generalizing prev with
  | nil => rfl
  | cons c x ih =>
    have hc : c ≠ 36 := fun h => hx (h ▸ mem_cons_self)
    rw [cons_append, substitutePass_other hc, ih fun h => hx (mem_cons_of_mem c h),
      cons_append, getLast?_or_some]
    rfl

/-- A byte that begins no placeholder of the pass stays. -/
theorem substitutePass_miss
    (h : c = 36 → prev.any isAlnum = false → s.takeWhile isDigit ≠ decimal i) :
    substitutePass (pattern i) rep 0 prev (c :: s) =
      c :: substitutePass (pattern i) rep 0 (some c) s := by
  by_cases hpre : pattern i <+: c :: s
  · -- a match that fails one of the tests
    obtain ⟨rfl, rest, rfl⟩ := cons_prefix_cons.mp hpre
    have hdigits : ∀ c ∈ decimal i, isDigit c = true := fun _ hc => isDigit_of_mem_decimal hc
    have hfails : (!(prev.any isAlnum) && !(rest.head?.any isDigit)) = false := by
      by_contra hok
      simp only [Bool.not_eq_false, Bool.and_eq_true, Bool.not_eq_true'] at hok
      exact h rfl hok.1 (takeWhile_digits hdigits hok.2)
    have hlen : (pattern i).length - 1 = (decimal i).length := rfl
    rw [substitutePass_append (dollar_not_mem_of_digits hdigits), getLast?_or_some,
      substitutePass, if_pos hpre, hlen, drop_left]
    simp only [hfails, Bool.false_eq_true, if_false]
    rw [substitutePass_skip]
    rfl
  · rw [substitutePass, if_neg hpre]

/-- A placeholder of another number stays. -/
theorem substitutePass_keep (hds : ∀ c ∈ ds, isDigit c = true)
    (hs : s.head?.any isDigit = false) (hne : ds ≠ decimal i) (prev : Option UInt8) :
    substitutePass (pattern i) rep 0 prev (36 :: ds ++ s) =
      36 :: ds ++ substitutePass (pattern i) rep 0 ((36 :: ds).getLast?) s := by
  rw [cons_append, substitutePass_miss,
    substitutePass_append (dollar_not_mem_of_digits hds), getLast?_or_some]
  · rfl
  · intro _ _
    rwa [takeWhile_digits hds hs]

/-- The placeholder of the pass is replaced. -/
theorem substitutePass_hit (hs : s.head?.any isDigit = false) (hprev : prev.any isAlnum = false) :
    substitutePass (pattern i) rep 0 prev (36 :: decimal i ++ s) =
      rep ++ substitutePass (pattern i) rep 0 rep.getLast? s := by
  have hlen : (pattern i).length - 1 = (decimal i).length := rfl
  rw [cons_append, substitutePass, if_pos]
  · rw [hlen, drop_left, hs, hprev]
    simp only [Bool.not_false, Bool.and_self, if_true]
    rw [substitutePass_skip]
  · exact cons_prefix_cons.mpr ⟨rfl, prefix_append _ _⟩

/-! ### Parameters as they are put in -/

/-- The digits at the beginning of a text are the same between its quotes. -/
theorem takeWhile_quoted (text s : Bytes) :
    (text.flatMap (fun c => if c = 39 then [39, 39] else [c]) ++ 39 :: s).takeWhile isDigit =
      text.takeWhile isDigit := by
  induction text with
  | nil => rfl
  | cons c text ih =>
    by_cases hq : c = 39
    · subst hq
      rfl
    · rw [flatMap_cons, if_neg hq, append_assoc, singleton_append, takeWhile_cons, takeWhile_cons, ih]

/-- The pass for an earlier parameter leaves the text between its quotes as it is. -/
theorem substitutePass_quoted {m : ℕ} (hpos : 0 < m) (hm : m < i)
    (h : namesBelow i prev text = false) (s : Bytes) :
    substitutePass (pattern m) rep 0 prev
        (text.flatMap (fun c => if c = 39 then [39, 39] else [c]) ++ 39 :: s) =
      text.flatMap (fun c => if c = 39 then [39, 39] else [c]) ++
        39 :: substitutePass (pattern m) rep 0 (some 39) s := by
  induction text generalizing prev with
  | nil => exact substitutePass_other (by decide) prev s
  | cons c text ih =>
    rw [namesBelow, Bool.or_eq_false_iff] at h
    rw [flatMap_cons]
    by_cases hq : c = 39
    · subst hq
      rw [if_pos rfl, append_assoc, cons_append, cons_append, nil_append,
        substitutePass_other (by decide), substitutePass_other (by decide), ih h.2]
      rfl
    · rw [if_neg hq, append_assoc, singleton_append, substitutePass_miss, ih h.2]
      · rfl
      · rintro rfl hprev hdigits
        have hfound : placeholderAt (i - 1) text = some m := by
          rw [takeWhile_quoted] at hdigits
          simp [placeholderAt, hdigits, digitsValue_decimal, hpos, Nat.le_sub_one_of_lt hm]
        simp [hprev, hfound] at h

theorem not_mem_of_looksLikeNumber (h : looksLikeNumber text = true) : 36 ∉ text := by
  intro hmem
  simp only [looksLikeNumber, Bool.and_eq_true] at h
  have hall := h.1.1
  split_ifs at hall with hsign
  · cases text with
    | nil => cases hmem
    | cons c text =>
      have hc : c ≠ 36 := by
        rintro rfl
        simp at hsign
      have hmem' : 36 ∈ text := by simpa [Ne.symm hc] using hmem
      exact absurd (all_eq_true.mp hall 36 hmem') (by decide)
  · exact absurd (all_eq_true.mp hall 36 hmem) (by decide)

theorem substitutePass_replacement {m : ℕ} (hpos : 0 < m) (hm : m < i) (h : plain i text = true)
    (prev : Option UInt8) (s : Bytes) : ∃ prev',
    substitutePass (pattern m) rep 0 prev (replacement text ++ s) =
      replacement text ++ substitutePass (pattern m) rep 0 prev' s := by
  unfold replacement
  split_ifs with hnumber
  · exact ⟨_, substitutePass_append (not_mem_of_looksLikeNumber hnumber) prev s⟩
  · rw [plain, Bool.and_eq_true, Bool.not_eq_true'] at h
    refine ⟨some 39, ?_⟩
    simp only [sqlQuoteLiteral, cons_append, append_assoc, nil_append]
    rw [substitutePass_other (by decide), substitutePass_quoted hpos hm h.1]

end Pass

/-! ## The text after some of the passes -/

/-- What replaces `$i`. -/
def replacementOf (params : List Bytes) (i : ℕ) : Bytes := replacement (params.getD (i - 1) [])

/-- A query, and its text after the passes for the parameters above `k`. -/
inductive Filled (params : List Bytes) (k : ℕ) : Bytes → Bytes → Prop
  | nil : Filled params k [] []
  | char {c : UInt8} {t s : Bytes} (hc : c ≠ 36) (h : Filled params k t s) :
    Filled params k (c :: t) (c :: s)
  /-- A `$` that is no placeholder, or one for a later pass. -/
  | keep {ds t s : Bytes} (hds : ∀ c ∈ ds, isDigit c = true) (ht : t.head?.any isDigit = false)
    (hne : ∀ i, k < i → i ≤ params.length → ds ≠ decimal i) (h : Filled params k t s) :
    Filled params k (36 :: ds ++ t) (36 :: ds ++ s)
  | hole {i : ℕ} {t s : Bytes} (hi : k < i) (hn : i ≤ params.length)
    (ht : t.head?.any isDigit = false) (h : Filled params k t s) :
    Filled params k (36 :: decimal i ++ t) (replacementOf params i ++ s)

theorem head?_dropWhile_isDigit (s : Bytes) : (s.dropWhile isDigit).head?.any isDigit = false := by
  cases h : s.dropWhile isDigit with
  | nil => rfl
  | cons c t =>
    have := head?_dropWhile_not isDigit s
    rw [h] at this
    simpa using this

/-- Before the first pass. -/
theorem Filled.refl (params : List Bytes) (s : Bytes) : Filled params params.length s s := by
  match s with
  | [] => exact .nil
  | c :: s =>
    by_cases hc : c = 36
    · subst hc
      have hsplit := takeWhile_append_dropWhile (p := isDigit) (l := s)
      have hrec := Filled.refl params (s.dropWhile isDigit)
      have hds : ∀ c ∈ s.takeWhile isDigit, isDigit c = true := fun c hc => mem_takeWhile_imp hc
      have hkeep := Filled.keep hds (head?_dropWhile_isDigit s)
        (fun i hi hn => absurd hn (Nat.not_le.mpr hi)) hrec
      rwa [cons_append, hsplit] at hkeep
    · exact .char hc (Filled.refl params s)
termination_by s.length
decreasing_by
  · exact Nat.lt_succ_of_le (dropWhile_suffix isDigit).length_le
  · exact Nat.lt_succ_self _

/-! ## Well placed placeholders -/

variable {params : List Bytes} {mode : Mode}

theorem Mode.next_of_digit {c : UInt8} (hc : isDigit c = true) (s : Bytes) :
    mode.next c s = mode := by
  have hne : ∀ x, isDigit x = false → c ≠ x := fun _ => ne_of_class hc
  cases mode <;> simp [Mode.next, hne 39 rfl, hne 45 rfl, hne 10 rfl, hne 13 rfl]

theorem Mode.next_dollar (mode : Mode) (s : Bytes) : mode.next 36 s = mode := by
  cases mode <;> simp [Mode.next]

section Placed

variable {prev : Option UInt8} {number : Bool} {c : UInt8}

theorem placed_char (hc : c ≠ 36) (h : placed params mode prev (c :: t) = true) :
    placed params (mode.next c t) (some c) t = true := by
  rw [placed, if_neg hc] at h
  simpa using h

theorem placed_code (h36 : c ≠ 36) (h39 : c ≠ 39) (h45 : c ≠ 45)
    (h : placed params .code prev (c :: t) = true) : placed params .code (some c) t = true := by
  have hrest := placed_char h36 h
  rwa [Mode.next, if_neg h39, if_neg fun h => h45 h.1] at hrest

theorem placed_digits (hds : ∀ c ∈ ds, isDigit c = true)
    (h : placed params mode prev (ds ++ t) = true) :
    placed params mode (ds.getLast?.or prev) t = true := by
  induction ds generalizing prev with
  | nil => exact h
  | cons c ds ih =>
    obtain ⟨hc, hds⟩ := forall_mem_cons.mp hds
    have hrest := placed_char (ne_of_class hc rfl) h
    rw [Mode.next_of_digit hc] at hrest
    rw [getLast?_cons_or, ← getLast?_or_some]
    exact ih hds hrest

/-- After a `$` and its digits. -/
theorem placed_run (hds : ∀ c ∈ ds, isDigit c = true)
    (h : placed params mode prev (36 :: ds ++ t) = true) :
    placed params mode (36 :: ds).getLast? t = true := by
  rw [cons_append, placed, Bool.and_eq_true, Mode.next_dollar] at h
  have hrest := placed_digits hds h.2
  rwa [getLast?_or_some] at hrest

/-- A placeholder is well placed. -/
theorem placed_hole (hpos : 0 < i) (hn : i ≤ params.length)
    (ht : t.head?.any isDigit = false) (h : placed params mode prev (36 :: decimal i ++ t) = true) :
    mode = .code ∧ freeLeft (looksLikeNumber (params.getD (i - 1) [])) prev = true ∧
      freeRight (looksLikeNumber (params.getD (i - 1) [])) t.head? = true ∧
      plain i (params.getD (i - 1) []) = true := by
  rw [cons_append, placed, if_pos rfl, placeholderAt_decimal hpos hn ht, Bool.and_eq_true] at h
  have hstand := h.1
  rw [all_some, mayStand,
    dropWhile_digits (fun _ hc => isDigit_of_mem_decimal hc) ht] at hstand
  simpa [and_assoc] using hstand

theorem freeLeft_not_alnum (h : freeLeft number prev = true) : prev.any isAlnum = false := by
  cases prev with
  | none => rfl
  | some p =>
    simp only [freeLeft, any_some, Bool.not_eq_true', Bool.or_eq_false_iff] at h
    exact h.1.1

theorem isAlnum_of_isDigit (h : isDigit c = true) : isAlnum c = true := by
  simp [isAlnum, h]

/-- The byte before what follows a placeholder. -/
theorem isAlnum_decimal (i : ℕ) : (36 :: decimal i).getLast?.any isAlnum = true := by
  rw [getLast?_cons, any_some, getLast?_eq_some_getLast (decimal_ne_nil _), getD_some]
  exact isAlnum_of_isDigit (isDigit_of_mem_decimal (getLast_mem _))

/-- A placeholder does not stand right after a `$` and its digits. -/
theorem freeLeft_run (hds : ∀ c ∈ ds, isDigit c = true) :
    freeLeft number (36 :: ds).getLast? = false := by
  cases ds with
  | nil => cases number <;> decide
  | cons c ds =>
    have hlast : (36 :: c :: ds).getLast? = some ((c :: ds).getLast (cons_ne_nil c ds)) := by
      rw [getLast?_cons_cons, getLast?_eq_some_getLast]
    have hdigit := hds _ (getLast_mem (cons_ne_nil c ds))
    rw [hlast, freeLeft, any_some, isAlnum_of_isDigit hdigit]
    rfl

end Placed

/-- The text goes on as the query does, except at a placeholder. -/
theorem Filled.head?_eq (h : Filled params k t s) :
    s.head? = t.head? ∨ ∃ i t' s', k < i ∧ i ≤ params.length ∧ t'.head?.any isDigit = false ∧
      Filled params k t' s' ∧ t = 36 :: decimal i ++ t' ∧ s = replacementOf params i ++ s' := by
  cases h with
  | nil => exact .inl rfl
  | char hc h => exact .inl rfl
  | keep hds ht hne h => exact .inl rfl
  | hole hi hn ht h => exact .inr ⟨_, _, _, hi, hn, ht, h, rfl, rfl⟩

/-- After a `$` and its digits. -/
theorem Filled.head?_after_run (h : Filled params k t s)
    (hds : ∀ c ∈ ds, isDigit c = true) (hplaced : placed params mode (36 :: ds).getLast? t = true) :
    s.head? = t.head? := by
  rcases h.head?_eq with heq | ⟨i, t', s', hi, hn, ht, -, rfl, rfl⟩
  · exact heq
  · have hfree := (placed_hole (Nat.zero_lt_of_lt hi) hn ht hplaced).2.1
    rw [freeLeft_run hds] at hfree
    cases hfree

/-! ## All passes -/

/-- **One pass.**  The byte before is that of the query, or the query has an end of a
placeholder there. -/
theorem Filled.pass (hk : k < params.length) (h : Filled params (k + 1) t s)
    {prevT prevS : Option UInt8} (hplaced : placed params mode prevT t = true)
    (hprev : prevS = prevT ∨ prevT.any isAlnum = true) :
    Filled params k t
      (substitutePass (pattern (k + 1)) (replacement (params.getD k [])) 0 prevS s) := by
  induction h generalizing mode prevT prevS with
  | nil => exact .nil
  | char hc h ih =>
    rw [substitutePass_other hc]
    exact .char hc (ih (placed_char hc hplaced) (.inl rfl))
  | @keep ds t s hds ht hne h ih =>
    have hrest := placed_run hds hplaced
    have hs : s.head?.any isDigit = false := by
      rw [h.head?_after_run hds hrest]
      exact ht
    by_cases heq : ds = decimal (k + 1)
    · subst heq
      have hfree := (placed_hole (Nat.succ_pos k) hk ht hplaced).2.1
      have hnot := freeLeft_not_alnum hfree
      have hprevS : prevS.any isAlnum = false := by
        rcases hprev with rfl | hprev
        · exact hnot
        · rw [hnot] at hprev
          cases hprev
      rw [substitutePass_hit hs hprevS]
      exact .hole (Nat.lt_succ_self k) hk ht (ih hrest (.inr (isAlnum_decimal _)))
    · rw [substitutePass_keep hds hs heq]
      refine .keep hds ht ?_ (ih hrest (.inl rfl))
      intro i hi hn
      rcases Nat.lt_or_ge (k + 1) i with hlt | hge
      · exact hne i hlt hn
      · obtain rfl : i = k + 1 := Nat.le_antisymm hge hi
        exact heq
  | @hole i t s hi hn ht h ih =>
    have hrest := placed_run (fun _ hc => isDigit_of_mem_decimal hc) hplaced
    obtain ⟨-, -, -, hplain⟩ := placed_hole (Nat.zero_lt_of_lt hi) hn ht hplaced
    obtain ⟨prev, hpass⟩ := substitutePass_replacement (Nat.succ_pos k) hi hplain prevS s
    rw [replacementOf, hpass]
    exact .hole (Nat.lt_of_succ_lt hi) hn ht (ih hrest (.inr (isAlnum_decimal i)))

theorem Filled.substituteDown (hplaced : placed params .code none query = true) (hk : k ≤ params.length)
    (h : Filled params k query s) : Filled params 0 query (Pgwire.substituteDown params k s) := by
  induction k generalizing s with
  | zero => exact h
  | succ k ih =>
    rw [Pgwire.substituteDown]
    exact ih (Nat.le_of_succ_le hk) (h.pass hk hplaced (.inl rfl))

/-- **All passes together replace the placeholders and nothing else.** -/
theorem filled_substituteParams
    (hplaced : placed params .code none query = true) :
    Filled params 0 query (substituteParams query params) :=
  (Filled.refl params query).substituteDown hplaced (le_refl _)

end TransDb.Pgwire
