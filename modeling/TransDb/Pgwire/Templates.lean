import TransDb.Pgwire.Params

/-!
# Tokens of a statement with parameters

What a statement with placeholders means is given by its own tokens, where `$i` is one of
them.  The text after `SubstituteParams` is read by the tokenizer of the parser.

* `templateTokens` — the tokens of a statement with placeholders.
* `Fills` — a token in the place of another.
* `tokens_substituteParams` — **placeholders become literals and nothing else changes**, if the
  placeholders are well placed.
-/

namespace TransDb.Pgwire

open List Sql

/-! ## Templates -/

/-- A token or a parameter. -/
inductive TemplateToken where
  | token (type : TokenType) (value : Bytes)
  | placeholder (i : ℕ)
  deriving DecidableEq

/-- A placeholder that begins with this byte. -/
def placeholder? (n : ℕ) (c : UInt8) (rest : Bytes) : Option ℕ :=
  if c = 36 then placeholderAt n rest else none

/-- The tokens of a template. -/
def templateLoop (n : ℕ) : ℕ → Bytes → List TemplateToken
  | 0, _ => []
  | fuel + 1, s =>
    match skipWsAndComments s with
    | [] => [.token .endOfInput []]
    | c :: rest =>
      match placeholder? n c rest with
      | some i => .placeholder i :: templateLoop n fuel (rest.dropWhile isDigit)
      | none =>
        match scanToken c rest with
        | .token type value rest => .token type value :: templateLoop n fuel rest
        | .unknown value => [.token .unknown value]

/-- The tokens of a statement with placeholders for `n` parameters. -/
def templateTokens (n : ℕ) (query : Bytes) : List TemplateToken :=
  templateLoop n (query.length + 1) query

/-- A literal's token. -/
def isLiteral : TokenType → Bool
  | .numberInt | .numberFloat | .stringLit => true
  | _ => false

/-- A token in the place of one of the template: the same, or a literal with the text of the
parameter. -/
def Fills (params : List Bytes) : TemplateToken → TokenType × Bytes → Prop
  | .token type value, t => t = (type, value)
  | .placeholder i, t => isLiteral t.1 = true ∧ params[i - 1]? = some t.2

instance (params : List Bytes) : DecidableRel (Fills params)
  | .token type value, t => inferInstanceAs (Decidable (t = (type, value)))
  | .placeholder i, t =>
    inferInstanceAs (Decidable (isLiteral t.1 = true ∧ params[i - 1]? = some t.2))

/-! ## The first byte of a replacement -/

/-- A digit, a dot or a quote: what a replacement begins with. -/
def opens (c : UInt8) : Bool := isDigit c || c == 46 || c == 39

/-- A number that is put in: digits, with a dot at most. -/
theorem number_shape {i : ℕ} {text : Bytes} (hplain : plain i text = true)
    (hnumber : looksLikeNumber text = true) :
    ∃ ds, (∀ c ∈ ds, isDigit c = true) ∧ ((text = ds ∧ ds ≠ []) ∨
      ∃ more, (∀ c ∈ more, isDigit c = true) ∧ text = ds ++ 46 :: more ∧
        (ds ≠ [] ∨ more ≠ [])) := by
  rw [plain, hnumber, Bool.and_eq_true] at hplain
  have hsign := hplain.2
  simp only [Bool.true_and, Bool.not_eq_true', Bool.or_eq_false_iff, beq_eq_false_iff_ne] at hsign
  simp only [looksLikeNumber, if_neg (not_or.mpr hsign), Bool.and_eq_true, all_eq_true,
    Bool.or_eq_true, beq_iff_eq, decide_eq_true_eq, any_eq_true] at hnumber
  obtain ⟨⟨hall, hcount⟩, d, hd, hdigit⟩ := hnumber
  have hsplit := takeWhile_append_dropWhile (p := isDigit) (l := text)
  have hds : ∀ c ∈ text.takeWhile isDigit, isDigit c = true := fun c hc => mem_takeWhile_imp hc
  refine ⟨text.takeWhile isDigit, hds, ?_⟩
  cases hdrop : text.dropWhile isDigit with
  | nil =>
    rw [hdrop, append_nil] at hsplit
    refine .inl ⟨hsplit.symm, ?_⟩
    rintro hnil
    rw [← hsplit, hnil] at hd
    cases hd
  | cons c more =>
    rw [hdrop] at hsplit
    have hc : isDigit c = false := by
      have := head?_dropWhile_isDigit text
      rw [hdrop] at this
      simpa using this
    have hdot : c = 46 := by
      rcases hall c (by rw [← hsplit]; simp) with h | h
      · rw [hc] at h
        cases h
      · exact h
    subst hdot
    have hmore : ∀ c ∈ more, isDigit c = true := by
      intro c hmem
      rcases hall c (by rw [← hsplit]; simp [hmem]) with h | h
      · exact h
      · -- a second dot
        subst h
        rw [← hsplit, count_append, count_cons_self] at hcount
        have := count_pos_iff.mpr hmem
        omega
    refine .inr ⟨more, hmore, hsplit.symm, ?_⟩
    by_contra hnone
    obtain ⟨hds0, hmore0⟩ := not_or.mp hnone
    rw [not_not] at hds0 hmore0
    rw [← hsplit, hds0, hmore0] at hd
    obtain rfl : d = 46 := by simpa using hd
    exact absurd hdigit (by decide)

theorem opens_replacement {i : ℕ} {text : Bytes} (hplain : plain i text = true) :
    ∃ c rest, replacement text = c :: rest ∧ opens c = true ∧
      (c = 39 ↔ looksLikeNumber text = false) := by
  have hdigit : ∀ c, isDigit c = true → c ≠ 39 := fun c hc => ne_of_class hc rfl
  unfold replacement
  split_ifs with hnumber
  · rw [hnumber]
    obtain ⟨ds, hds, ⟨rfl, hne⟩ | ⟨more, hmore, rfl, hne⟩⟩ := number_shape hplain hnumber
    · obtain ⟨c, ds, rfl⟩ := exists_cons_of_ne_nil hne
      have hc := hds c mem_cons_self
      exact ⟨c, ds, rfl, by simp [opens, hc], by simp [hdigit c hc]⟩
    · cases ds with
      | nil => exact ⟨46, more, rfl, by decide, by decide⟩
      | cons c ds =>
        have hc := hds c mem_cons_self
        exact ⟨c, ds ++ 46 :: more, rfl, by simp [opens, hc], by simp [hdigit c hc]⟩
  · exact ⟨39, _, rfl, by decide, by simp [hnumber]⟩

/-! ## The literal of a parameter -/

theorem scanString_quoted {text s : Bytes} (hs : s.head? ≠ some 39) :
    scanString (text.flatMap (fun c => if c = 39 then [39, 39] else [c]) ++ 39 :: s) =
      some (text, s) := by
  induction text with
  | nil => exact scanString_close hs
  | cons c text ih =>
    rw [flatMap_cons]
    by_cases hc : c = 39
    · subst hc
      rw [if_pos rfl, append_assoc, cons_append, cons_append, nil_append,
        scanString_escape, ih]
      rfl
    · rw [if_neg hc, append_assoc, cons_append, nil_append, scanString_other hc, ih]
      rfl

variable {s rest : Bytes}

theorem scanNumber_int (h : s.dropWhile isDigit = rest) (hdot : rest.head? ≠ some 46) :
    scanNumber s = .token .numberInt (s.takeWhile isDigit) rest := by
  unfold scanNumber
  rw [h]
  split
  · simp at hdot
  · rfl

theorem scanNumber_dot (h : s.dropWhile isDigit = 46 :: rest) :
    scanNumber s = .token .numberFloat (s.takeWhile isDigit ++ 46 :: rest.takeWhile isDigit)
      (rest.dropWhile isDigit) := by
  simp only [scanNumber, h]

theorem not_isIdentStart_digit : ∀ c, isDigit c = true → isIdentStart c = false := by
  decide +kernel

/-- **The tokenizer reads a parameter as one literal with its text.** -/
theorem scanToken_replacement {i : ℕ} {text s : Bytes} (hplain : plain i text = true)
    (hs : s.head?.any isDigit = false)
    (hfree : freeRight (looksLikeNumber text) s.head? = true) :
    ∃ c rest type, replacement text ++ s = c :: rest ∧ isLiteral type = true ∧
      scanToken c rest = .token type text s := by
  unfold replacement
  split_ifs with hnumber
  · rw [hnumber] at hfree
    have hdot : s.head? ≠ some 46 := by
      intro h
      rw [h] at hfree
      exact absurd hfree (by decide)
    obtain ⟨ds, hds, ⟨rfl, hne⟩ | ⟨more, hmore, rfl, hne⟩⟩ := number_shape hplain hnumber
    · obtain ⟨c, ds, rfl⟩ := exists_cons_of_ne_nil hne
      have hc := hds c (by simp)
      refine ⟨c, ds ++ s, .numberInt, rfl, rfl, ?_⟩
      rw [scanToken, if_neg (by simp [not_isIdentStart_digit c hc]), if_pos (by simp [hc]),
        ← cons_append, scanNumber_int (dropWhile_digits hds hs) hdot, takeWhile_digits hds hs]
    · have hhead : (46 :: (more ++ s)).head?.any isDigit = false := rfl
      have hscan := scanNumber_dot (dropWhile_digits hds hhead)
      rw [takeWhile_digits hds hhead, takeWhile_digits hmore hs, dropWhile_digits hmore hs] at hscan
      cases ds with
      | nil =>
        have hmore0 : more ≠ [] := hne.resolve_left (by simp)
        obtain ⟨d, more, rfl⟩ := exists_cons_of_ne_nil hmore0
        have hd := hmore d (by simp)
        refine ⟨46, d :: more ++ s, .numberFloat, rfl, rfl, ?_⟩
        rw [scanToken, if_neg (by decide), if_pos (by simp [hd])]
        exact hscan
      | cons c ds =>
        have hc := hds c (by simp)
        refine ⟨c, ds ++ 46 :: (more ++ s), .numberFloat, by simp, rfl, ?_⟩
        rw [scanToken, if_neg (by simp [not_isIdentStart_digit c hc]), if_pos (by simp [hc])]
        exact hscan
  · have hquote : s.head? ≠ some 39 := by
      intro h
      rw [h] at hfree
      simp [freeRight, hnumber] at hfree
    refine ⟨39, text.flatMap (fun c => if c = 39 then [39, 39] else [c]) ++ 39 :: s, .stringLit,
      by simp [sqlQuoteLiteral], rfl, ?_⟩
    exact scanToken_quote (scanString_quoted hquote)

/-! ## The text follows the query -/

section Follow

variable {params : List Bytes} {t : Bytes} {prev : Option UInt8} {k : ℕ}

/-- The next byte: the same, or the beginning of a replacement. -/
theorem Filled.head?_cases (h : Filled params k t s)
    {mode : Mode} (hplaced : placed params mode prev t = true) :
    s.head? = t.head? ∨ t.head? = some 36 ∧ ∃ number c, s.head? = some c ∧ opens c = true ∧
      (c = 39 ↔ number = false) ∧ freeLeft number prev = true := by
  rcases h.head?_eq with heq | ⟨i, t', s', hi, hn, ht, -, rfl, rfl⟩
  · exact .inl heq
  · have hpos := Nat.zero_lt_of_lt hi
    obtain ⟨-, hfree, -, hplain⟩ := placed_hole hpos hn ht hplaced
    obtain ⟨c, rest, hrep, hopens, hquote⟩ := opens_replacement hplain
    rw [replacementOf, hrep]
    exact .inr ⟨rfl, _, c, rfl, hopens, hquote, hfree⟩

variable {x : UInt8}

/-- A byte that opens no replacement comes next in both or in neither. -/
theorem Filled.head?_iff (h : Filled params k t s)
    {mode : Mode} (hplaced : placed params mode prev t = true) (hx : opens x = false)
    (hdollar : x ≠ 36) : s.head? = some x ↔ t.head? = some x := by
  rcases h.head?_cases hplaced with heq | ⟨ht, -, c, hs, hopens, -, -⟩
  · rw [heq]
  · rw [ht, hs]
    constructor
    · intro h
      cases h
      rw [hx] at hopens
      cases hopens
    · intro h
      cases h
      exact absurd rfl hdollar

variable {c : UInt8}

/-- What follows a byte other than `$`. -/
theorem Filled.tail (hc : c ≠ 36) (h : Filled params k (c :: t) s) :
    ∃ s', s = c :: s' ∧ Filled params k t s' := by
  cases h with
  | char _ h => exact ⟨_, rfl, h⟩
  | keep _ _ _ _ => exact absurd rfl hc
  | hole _ _ _ _ => exact absurd rfl hc

/-- A sequence of bytes of one class is the same in both, if a replacement that comes right
after it does not continue it. -/
theorem Filled.span {p : UInt8 → Bool} (h36 : p 36 = false)
    (h39 : p 39 = false) (h45 : p 45 = false)
    (hstop : ∀ x, p x = true → freeLeft true (some x) = false) (h : Filled params k t s)
    (hplaced : placed params .code prev t = true) (hprev : freeLeft true prev = false) :
    s.takeWhile p = t.takeWhile p ∧ Filled params k (t.dropWhile p) (s.dropWhile p) ∧
      placed params .code ((t.takeWhile p).getLast?.or prev) (t.dropWhile p) = true := by
  induction t generalizing s prev with
  | nil =>
    cases h
    exact ⟨rfl, .nil, rfl⟩
  | cons c t ih =>
    by_cases hc : p c = true
    · have hne := ne_of_class hc h36
      obtain ⟨s', rfl, hs⟩ := h.tail hne
      have hrest := placed_code hne (ne_of_class hc h39) (ne_of_class hc h45) hplaced
      obtain ⟨htake, hfilled, hend⟩ := ih hs hrest (hstop c hc)
      rw [takeWhile_cons_of_pos hc, takeWhile_cons_of_pos hc,
        dropWhile_cons_of_pos hc, dropWhile_cons_of_pos hc, htake]
      refine ⟨rfl, hfilled, ?_⟩
      rwa [getLast?_cons_or, ← getLast?_or_some]
    · -- the sequence ends here in the query, and a replacement does not go on with it
      have hstart : s.head?.any p = false := by
        rcases h.head?_cases hplaced with heq | ⟨-, number, d, hs, -, hquote, hfree⟩
        · rw [heq]
          simpa using hc
        · cases number with
          | true =>
            rw [hprev] at hfree
            cases hfree
          | false =>
            rw [hs, hquote.mpr rfl]
            exact h39
      have hs : s.takeWhile p = [] ∧ s.dropWhile p = s := by
        cases s with
        | nil => exact ⟨rfl, rfl⟩
        | cons d s =>
          have hd : ¬ p d = true := by simpa using hstart
          exact ⟨takeWhile_cons_of_neg hd, dropWhile_cons_of_neg hd⟩
      rw [takeWhile_cons_of_neg hc, dropWhile_cons_of_neg hc, hs.1, hs.2]
      exact ⟨rfl, h, hplaced⟩

/-! ## Blanks and comments -/

theorem skipFrom_true_append {x : Bytes} (h10 : 10 ∉ x) (h13 : 13 ∉ x) (s : Bytes) :
    skipFrom true (x ++ s) = skipFrom true s := by
  induction x with
  | nil => rfl
  | cons c x ih =>
    have hc10 : c ≠ 10 := fun h => h10 (h ▸ mem_cons_self)
    have hc13 : c ≠ 13 := fun h => h13 (h ▸ mem_cons_self)
    have hflag : (c != 10 && c != 13) = true := by simp [hc10, hc13]
    rw [cons_append, skipFrom, hflag]
    exact ih (fun h => h10 (mem_cons_of_mem c h)) fun h => h13 (mem_cons_of_mem c h)

theorem skipFrom_of_opens (h : opens c = true) (s : Bytes) :
    skipFrom false (c :: s) = c :: s := by
  have hspace : ∀ c, opens c = true → isSpace c = false := by decide +kernel
  have hdash : c ≠ 45 := ne_of_class h rfl
  rw [skipFrom, if_neg (by simp [hspace c h]), if_neg (by simp [hdash])]

/-- Blanks and comments of the query are those of the text. -/
theorem Filled.skip {comment : Bool}
    (h : Filled params k t s)
    (hplaced : placed params (if comment then .comment else .code) prev t = true) :
    Filled params k (skipFrom comment t) (skipFrom comment s) ∧
      ∃ prev', placed params .code prev' (skipFrom comment t) = true := by
  induction h generalizing comment prev with
  | nil =>
    cases comment
    · exact ⟨.nil, prev, rfl⟩
    · exact ⟨.nil, prev, rfl⟩
  | @char c t s hc h ih =>
    have hrest := placed_char hc hplaced
    cases comment with
    | true =>
      have hmode : Mode.comment.next c t = if c != 10 && c != 13 then .comment else .code := by
        by_cases h10 : c = 10
        · simp [Mode.next, h10]
        · by_cases h13 : c = 13
          · simp [Mode.next, h13]
          · simp [Mode.next, h10, h13]
      rw [if_pos rfl, hmode] at hrest
      exact ih hrest
    | false =>
      rw [if_neg (by simp)] at hrest hplaced
      rw [skipFrom, skipFrom]
      by_cases hspace : isSpace c = true
      · rw [if_pos hspace, if_pos hspace]
        exact ih (placed_code hc (ne_of_class hspace rfl) (ne_of_class hspace rfl) hplaced)
      rw [if_neg hspace, if_neg hspace]
      have hiff := h.head?_iff hrest (x := 45) (by decide) (by decide)
      by_cases hdash : c = 45 ∧ t.head? = some 45
      · obtain ⟨rfl, ht⟩ := hdash
        have hmode : Mode.code.next 45 t = .comment := by simp [Mode.next, ht]
        rw [hmode] at hrest
        rw [if_pos (by simp [ht]), if_pos (by simp [hiff.mpr ht])]
        exact ih hrest
      · have hs : ¬ (c = 45 ∧ s.head? = some 45) := by rwa [hiff]
        rw [if_neg (by simpa using hdash), if_neg (by simpa using hs)]
        exact ⟨.char hc h, prev, hplaced⟩
  | @keep ds t s hds ht hne h ih =>
    cases comment with
    | true =>
      have hrest := placed_run hds hplaced
      have hnot : ∀ x : UInt8, isDigit x = false → x ≠ 36 → x ∉ 36 :: ds := by
        intro x hx h36 hmem
        rcases mem_cons.mp hmem with rfl | hmem
        · exact h36 rfl
        · rw [hds x hmem] at hx
          cases hx
      rw [skipFrom_true_append (hnot 10 (by decide) (by decide)) (hnot 13 (by decide) (by decide)),
        skipFrom_true_append (hnot 10 (by decide) (by decide)) (hnot 13 (by decide) (by decide))]
      exact ih hrest
    | false =>
      have hkeep : ∀ x : Bytes, skipFrom false (36 :: ds ++ x) = 36 :: ds ++ x := fun x => rfl
      rw [hkeep, hkeep]
      exact ⟨.keep hds ht hne h, prev, hplaced⟩
  | @hole i t s hi hn ht h ih =>
    have hpos := Nat.zero_lt_of_lt hi
    obtain ⟨hmode, -, -, hplain⟩ := placed_hole hpos hn ht hplaced
    cases comment with
    | true => cases hmode
    | false =>
      obtain ⟨c, rest, hrep, hopens, -⟩ := opens_replacement hplain
      have hkeep : skipFrom false (36 :: decimal i ++ t) = 36 :: decimal i ++ t := rfl
      have hskip : skipFrom false (replacementOf params i ++ s) = replacementOf params i ++ s := by
        rw [replacementOf, hrep]
        exact skipFrom_of_opens hopens _
      rw [hkeep, hskip]
      exact ⟨.hole hi hn ht h, prev, hplaced⟩

/-! ## One token -/

/-- Both literals end, and what follows goes on alike; or neither ends. -/
def SameString (params : List Bytes) (k : ℕ) (t s : Bytes) : Prop :=
  (scanString t = none ∧ scanString s = none) ∨ ∃ literal t' s',
    scanString t = some (literal, t') ∧ scanString s = some (literal, s') ∧
      Filled params k t' s' ∧ placed params .code (some 39) t' = true

theorem SameString.map {t' s' x : Bytes} (h : SameString params k t s)
    (ht : scanString t' = (scanString t).map fun r => (x ++ r.1, r.2))
    (hs : scanString s' = (scanString s).map fun r => (x ++ r.1, r.2)) :
    SameString params k t' s' := by
  rcases h with ⟨h1, h2⟩ | ⟨literal, after, after', h1, h2, hf, hp⟩
  · rw [h1] at ht
    rw [h2] at hs
    exact .inl ⟨ht, hs⟩
  · rw [h1] at ht
    rw [h2] at hs
    exact .inr ⟨x ++ literal, after, after', ht, hs, hf, hp⟩

/-- A string literal of the query is one of the text. -/
theorem Filled.sameString (h : Filled params k t s)
    (hplaced : placed params .quoted prev t = true) : SameString params k t s := by
  -- by the length of the query: a doubled quote takes two bytes, a dollar sign its digits
  induction hn : t.length using Nat.strong_induction_on generalizing t s prev with
  | _ n ih =>
    subst hn
    cases h with
    | nil => exact .inl ⟨rfl, rfl⟩
    | @keep ds t s hds ht hne h =>
      have hquote : 39 ∉ 36 :: ds := by
        intro hmem
        rcases mem_cons.mp hmem with h39 | hmem
        · exact absurd h39 (by decide)
        · exact absurd (hds 39 hmem) (by decide)
      have hrest := placed_run hds hplaced
      refine (ih t.length ?_ h hrest rfl).map (scanString_append hquote t)
        (scanString_append hquote s)
      simp
    | hole hi hn ht h =>
      have hmode := (placed_hole (Nat.zero_lt_of_lt hi) hn ht hplaced).1
      cases hmode
    | @char c t s hc h =>
      have hrest := placed_char hc hplaced
      by_cases hquote : c = 39
      · subst hquote
        have hmode : Mode.quoted.next 39 t = .code := rfl
        rw [hmode] at hrest
        by_cases hescape : t.head? = some 39
        · -- a doubled quote: out of the literal and in again
          obtain ⟨t', rfl⟩ := head?_eq_some_iff.mp hescape
          obtain ⟨s', rfl, hs⟩ := h.tail (by decide)
          have hrest' : placed params .quoted (some 39) t' = true := placed_char (by decide) hrest
          have hlen : t'.length < (39 :: 39 :: t').length := by simp
          exact (ih t'.length hlen hs hrest' rfl).map (x := [39]) (scanString_escape t')
            (scanString_escape s')
        · have hescape' : s.head? ≠ some 39 := by
            rcases h.head?_cases hrest with heq | ⟨-, number, c, hc, -, hstring, hfree⟩
            · rwa [heq]
            · cases number with
              | false => exact absurd hfree (by decide)
              | true =>
                -- a number after a literal does not continue it
                rw [hc]
                intro h39
                exact absurd (hstring.mp (Option.some.inj h39)) (by simp)
          exact .inr ⟨[], t, s, scanString_close hescape, scanString_close hescape', h, hrest⟩
      · have hmode : Mode.quoted.next c t = .quoted := by simp [Mode.next, hquote]
        rw [hmode] at hrest
        exact (ih t.length (by simp) h hrest rfl).map (x := [c]) (scanString_other hquote t)
          (scanString_other hquote s)

/-- The same token with what follows going on alike, or the same lexer error. -/
def SameToken (params : List Bytes) (k : ℕ) (a b : Scanned) : Prop :=
  (∃ value, a = .unknown value ∧ b = .unknown value) ∨ ∃ type value t s prev,
    a = .token type value t ∧ b = .token type value s ∧ Filled params k t s ∧
      placed params .code prev t = true

theorem SameToken.token {type : TokenType} {value : Bytes} (h : Filled params k t s)
    (hplaced : placed params .code prev t = true) :
    SameToken params k (.token type value t) (.token type value s) :=
  .inr ⟨_, _, _, _, _, rfl, rfl, h, hplaced⟩

theorem Filled.scanIdent
    (hc : isIdentCont c = true) (h : Filled params k t s)
    (hplaced : placed params .code (some c) t = true) :
    SameToken params k (Sql.scanIdent (c :: t)) (Sql.scanIdent (c :: s)) := by
  have hstop : ∀ x, isIdentCont x = true → freeLeft true (some x) = false := by
    decide +kernel
  obtain ⟨htake, hfilled, hend⟩ := h.span (p := isIdentCont) (by decide) (by decide)
    (by decide) hstop hplaced (hstop c hc)
  have htakes : ∀ x : Bytes, (c :: x).takeWhile isIdentCont = c :: x.takeWhile isIdentCont :=
    fun x => takeWhile_cons_of_pos hc
  have hdrops : ∀ x : Bytes, (c :: x).dropWhile isIdentCont = x.dropWhile isIdentCont :=
    fun x => dropWhile_cons_of_pos hc
  simp only [Sql.scanIdent, htakes, hdrops, htake]
  exact .token hfilled hend

theorem freeLeft_digit (hx : isDigit x = true) : freeLeft true (some x) = false := by
  simp [freeLeft, isAlnum_of_isDigit hx]

/-- A number: digits, and after a dot more of them. -/
theorem Filled.scanNumber
    (hc : isDigit c = true ∨ c = 46) (h : Filled params k t s)
    (hplaced : placed params .code (some c) t = true) :
    SameToken params k (Sql.scanNumber (c :: t)) (Sql.scanNumber (c :: s)) := by
  have hspan : ∀ {c : UInt8} {t s : Bytes}, freeLeft true (some c) = false → Filled params k t s →
      placed params .code (some c) t = true →
      s.takeWhile isDigit = t.takeWhile isDigit ∧
        Filled params k (t.dropWhile isDigit) (s.dropWhile isDigit) ∧
        placed params .code ((t.takeWhile isDigit).getLast?.or (some c)) (t.dropWhile isDigit)
          = true := by
    intro c t s hfree h hplaced
    exact h.span (p := isDigit) (by decide) (by decide) (by decide)
      (fun x hx => freeLeft_digit hx) hplaced hfree
  by_cases hdigit : isDigit c = true
  · obtain ⟨htake, hfilled, hend⟩ := hspan (freeLeft_digit hdigit) h hplaced
    have htakes : ∀ x : Bytes, (c :: x).takeWhile isDigit = c :: x.takeWhile isDigit :=
      fun x => takeWhile_cons_of_pos hdigit
    have hdrops : ∀ x : Bytes, (c :: x).dropWhile isDigit = x.dropWhile isDigit :=
      fun x => dropWhile_cons_of_pos hdigit
    by_cases hdot : (t.dropWhile isDigit).head? = some 46
    · -- a dot and more digits
      obtain ⟨t', ht'⟩ := head?_eq_some_iff.mp hdot
      rw [ht'] at hfilled hend
      obtain ⟨s', hs', hf'⟩ := hfilled.tail (by decide)
      have hend' : placed params .code (some 46) t' = true := placed_char (by decide) hend
      obtain ⟨htake', hfilled', hend''⟩ := hspan (by decide) hf' hend'
      rw [scanNumber_dot ((hdrops t).trans ht'), scanNumber_dot ((hdrops s).trans hs'), htakes,
        htakes, htake, htake']
      exact .token hfilled' hend''
    · have hdot' : (s.dropWhile isDigit).head? ≠ some 46 := by
        rcases hfilled.head?_cases hend with heq | ⟨-, number, d, hd, -, hquote, hfree⟩
        · rwa [heq]
        · -- a placeholder does not follow a digit
          have hlast : freeLeft number ((t.takeWhile isDigit).getLast?.or (some c)) = false := by
            rw [getLast?_or_some, getLast?_eq_some_getLast (cons_ne_nil c _)]
            have hmem := getLast_mem (cons_ne_nil c (t.takeWhile isDigit))
            have hlast : isDigit ((c :: t.takeWhile isDigit).getLast (cons_ne_nil c _)) = true := by
              rcases mem_cons.mp hmem with heq | hmem
              · rw [heq]
                exact hdigit
              · exact mem_takeWhile_imp hmem
            simp [freeLeft, isAlnum_of_isDigit hlast]
          rw [hlast] at hfree
          cases hfree
      rw [scanNumber_int (hdrops t) hdot, scanNumber_int (hdrops s) hdot', htakes, htakes, htake]
      exact .token hfilled hend
  · obtain rfl := hc.resolve_left hdigit
    obtain ⟨htake, hfilled, hend⟩ := hspan (by decide) h hplaced
    have hdrops : ∀ x : Bytes, (46 :: x).dropWhile isDigit = 46 :: x :=
      fun x => dropWhile_cons_of_neg (by decide)
    have htakes : ∀ x : Bytes, (46 :: x).takeWhile isDigit = [] :=
      fun x => takeWhile_cons_of_neg (by decide)
    rw [scanNumber_dot (hdrops t), scanNumber_dot (hdrops s), htakes, htakes, htake]
    exact .token hfilled hend

/-- After a byte that is the same in both. -/
theorem Filled.step (h36 : x ≠ 36) (h39 : x ≠ 39) (h45 : x ≠ 45)
    (h : Filled params k t s) (hplaced : placed params .code prev t = true)
    (hx : t.head? = some x) :
    Filled params k t.tail s.tail ∧ placed params .code (some x) t.tail = true := by
  obtain ⟨t, rfl⟩ := head?_eq_some_iff.mp hx
  obtain ⟨s', rfl, hs⟩ := h.tail h36
  exact ⟨hs, placed_code h36 h39 h45 hplaced⟩

theorem Filled.scanSymbol (c : UInt8)
    (h : Filled params k t s) (hplaced : placed params .code prev t = true) :
    SameToken params k (Sql.scanSymbol c t) (Sql.scanSymbol c s) := by
  have heq := h.head?_iff hplaced (x := 61) (by decide) (by decide)
  have hgt := h.head?_iff hplaced (x := 62) (by decide) (by decide)
  unfold Sql.scanSymbol
  simp only [heq, hgt]
  cases symbols.lookup c with
  | some type => exact .token h hplaced
  | none =>
    simp only
    by_cases h61 : t.head? = some 61
    · obtain ⟨hf, hp⟩ := h.step (by decide) (by decide) (by decide) hplaced h61
      simp only [if_pos h61]
      split_ifs
      · exact .token hf hp
      · exact .token hf hp
      · exact .token hf hp
      · exact .inl ⟨_, rfl, rfl⟩
    · simp only [if_neg h61]
      by_cases h62 : t.head? = some 62
      · obtain ⟨hf, hp⟩ := h.step (by decide) (by decide) (by decide) hplaced h62
        simp only [if_pos h62]
        split_ifs
        · exact .inl ⟨_, rfl, rfl⟩
        · exact .token hf hp
        · exact .token h hplaced
        · exact .inl ⟨_, rfl, rfl⟩
      · simp only [if_neg h62]
        split_ifs
        · exact .inl ⟨_, rfl, rfl⟩
        · exact .token h hplaced
        · exact .token h hplaced
        · exact .inl ⟨_, rfl, rfl⟩

/-- **A token that is no placeholder is the same in the text.** -/
theorem Filled.scanToken (hc : c ≠ 36)
    (hcomment : ¬ (c = 45 ∧ t.head? = some 45)) (h : Filled params k t s)
    (hplaced : placed params .code prev (c :: t) = true) :
    SameToken params k (Sql.scanToken c t) (Sql.scanToken c s) := by
  have hrest := placed_char hc hplaced
  by_cases hquote : c = 39
  · subst hquote
    have hmode : Mode.code.next 39 t = .quoted := rfl
    rw [hmode] at hrest
    rcases h.sameString hrest with ⟨h1, h2⟩ | ⟨literal, t', s', h1, h2, hf, hp⟩
    · exact .inl ⟨_, scanToken_open_quote h1, scanToken_open_quote h2⟩
    · exact .inr ⟨_, _, _, _, _, scanToken_quote h1, scanToken_quote h2, hf, hp⟩
  have hmode : Mode.code.next c t = .code := by
    rw [Mode.next, if_neg hquote, if_neg hcomment]
  rw [hmode] at hrest
  unfold Sql.scanToken
  by_cases hident : isIdentStart c = true
  · rw [if_pos hident, if_pos hident]
    exact h.scanIdent (isIdentCont_of_start c hident) hrest
  rw [if_neg hident, if_neg hident]
  -- a dot begins a number in both or in neither
  have hnumber : (isDigit c || (c == 46 && s.head?.any isDigit)) =
      (isDigit c || (c == 46 && t.head?.any isDigit)) := by
    by_cases hdot : c = 46
    · subst hdot
      rcases h.head?_cases hrest with heq | ⟨ht, number, d, hd, -, hstring, hfree⟩
      · rw [heq]
      · cases number with
        | true => exact absurd hfree (by decide)
        | false =>
          rw [ht, hd, hstring.mpr rfl]
          decide
    · have hne : (c == 46) = false := by simpa using hdot
      rw [hne, Bool.false_and, Bool.false_and]
  rw [hnumber]
  by_cases hnum : (isDigit c || (c == 46 && t.head?.any isDigit)) = true
  · rw [if_pos hnum, if_pos hnum]
    refine h.scanNumber ?_ hrest
    simp only [Bool.or_eq_true, Bool.and_eq_true, beq_iff_eq] at hnum
    exact hnum.imp_right And.left
  · rw [if_neg hnum, if_neg hnum, if_neg hquote, if_neg hquote]
    exact h.scanSymbol c hrest

end Follow

/-! ## All tokens -/

/-- What is left after blanks and comments does not begin with either. -/
theorem skipFrom_stops {comment : Bool} {c : UInt8}
    (h : skipFrom comment s = c :: rest) : ¬ (c = 45 ∧ rest.head? = some 45) := by
  induction s generalizing comment with
  | nil => cases comment <;> cases h
  | cons d s ih =>
    cases comment with
    | true => exact ih h
    | false =>
      rw [skipFrom] at h
      split_ifs at h with hspace hdash
      · exact ih h
      · exact ih h
      · obtain ⟨rfl, rfl⟩ := cons.inj h
        simpa using hdash

theorem tokens_of_filled {params : List Bytes}
    {t s : Bytes} {prev : Option UInt8} {size fuel fuel' : ℕ} (hfuel : t.length < fuel)
    (hfuel' : s.length < fuel') (h : Filled params 0 t s)
    (hplaced : placed params .code prev t = true) :
    List.Forall₂ (Fills params) (templateLoop params.length fuel t)
      ((tokenizeLoop size fuel' s).map fun t => (t.type, t.value)) := by
  -- a token takes a byte at least, so that neither loop stops before its input
  induction fuel generalizing fuel' t s prev with
  | zero => exact absurd hfuel (Nat.not_lt_zero _)
  | succ fuel ih =>
    obtain ⟨fuel', rfl⟩ := Nat.exists_eq_succ_of_ne_zero (Nat.ne_zero_of_lt hfuel')
    have hcode : placed params (if false then .comment else .code) prev t = true := hplaced
    obtain ⟨hskip, prev', hplaced'⟩ := h.skip hcode
    have hshort := length_skipFrom false t
    have hshort' := length_skipFrom false s
    rw [templateLoop, tokenizeLoop, skipWsAndComments, skipWsAndComments]
    generalize ht : skipFrom false t = t' at hskip hplaced' hshort ⊢
    generalize skipFrom false s = s' at hskip hshort' ⊢
    cases hskip with
    | nil => exact .cons rfl .nil
    | @char c t' s' hc h =>
      have hnone : placeholder? params.length c t' = none := if_neg hc
      simp only [hnone]
      rcases h.scanToken hc (skipFrom_stops ht) hplaced' with
        ⟨value, h1, h2⟩ | ⟨type, value, after, after', prev'', h1, h2, hf, hp⟩
      · simp only [h1, h2]
        exact .cons rfl .nil
      · have hlt := scanToken_length h1
        have hlt' := scanToken_length h2
        simp only [h1, h2]
        exact .cons rfl (ih (by omega) (by omega) hf hp)
    | @keep ds t' s' hds hhead hne h =>
      -- a dollar sign that is no placeholder ends both
      have hnone : placeholder? params.length 36 (ds ++ t') = none := by
        rw [placeholder?, if_pos rfl]
        cases hp : placeholderAt params.length (ds ++ t') with
        | none => rfl
        | some i =>
          obtain ⟨hpos, hn, heq⟩ := (placeholderAt_digits hds hhead).mp hp
          exact absurd heq.symm (hne i hpos hn)
      simp only [cons_append, hnone, scanToken_dollar]
      exact .cons rfl .nil
    | @hole i t' s' hi hn hhead h =>
      obtain ⟨-, -, hright, hplain⟩ := placed_hole hi hn hhead hplaced'
      have hdigits : ∀ c ∈ decimal i, isDigit c = true := fun _ hc => isDigit_of_mem_decimal hc
      have hrest := placed_run hdigits hplaced'
      have hheads : s'.head? = t'.head? := h.head?_after_run hdigits hrest
      have hsome : placeholder? params.length 36 (decimal i ++ t') = some i := by
        rw [placeholder?, if_pos rfl, placeholderAt_decimal hi hn hhead]
      have hget : params[i - 1]? = some (params.getD (i - 1) []) := by
        rw [getD_eq_getElem?_getD, getElem?_eq_getElem (by omega), Option.getD_some]
      obtain ⟨c, rest, type, hrep, hliteral, hscan⟩ :=
        scanToken_replacement (s := s') hplain (by rwa [hheads]) (by rwa [hheads])
      have hlt := scanToken_length hscan
      rw [replacementOf, hrep] at hshort' ⊢
      simp only [cons_append, hsome, hscan, dropWhile_digits hdigits hhead]
      refine .cons ⟨hliteral, hget⟩ (ih ?_ (by omega) h hrest)
      simp only [cons_append, length_cons, length_append] at hshort
      omega

end TransDb.Pgwire
