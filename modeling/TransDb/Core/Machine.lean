import Mathlib.Data.List.Basic
import Mathlib.Logic.Function.Basic

/-!
# Machines: labelled transition systems given by a partial step function

Everything in this development that takes step after step is a `Machine`: a
start state and a step function that is undefined where the label is not
enabled.

* `Machine.runFrom`, `Machine.run` — what a list of labels does.
* `Machine.Meets` — a run each of whose steps satisfies a condition on the
  state before the step and the label taken.
* `Machine.inv_runFrom` — the invariant rule: what one step preserves, a whole
  run preserves; `Machine.inv_run` is its use from the start state.
* `update_cases`, `update_keeps`, `update_mono` — a table that is updated at one place.
* `exists_of_bind_eq_ok`, `foldlM_inv`, `foldlM_rel` — how a computation that can fail is taken
  apart, and the rules for a loop over a list and for two loops side by side.
-/

namespace TransDb

/-- A start state and a partial step function. -/
structure Machine (σ : Type*) (α : Type*) where
  /-- The start state. -/
  init : σ
  /-- One step under a label; `none` where the label is not enabled. -/
  step : σ → α → Option σ

namespace Machine

variable {σ α : Type*} (M : Machine σ α)

/-- Take the labels one after the other. -/
def runFrom (s : σ) : List α → Option σ
  | [] => some s
  | a :: as =>
    match M.step s a with
    | none => none
    | some t => runFrom t as

/-- Take the labels from the start state. -/
def run (as : List α) : Option σ := M.runFrom M.init as

/-- Every step of the run from `s` meets `C`, a condition on the state before
the step and on its label. -/
def Meets (C : σ → α → Prop) : σ → List α → Prop
  | _, [] => True
  | s, a :: as => C s a ∧ ∀ t, M.step s a = some t → Meets C t as

/-- Whether a run meets a condition can be computed. -/
instance decidableMeets (C : σ → α → Prop) [∀ s a, Decidable (C s a)] :
    ∀ (s : σ) (as : List α), Decidable (M.Meets C s as)
  | _, [] => isTrue trivial
  | s, a :: as =>
    match h : M.step s a with
    | none => decidable_of_iff (C s a) ⟨fun hC => ⟨hC, fun t ht => by simp [h] at ht⟩, fun hm => hm.1⟩
    | some t =>
      have := decidableMeets C t as
      decidable_of_iff (C s a ∧ M.Meets C t as)
        ⟨fun hC => ⟨hC.1, fun u hu => Option.some.inj (h.symm.trans hu) ▸ hC.2⟩,
          fun hm => ⟨hm.1, hm.2 t h⟩⟩

@[simp] theorem runFrom_nil (s : σ) : M.runFrom s [] = some s := rfl

theorem runFrom_cons (s : σ) (a : α) (as : List α) :
    M.runFrom s (a :: as) = (M.step s a).bind (fun t => M.runFrom t as) := by
  show (match M.step s a with | none => none | some t => M.runFrom t as) = _
  cases M.step s a <;> rfl

variable {I : σ → Prop} {C : σ → α → Prop} {as : List α}

theorem runFrom_cons_eq_some {s u : σ} {a : α} (h : M.runFrom s (a :: as) = some u) :
    ∃ t, M.step s a = some t ∧ M.runFrom t as = some u := by
  rw [runFrom_cons] at h
  exact Option.bind_eq_some_iff.mp h

variable {M}

/-- A run meets a condition if both parts of it do. -/
theorem meets_append :
    ∀ {as bs : List α} {s : σ}, M.Meets C s (as ++ bs) →
      M.Meets C s as ∧ ∀ t, M.runFrom s as = some t → M.Meets C t bs := by
  intro as
  induction as with
  | nil =>
    intro bs s h
    refine ⟨trivial, fun t ht => ?_⟩
    obtain rfl := Option.some.inj ht
    exact h
  | cons a as ih =>
    intro bs s h
    refine ⟨⟨h.1, fun t ht => (ih (h.2 t ht)).1⟩, fun u hu => ?_⟩
    obtain ⟨t, ht, htu⟩ := M.runFrom_cons_eq_some hu
    exact (ih (h.2 t ht)).2 u htu

/-- **The invariant rule.**  If a step that meets `C` keeps `I`, then so does a
whole run whose steps all meet `C`. -/
theorem inv_runFrom_of_meets (hstep : ∀ s a t, I s → C s a → M.step s a = some t → I t) :
    ∀ {as : List α} {s t : σ}, I s → M.Meets C s as → M.runFrom s as = some t → I t := by
  intro as
  induction as with
  | nil => intro s t hs _ h; cases h; exact hs
  | cons a as ih =>
    intro s t hs hC h
    obtain ⟨u, hu, hut⟩ := M.runFrom_cons_eq_some h
    exact ih (hstep s a u hs hC.1 hu) (hC.2 u hu) hut

/-- A condition that follows from another one under an invariant. -/
theorem meets_of_inv {D : σ → α → Prop} (hD : ∀ s a, I s → C s a → D s a)
    (hstep : ∀ s a t, I s → C s a → M.step s a = some t → I t) :
    ∀ {as : List α} {s : σ}, I s → M.Meets C s as → M.Meets D s as := by
  intro as
  induction as with
  | nil => exact fun _ _ => trivial
  | cons a as ih =>
    intro s hs hC
    exact ⟨hD s a hs hC.1, fun t ht => ih (hstep s a t hs hC.1 ht) (hC.2 t ht)⟩

/-- What holds at the end of a run, and before every step after which it holds, holds at every
step of it. -/
theorem meets_of_end (hback : ∀ s a t, M.step s a = some t → I t → I s) :
    ∀ {as : List α} {s u : σ}, M.runFrom s as = some u → I u → M.Meets C s as →
      M.Meets (fun s a => I s ∧ C s a) s as := by
  have hstart : ∀ {as : List α} {s u : σ}, M.runFrom s as = some u → I u → I s := by
    intro as
    induction as with
    | nil => rintro s u ⟨⟩ hI; exact hI
    | cons a as ih =>
      intro s u h hI
      obtain ⟨t, ht, htu⟩ := M.runFrom_cons_eq_some h
      exact hback s a t ht (ih htu hI)
  intro as
  induction as with
  | nil => exact fun _ _ _ => trivial
  | cons a as ih =>
    intro s u h hI hC
    refine ⟨⟨hstart h hI, hC.1⟩, fun t ht => ?_⟩
    obtain ⟨t', ht', htu⟩ := M.runFrom_cons_eq_some h
    cases ht.symm.trans ht'
    exact ih htu hI (hC.2 t ht)

/-- The invariant rule for runs under no condition. -/
theorem inv_runFrom (hstep : ∀ s a t, I s → M.step s a = some t → I t)
    {s t : σ} (hs : I s) (h : M.runFrom s as = some t) : I t := by
  induction as generalizing s with
  | nil => cases h; exact hs
  | cons a as ih =>
    obtain ⟨u, hu, hut⟩ := M.runFrom_cons_eq_some h
    exact ih (hstep s a u hs hu) hut

theorem inv_run (h0 : I M.init) (hstep : ∀ s a t, I s → M.step s a = some t → I t)
    {t : σ} (h : M.run as = some t) : I t :=
  inv_runFrom hstep h0 h

theorem inv_run_of_meets (h0 : I M.init) (hstep : ∀ s a t, I s → C s a → M.step s a = some t → I t)
    {t : σ} (hC : M.Meets C M.init as) (h : M.run as = some t) : I t :=
  inv_runFrom_of_meets hstep h0 hC h

end Machine

section Update

variable {α β : Type*} [DecidableEq α] {f : α → β} {a x : α} {b y : β}

/-- A value after an update comes from the new one, or from the one that was there before. -/
theorem update_cases {γ : Type*} {g : β → γ} {z : γ} (h : g (Function.update f a b x) = z) :
    (x = a ∧ g b = z) ∨ (x ≠ a ∧ g (f x) = z) := by
  by_cases hx : x = a
  · rw [hx, Function.update_self] at h
    exact .inl ⟨hx, h⟩
  · rw [Function.update_of_ne hx] at h
    exact .inr ⟨hx, h⟩

theorem update_eq_cases (h : Function.update f a b x = y) : (x = a ∧ b = y) ∨ (x ≠ a ∧ f x = y) :=
  update_cases (g := id) h

/-- A value that is not the one replaced is still there. -/
theorem update_keeps (h : f x = y) (ha : f a ≠ y) : Function.update f a b x = y := by
  have hx : x ≠ a := by
    rintro rfl
    exact ha h
  rw [Function.update_of_ne hx]
  exact h

/-- What the new value has if the old one had it, all values have after the update. -/
theorem update_mono {P : β → Prop} (hb : x = a → P (f a) → P b) (h : P (f x)) :
    P (Function.update f a b x) := by
  by_cases hx : x = a
  · rw [hx] at h ⊢
    rw [Function.update_self]
    exact hb hx h
  · rw [Function.update_of_ne hx]
    exact h

end Update

/-- Whether a run ends in a state with some property can be computed. -/
instance decidableExistsSome {σ : Type*} (o : Option σ) (P : σ → Prop) [DecidablePred P] :
    Decidable (∃ s, o = some s ∧ P s) :=
  inferInstanceAs (Decidable (∃ s ∈ o, P s))

/-- A computation that succeeds has a first part that does. -/
theorem exists_of_bind_eq_ok {ε α β : Type} {x : Except ε α} {f : α → Except ε β} {b : β}
    (h : (x >>= f) = .ok b) : ∃ a, x = .ok a ∧ f a = .ok b := by
  cases x with
  | error e => cases h
  | ok a => exact ⟨a, rfl, h⟩

/-- **The loop rule.**  An invariant of the part of the list done so far, which every
turn of the loop keeps and under which no turn fails, holds at the end. -/
theorem foldlM_inv {α β ε : Type*} {I : List α → β → Prop} {f : β → α → Except ε β}
    {l : List α} {b : β} (h0 : I [] b)
    (hstep : ∀ done a rest b, l = done ++ a :: rest → I done b →
      ∃ b', f b a = .ok b' ∧ I (done ++ [a]) b') :
    ∃ b', l.foldlM f b = .ok b' ∧ I l b' := by
  suffices h : ∀ rest done b, l = done ++ rest → I done b →
      ∃ b', rest.foldlM f b = .ok b' ∧ I l b' from h l [] b rfl h0
  intro rest
  induction rest with
  | nil =>
    intro done b hl hI
    rw [List.append_nil] at hl
    exact ⟨b, rfl, hl ▸ hI⟩
  | cons a rest ih =>
    intro done b hl hI
    obtain ⟨b', hb', hI'⟩ := hstep done a rest b hl hI
    obtain ⟨b'', hb'', hI''⟩ := ih (done ++ [a]) b' (by simp [hl]) hI'
    refine ⟨b'', ?_, hI''⟩
    rw [List.foldlM_cons, hb']
    exact hb''

/-- Two loops whose turns keep a relation, of which the first succeeds. -/
theorem foldlM_rel {α β γ ε : Type*} {R : β → γ → Prop} {f : β → α → Except ε β}
    {g : γ → α → Except ε γ} {l : List α} {b b' : β} {c : γ} (h0 : R b c)
    (hstep : ∀ a ∈ l, ∀ b c b', R b c → f b a = .ok b' → ∃ c', g c a = .ok c' ∧ R b' c')
    (h : l.foldlM f b = .ok b') : ∃ c', l.foldlM g c = .ok c' ∧ R b' c' := by
  induction l generalizing b c with
  | nil =>
    cases h
    exact ⟨c, rfl, h0⟩
  | cons a l ih =>
    rw [List.foldlM_cons] at h ⊢
    cases hfirst : f b a with
    | error e => simp [hfirst, bind, Except.bind] at h
    | ok b₁ =>
      obtain ⟨c₁, hc₁, hR⟩ := hstep a List.mem_cons_self b c b₁ h0 hfirst
      rw [hfirst] at h
      rw [hc₁]
      exact ih hR (fun x hx => hstep x (List.mem_cons_of_mem _ hx)) h

end TransDb
