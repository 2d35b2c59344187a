import Mathlib.Logic.Basic

/-!
# Programs that ask

A program returns a value, or asks its environment for something and goes on with the
answer.  What can be asked is a type of requests, and every request has its own type of
answers.

* `Program`, `Program.bind` — programs and their composition.
* `Rules` — what may be asked in an abstract state, and what an answer makes of it.
* `Program.Safe` — whatever the answers are, the program asks only what it may and ends
  as it should; `Safe.bind` and `Safe.mono` are the rules of composition and consequence,
  `Safe.ask_still` is that of a request which changes nothing.
* `Rules.only` — rules without a state.
* `Program.Yields` — what a program can ask and be answered until it returns; `yields_bind`
  takes a run apart.
* `Program.recorded`, `Program.answered` — the run in surroundings that are a function of the
  request, and in those that are a function of a state.
-/

namespace TransDb

/-- A program that makes requests. -/
inductive Program (E : Type) (A : E → Type) (α : Type) where
  | ret (a : α)
  | ask (e : E) (next : A e → Program E A α)

namespace Program

variable {E : Type} {A : E → Type} {α β : Type}

/-- One program after another. -/
def bind : Program E A α → (α → Program E A β) → Program E A β
  | .ret a, f => f a
  | .ask e next, f => .ask e fun a => (next a).bind f

instance : Monad (Program E A) where
  pure := .ret
  bind := bind

/-- Make one request and return its answer. -/
def request (e : E) : Program E A (A e) := .ask e .ret

@[simp] theorem pure_eq (a : α) : (pure a : Program E A α) = .ret a := rfl

@[simp] theorem ret_bind (a : α) (f : α → Program E A β) : (Program.ret a >>= f) = f a := rfl

@[simp] theorem ask_bind (e : E) (next : A e → Program E A α) (f : α → Program E A β) :
    (Program.ask e next >>= f) = .ask e fun a => next a >>= f := rfl

@[simp] theorem request_bind (e : E) (f : A e → Program E A β) :
    (request e >>= f) = .ask e f := rfl

end Program

/-- What may be asked in a state, and what an answer makes of it; `none` where there is
no such answer. -/
structure Rules (S : Type*) (E : Type) (A : E → Type) where
  may : S → E → Prop
  after : S → (e : E) → A e → Option S

/-- The request is allowed and changes nothing. -/
def Rules.Still {S : Type*} {E : Type} {A : E → Type} (R : Rules S E A) (s : S) (e : E) : Prop :=
  R.may s e ∧ ∀ a s', R.after s e a = some s' → s' = s

/-- Rules without a state: some of the requests are allowed, and some answers are possible. -/
def Rules.only {E : Type} {A : E → Type} (ok : E → Prop) (good : (e : E) → A e → Bool) :
    Rules Unit E A :=
  ⟨fun _ e => ok e, fun _ e a => if good e a then some () else none⟩

theorem Rules.only_still {E : Type} {A : E → Type} {ok : E → Prop} {good : (e : E) → A e → Bool}
    {e : E} (h : ok e) : (Rules.only ok good).Still () e :=
  ⟨h, fun _ _ _ => rfl⟩

namespace Program

variable {S : Type*} {E : Type} {A : E → Type} {α β : Type} {R : Rules S E A}

/-- Whatever the answers are, the program asks only what it may, and `post` holds of the
state and of the value when it returns. -/
def Safe (R : Rules S E A) (post : S → α → Prop) : Program E A α → S → Prop
  | .ret a, s => post s a
  | .ask e next, s => R.may s e ∧ ∀ a s', R.after s e a = some s' → (next a).Safe R post s'

variable {p : Program E A α}

theorem Safe.mono {post post' : S → α → Prop} (hpost : ∀ s a, post s a → post' s a)
    {s : S} (h : p.Safe R post s) : p.Safe R post' s := by
  induction p generalizing s with
  | ret a => exact hpost s a h
  | ask e next ih => exact ⟨h.1, fun a s' hs' => ih a (h.2 a s' hs')⟩

/-- **The rule of composition.** -/
theorem Safe.bind {post : S → β → Prop} {f : α → Program E A β} {s : S}
    (h : p.Safe R (fun s a => (f a).Safe R post s) s) : (p >>= f).Safe R post s := by
  induction p generalizing s with
  | ret a => exact h
  | ask e next ih => exact ⟨h.1, fun a s' hs' => ih a (h.2 a s' hs')⟩

theorem Safe.ask_still {post : S → α → Prop} {e : E} {next : A e → Program E A α} {s : S}
    (he : R.Still s e) (h : ∀ a, (next a).Safe R post s) : (Program.ask e next).Safe R post s := by
  refine ⟨he.1, ?_⟩
  intro a s' hs'
  rw [he.2 a s' hs']
  exact h a

theorem Safe.only_mono {ok ok' : E → Prop} {good : (e : E) → A e → Bool}
    (hok : ∀ e, ok e → ok' e) {post : Unit → α → Prop} (h : p.Safe (Rules.only ok good) post ()) :
    p.Safe (Rules.only ok' good) post () := by
  induction p with
  | ret a => exact h
  | ask e next ih => exact ⟨hok e h.1, fun a _ ha => ih a (h.2 a () ha)⟩

/-! ## Runs -/

/-- A request and its answer. -/
abbrev Event (A : E → Type) := Σ e, A e

/-- The program returns `a` after these requests and answers. -/
def Yields : Program E A α → List (Event A) → α → Prop
  | .ret b, tr, a => tr = [] ∧ b = a
  | .ask e next, tr, a => ∃ x tr', tr = ⟨e, x⟩ :: tr' ∧ (next x).Yields tr' a

variable {tr : List (Event A)}

@[simp] theorem yields_ret {a b : α} :
    (Program.ret b : Program E A α).Yields tr a ↔ tr = [] ∧ b = a := Iff.rfl

@[simp] theorem yields_ask {e : E} {next : A e → Program E A α} {a : α} :
    (Program.ask e next).Yields tr a ↔ ∃ x tr', tr = ⟨e, x⟩ :: tr' ∧ (next x).Yields tr' a := Iff.rfl

/-- **A run of two programs one after the other.** -/
theorem yields_bind {f : α → Program E A β} {b : β} :
    (p >>= f).Yields tr b ↔
      ∃ tr₁ a tr₂, tr = tr₁ ++ tr₂ ∧ p.Yields tr₁ a ∧ (f a).Yields tr₂ b := by
  induction p generalizing tr with
  | ret a =>
    constructor
    · intro h
      exact ⟨[], a, tr, rfl, ⟨rfl, rfl⟩, h⟩
    · rintro ⟨_, _, _, rfl, ⟨rfl, rfl⟩, h⟩
      exact h
  | ask e next ih =>
    constructor
    · rintro ⟨x, tr, rfl, h⟩
      obtain ⟨tr₁, a, tr₂, rfl, h₁, h₂⟩ := (ih x).mp h
      exact ⟨⟨e, x⟩ :: tr₁, a, tr₂, rfl, ⟨x, tr₁, rfl, h₁⟩, h₂⟩
    · rintro ⟨_, a, tr₂, rfl, ⟨x, tr₁, rfl, h₁⟩, h₂⟩
      exact ⟨x, tr₁ ++ tr₂, rfl, (ih x).mpr ⟨tr₁, a, tr₂, rfl, h₁, h₂⟩⟩

/-- The run in surroundings that always give the same answer to a request. -/
def recorded (answer : (e : E) → A e) : Program E A α → List (Event A) × α
  | .ret a => ([], a)
  | .ask e next =>
    let r := (next (answer e)).recorded answer
    (⟨e, answer e⟩ :: r.1, r.2)

theorem yields_recorded (answer : (e : E) → A e) (p : Program E A α) :
    p.Yields (p.recorded answer).1 (p.recorded answer).2 := by
  induction p with
  | ret a => exact ⟨rfl, rfl⟩
  | ask e next ih => exact ⟨answer e, _, rfl, ih (answer e)⟩

/-- The run in surroundings that answer by a state of their own. -/
def answered (serve : (e : E) → S → A e × S) : Program E A α → S → α × S
  | .ret a, s => (a, s)
  | .ask e next, s => (next (serve e s).1).answered serve (serve e s).2

variable (serve : (e : E) → S → A e × S)
include serve

@[simp] theorem answered_ret (a : α) (s : S) :
    (Program.ret a).answered serve s = (a, s) := rfl

@[simp] theorem answered_ask (e : E) (next : A e → Program E A α) (s : S) :
    (Program.ask e next).answered serve s = (next (serve e s).1).answered serve (serve e s).2 := rfl

theorem answered_bind (p : Program E A α) (f : α → Program E A β) (s : S) :
    (p >>= f).answered serve s =
      (f (p.answered serve s).1).answered serve (p.answered serve s).2 := by
  induction p generalizing s with
  | ret a => rfl
  | ask e next ih => exact ih _ _

end Program

end TransDb
