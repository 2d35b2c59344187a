import TransDb.Core.Program

/-!
# Programs with a state

Code that makes requests, may be cut short by an exception and may have a state of its own.

* `Program.yields_throwing_bind` — a run of code that may throw, taken apart.
* `Stateful` — code with a state; `Stateful.request` makes a request.
* `Stateful.Runs` — what the code can ask and be answered, and how it ends: with a value and a
  state, or with `none` where an exception ends it.  `runs_bind` takes a run apart.
-/

namespace TransDb

variable {S E : Type} {A : E → Type} {α β : Type}

/-- **Two pieces of code that may throw**, one after the other. -/
theorem Program.yields_throwing_bind {m : OptionT (Program E A) α} {f : α → OptionT (Program E A) β}
    {tr : List (Event A)} {r : Option β} :
    Program.Yields (m >>= f).run tr r ↔
      (Program.Yields m.run tr none ∧ r = none) ∨
        ∃ tr₁ a tr₂, tr = tr₁ ++ tr₂ ∧ Program.Yields m.run tr₁ (some a) ∧
          Program.Yields (f a).run tr₂ r := by
  have hprogram : (m >>= f).run = m.run >>= fun x => match x with
      | some a => (f a).run
      | none => .ret none := by
    show OptionT.run (OptionT.bind _ _) = _
    unfold OptionT.bind
    rw [OptionT.run_mk]
    congr 1
  rw [hprogram, yields_bind]
  constructor
  · rintro ⟨tr₁, x, tr₂, rfl, hm, hf⟩
    cases x with
    | none =>
      obtain ⟨rfl, rfl⟩ := hf
      rw [List.append_nil]
      exact .inl ⟨hm, rfl⟩
    | some a => exact .inr ⟨tr₁, a, tr₂, rfl, hm, hf⟩
  · rintro (⟨hm, rfl⟩ | ⟨tr₁, a, tr₂, rfl, hm, hf⟩)
    · exact ⟨tr, none, [], (List.append_nil tr).symm, hm, rfl, rfl⟩
    · exact ⟨tr₁, some a, tr₂, rfl, hm, hf⟩

/-- Code with a state that makes requests and may throw. -/
abbrev Stateful (S E : Type) (A : E → Type) := StateT S (OptionT (Program E A))

namespace Stateful

/-- Asks the surroundings. -/
def request (e : E) : Stateful S E A (A e) := StateT.lift (OptionT.lift (Program.request e))

/-- An exception that nobody catches. -/
def throw : Stateful S E A α := fun _ => OptionT.mk (.ret none)

/-- From `s`, after these requests and answers, the code has ended like this. -/
def Runs (m : Stateful S E A α) (s : S) (tr : List (Program.Event A)) (r : Option (α × S)) : Prop :=
  Program.Yields (m.run s).run tr r

variable {s : S} {tr : List (Program.Event A)}

@[simp] theorem runs_pure {a : α} {r : Option (α × S)} :
    Runs (pure a : Stateful S E A α) s tr r ↔ tr = [] ∧ some (a, s) = r := Iff.rfl

@[simp] theorem runs_get {r : Option (S × S)} :
    Runs (get : Stateful S E A S) s tr r ↔ tr = [] ∧ some (s, s) = r := Iff.rfl

@[simp] theorem runs_throw {r : Option (α × S)} :
    Runs (throw : Stateful S E A α) s tr r ↔ tr = [] ∧ none = r := Iff.rfl

@[simp] theorem runs_request {e : E} {r : Option (A e × S)} :
    Runs (request e : Stateful S E A (A e)) s tr r ↔
      ∃ x, tr = [⟨e, x⟩] ∧ some (x, s) = r := by
  constructor
  · rintro ⟨x, tr', rfl, rfl, rfl⟩
    exact ⟨x, rfl, rfl⟩
  · rintro ⟨x, rfl, rfl⟩
    exact ⟨x, [], rfl, rfl, rfl⟩

variable {r : Option (β × S)}

/-- **Two pieces of code one after the other.** -/
theorem runs_bind {m : Stateful S E A α} {f : α → Stateful S E A β} :
    Runs (m >>= f) s tr r ↔ (Runs m s tr none ∧ r = none) ∨
        ∃ tr₁ a s₁ tr₂, tr = tr₁ ++ tr₂ ∧ Runs m s tr₁ (some (a, s₁)) ∧ Runs (f a) s₁ tr₂ r := by
  have hprogram : ((m >>= f).run s).run = (m.run s >>= fun x => (f x.1).run x.2 : OptionT _ _).run :=
    rfl
  rw [Runs, hprogram, Program.yields_throwing_bind]
  constructor
  · rintro (h | ⟨tr₁, x, tr₂, rfl, hm, hf⟩)
    · exact .inl h
    · exact .inr ⟨tr₁, x.1, x.2, tr₂, rfl, hm, hf⟩
  · rintro (h | ⟨tr₁, a, s₁, tr₂, rfl, hm, hf⟩)
    · exact .inl h
    · exact .inr ⟨tr₁, (a, s₁), tr₂, rfl, hm, hf⟩

/-- Where nothing is thrown before, the rest decides. -/
theorem runs_pure_bind {a : α} {f : α → Stateful S E A β} :
    Runs ((pure a : Stateful S E A α) >>= f) s tr r ↔ Runs (f a) s tr r := Iff.rfl

theorem runs_get_bind {f : S → Stateful S E A β} :
    Runs ((get : Stateful S E A S) >>= f) s tr r ↔ Runs (f s) s tr r := Iff.rfl

theorem runs_modify_bind {g : S → S} {f : PUnit → Stateful S E A β} :
    Runs ((modify g : Stateful S E A PUnit) >>= f) s tr r ↔ Runs (f ⟨⟩) (g s) tr r := Iff.rfl

theorem runs_request_bind {e : E} {f : A e → Stateful S E A β} :
    Runs ((request e : Stateful S E A (A e)) >>= f) s tr r ↔
      ∃ x tr', tr = ⟨e, x⟩ :: tr' ∧ Runs (f x) s tr' r := Iff.rfl

end Stateful

end TransDb
