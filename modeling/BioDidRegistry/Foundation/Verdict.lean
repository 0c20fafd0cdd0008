import Mathlib.Tactic

/-!
# Two checkers with one verdict

A program's checker and the one of its model may report errors of different
types and accept with different results. `Agrees f R x y` says that `x` and `y`
both refuse, for reasons that `f` relates, or both accept, with results that `R`
relates. Agreement composes, so the order in which a checker reports its
complaints is compared along with the complaints.
-/

namespace Verdict

variable {ε ε' α β γ δ : Type} {f : ε' → ε}

/-- `x` and `y` reach the same verdict. -/
inductive Agrees (f : ε' → ε) (R : α → β → Prop) : Except ε α → Except ε' β → Prop
  | ok {a : α} {b : β} : R a b → Agrees f R (.ok a) (.ok b)
  | error (e : ε') : Agrees f R (.error (f e)) (.error e)

namespace Agrees

variable {R : α → β → Prop} {x : Except ε α} {y : Except ε' β}

theorem bind {S : γ → δ → Prop} {g : α → Except ε γ} {k : β → Except ε' δ}
    (h : Agrees f R x y) (hk : ∀ a b, R a b → Agrees f S (g a) (k b)) :
    Agrees f S (x >>= g) (y >>= k) := by
  cases h with
  | ok hR => exact hk _ _ hR
  | error e => exact .error e

theorem of_ok {a : α} (h : Agrees f R (.ok a) y) : ∃ b, y = .ok b ∧ R a b := by
  cases h with
  | ok hR => exact ⟨_, rfl, hR⟩

theorem ok_of {b : β} (h : Agrees f R x (.ok b)) : ∃ a, x = .ok a ∧ R a b := by
  cases h with
  | ok hR => exact ⟨_, rfl, hR⟩

/-- What the model refuses, the program refuses for the same reason. -/
theorem error_of {e : ε'} (h : Agrees f R x (.error e)) : x = .error (f e) := by
  cases h with
  | error e => rfl

end Agrees

end Verdict
