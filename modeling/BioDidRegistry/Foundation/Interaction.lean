import Mathlib.Tactic

/-!
# Programs that ask for operations

A program asks for one operation after the other, and what it asks next may depend on the
answers. An interpretation carries the operations out on a state. When two interpretations
answer alike from related states, every program has the same outcome under both.
-/

namespace Interaction

variable {ι ε α σ τ : Type} {answer : ι → Type}

/-- A program that may ask for `op : ι` and is given an `answer op`. -/
inductive Program (ι : Type) (answer : ι → Type) (ε α : Type)
  | done (a : α)
  | fail (e : ε)
  | ask (op : ι) (next : answer op → Program ι answer ε α)

def Program.run (f : (op : ι) → EStateM ε σ (answer op)) :
    Program ι answer ε α → EStateM ε σ α
  | done a => pure a
  | fail e => throw e
  | ask op next => do
    let a ← f op
    (next a).run f

/-- Both outcomes return the same value or the same error. The states are related by `R`
after a value and by `E` after an error. -/
inductive Alike (R E : σ → τ → Prop) : EStateM.Result ε σ α → EStateM.Result ε τ α → Prop
  | ok {a : α} {s : σ} {t : τ} (h : R s t) : Alike R E (.ok a s) (.ok a t)
  | error {e : ε} {s : σ} {t : τ} (h : E s t) : Alike R E (.error e s) (.error e t)

variable {R E : σ → τ → Prop}

theorem Alike.bind {β : Type} {p : EStateM ε σ α} {q : EStateM ε τ α} {f : α → EStateM ε σ β}
    {g : α → EStateM ε τ β} {s : σ} {t : τ} (h : Alike R E (p s) (q t))
    (hnext : ∀ a s' t', R s' t' → Alike R E (f a s') (g a t')) :
    Alike R E ((p >>= f) s) ((q >>= g) t) := by
  change Alike R E (EStateM.bind p f s) (EStateM.bind q g t)
  unfold EStateM.bind
  cases hp : p s with
  | ok a s' =>
    cases hq : q t with
    | ok b t' =>
      rw [hp, hq] at h
      cases h with
      | ok hR => exact hnext a s' t' hR
    | error e t' =>
      rw [hp, hq] at h
      cases h
  | error e s' =>
    cases hq : q t with
    | ok b t' =>
      rw [hp, hq] at h
      cases h
    | error e' t' =>
      rw [hp, hq] at h
      cases h with
      | error hE => exact .error hE

/-- Interpretations that answer alike from related states run every program alike. -/
theorem Program.run_alike {f : (op : ι) → EStateM ε σ (answer op)}
    {g : (op : ι) → EStateM ε τ (answer op)}
    (hop : ∀ op s t, R s t → Alike R E (f op s) (g op t)) (hfail : ∀ s t, R s t → E s t)
    (p : Program ι answer ε α) {s : σ} {t : τ} (h : R s t) :
    Alike R E (p.run f s) (p.run g t) := by
  induction p generalizing s t with
  | done a => exact .ok h
  | fail e => exact .error (hfail s t h)
  | ask op next ih => exact (hop op s t h).bind fun a s' t' h' => ih a h'

end Interaction
