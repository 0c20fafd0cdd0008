import Mathlib.Data.List.Count

/-!
# Visits

A callback with a state of its own sees the elements of a list in order, until it says
stop or fails. A visit has no error but the callback's.
-/

namespace Visits

variable {ε σ α : Type} {f : α → EStateM ε σ Bool}

/-- The callback on one element after the other, while it says to go on. -/
def visit (f : α → EStateM ε σ Bool) : List α → EStateM ε σ Unit
  | [] => pure ()
  | x :: xs => do
    let keepGoing ← f x
    if keepGoing then visit f xs else pure ()

/-- The callback that remembers whether an element meets `q` and stops there. -/
def marking (q : α → Bool) (x : α) : EStateM ε Bool Bool := do
  if q x then
    set true
    pure false
  else pure true

def counting (q : α → Bool) (x : α) : EStateM ε ℕ Bool := do
  if q x then
    modify (· + 1)
  pure true

/-- The callback went on at each element of the list, one after the other. -/
inductive Passes (f : α → EStateM ε σ Bool) : List α → σ → σ → Prop
  | nil (s : σ) : Passes f [] s s
  | cons {x : α} {xs : List α} {s s₁ s₂ : σ} (here : f x s = .ok true s₁)
      (rest : Passes f xs s₁ s₂) : Passes f (x :: xs) s s₂

/-- The loop shows the list to the callback: it succeeds when the callback went on at every
element or stopped at one, and fails when the callback fails, after it went on at all
elements before. -/
structure Shows (loop : EStateM ε σ Unit) (f : α → EStateM ε σ Bool) (xs : List α) : Prop where
  ok_iff : ∀ s s', loop s = .ok () s' ↔ Passes f xs s s' ∨
    ∃ before x after s₁, xs = before ++ x :: after ∧ Passes f before s s₁ ∧ f x s₁ = .ok false s'
  error_iff : ∀ s e s', loop s = .error e s' ↔
    ∃ before x after s₁, xs = before ++ x :: after ∧ Passes f before s s₁ ∧ f x s₁ = .error e s'

theorem visit_cons (x : α) (xs : List α) (s : σ) : visit f (x :: xs) s =
    match f x s with
    | .ok true s₁ => visit f xs s₁
    | .ok false s₁ => .ok () s₁
    | .error e s₁ => .error e s₁ := by
  change EStateM.bind (f x) _ s = _
  unfold EStateM.bind
  rcases f x s with ⟨_ | _, s₁⟩ | ⟨e, s₁⟩ <;> rfl

theorem visit_error_iff {xs : List α} {s s' : σ} {e : ε} : visit f xs s = .error e s' ↔
    ∃ before x after s₁, xs = before ++ x :: after ∧ Passes f before s s₁ ∧
      f x s₁ = .error e s' := by
  constructor
  · intro h
    induction xs generalizing s with
    | nil => cases h
    | cons x xs ih =>
      rw [visit_cons] at h
      split at h
      · rename_i s₁ hx
        obtain ⟨before, y, after, s₂, rfl, hpasses, hy⟩ := ih h
        exact ⟨x :: before, y, after, s₂, rfl, .cons hx hpasses, hy⟩
      · cases h
      · rename_i e₁ s₁ hx
        cases h
        exact ⟨[], x, xs, s, rfl, .nil s, hx⟩
  · rintro ⟨before, x, after, s₁, rfl, hpasses, hx⟩
    induction hpasses with
    | nil s => rw [List.nil_append, visit_cons, hx]
    | cons here rest ih =>
      rw [List.cons_append, visit_cons, here]
      exact ih hx

theorem visit_ok_iff {xs : List α} {s s' : σ} : visit f xs s = .ok () s' ↔
    Passes f xs s s' ∨ ∃ before x after s₁, xs = before ++ x :: after ∧ Passes f before s s₁ ∧
      f x s₁ = .ok false s' := by
  constructor
  · intro h
    induction xs generalizing s with
    | nil =>
      cases h
      exact Or.inl (.nil _)
    | cons x xs ih =>
      rw [visit_cons] at h
      split at h
      · rename_i s₁ hx
        rcases ih h with hpasses | ⟨before, y, after, s₂, rfl, hpasses, hy⟩
        · exact Or.inl (.cons hx hpasses)
        · exact Or.inr ⟨x :: before, y, after, s₂, rfl, .cons hx hpasses, hy⟩
      · rename_i s₁ hx
        cases h
        exact Or.inr ⟨[], x, xs, s, rfl, .nil s, hx⟩
      · cases h
  · intro h
    rcases h with hpasses | ⟨before, x, after, s₁, rfl, hpasses, hx⟩
    · induction hpasses with
      | nil s => rfl
      | cons here rest ih =>
        rw [visit_cons, here]
        exact ih
    · induction hpasses with
      | nil s => rw [List.nil_append, visit_cons, hx]
      | cons here rest ih =>
        rw [List.cons_append, visit_cons, here]
        exact ih hx

theorem shows_visit (f : α → EStateM ε σ Bool) (xs : List α) : Shows (visit f xs) f xs :=
  ⟨fun _ _ => visit_ok_iff, fun _ _ _ => visit_error_iff⟩

theorem visit_marking (q : α → Bool) (xs : List α) :
    visit (@marking ε α q) xs false = .ok () (xs.any q) := by
  induction xs with
  | nil => rfl
  | cons x xs ih =>
    rw [visit_cons, List.any_cons]
    cases hx : q x with
    | true =>
      have hmark : @marking ε α q x false = .ok false true := by
        simp only [marking, hx]
        rfl
      rw [hmark, Bool.true_or]
    | false =>
      have hmark : @marking ε α q x false = .ok true false := by
        simp only [marking, hx]
        rfl
      rw [hmark, Bool.false_or]
      exact ih

theorem visit_counting (q : α → Bool) (xs : List α) (n : ℕ) :
    visit (@counting ε α q) xs n = .ok () (n + xs.countP q) := by
  induction xs generalizing n with
  | nil => rfl
  | cons x xs ih =>
    rw [visit_cons, List.countP_cons]
    cases hx : q x with
    | true =>
      have hcount : @counting ε α q x n = .ok true (n + 1) := by
        simp only [counting, hx]
        rfl
      rw [hcount]
      simp only [ih, if_true]
      congr 1
      omega
    | false =>
      have hcount : @counting ε α q x n = .ok true n := by
        simp only [counting, hx]
        rfl
      rw [hcount]
      simp [ih]

end Visits
