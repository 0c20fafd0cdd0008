import Mathlib.Tactic

/-!
# What a computation leaves behind

A computation in `EStateM` ends in a state whether it returns or stops with an error.
`Keeps view x` says that both ways `x` leaves alone what `view` sees of the state, and
`Fails Q r` says that an error can only come out as `Q` allows. Both are proved piece by
piece.
-/

namespace Outcome

variable {ε σ γ α β : Type}

def state : EStateM.Result ε σ α → σ
  | .ok _ s => s
  | .error _ s => s

/-- However `x` ends, `view` sees the state it started in. -/
def Keeps (view : σ → γ) (x : EStateM ε σ α) : Prop := ∀ s, view (state (x s)) = view s

namespace Keeps

variable {view : σ → γ} {x : EStateM ε σ α} {f : α → EStateM ε σ β}

theorem ok {s s' : σ} {a : α} (h : Keeps view x) (hx : x s = .ok a s') : view s' = view s := by
  have hs := h s
  rwa [hx] at hs

theorem error {s s' : σ} {e : ε} (h : Keeps view x) (hx : x s = .error e s') :
    view s' = view s := by
  have hs := h s
  rwa [hx] at hs

@[simp] theorem pure (a : α) : Keeps view (Pure.pure a : EStateM ε σ α) := fun _ => rfl

@[simp] theorem throw (e : ε) : Keeps view (MonadExcept.throw e : EStateM ε σ α) := fun _ => rfl

theorem bind (hx : Keeps view x) (hf : ∀ a, Keeps view (f a)) : Keeps view (x >>= f) := by
  intro s
  change view (state (EStateM.bind x f s)) = view s
  unfold EStateM.bind
  cases hs : x s with
  | ok a s₁ =>
    calc view (state (f a s₁)) = view s₁ := hf a s₁
      _ = view s := hx.ok hs
  | error e s₁ => exact hx.error hs

theorem ite {c : Prop} [Decidable c] {y : EStateM ε σ α} (hx : Keeps view x)
    (hy : Keeps view y) : Keeps view (if c then x else y) := by
  split_ifs
  · exact hx
  · exact hy

end Keeps

/-- `view` sees the state `x` started in, unless `x` returns. -/
def KeepsOnError (view : σ → γ) (x : EStateM ε σ α) : Prop :=
  ∀ s e s', x s = .error e s' → view s' = view s

theorem Keeps.onError {view : σ → γ} {x : EStateM ε σ α} (h : Keeps view x) :
    KeepsOnError view x :=
  fun _ _ _ hx => h.error hx

/-- Only the last step may change what `view` sees, and only when it returns. -/
theorem KeepsOnError.bind {view : σ → γ} {x : EStateM ε σ α} {f : α → EStateM ε σ β}
    (hx : Keeps view x) (hf : ∀ a, KeepsOnError view (f a)) : KeepsOnError view (x >>= f) := by
  intro s e s' h
  change EStateM.bind x f s = _ at h
  unfold EStateM.bind at h
  cases hs : x s with
  | ok a s₁ =>
    simp only [hs] at h
    calc view s' = view s₁ := hf a s₁ e s' h
      _ = view s := hx.ok hs
  | error e₁ s₁ =>
    simp only [hs] at h
    cases h
    exact hx.error hs

/-- If `r` is an error, `Q` holds of it and of the state it leaves. -/
def Fails (Q : ε → σ → Prop) (r : EStateM.Result ε σ α) : Prop :=
  ∀ e s, r = .error e s → Q e s

namespace Fails

variable {Q Q' : ε → σ → Prop} {x : EStateM ε σ α} {f : α → EStateM ε σ β} {s : σ}

theorem ok (a : α) (s : σ) : Fails Q (.ok a s : EStateM.Result ε σ α) := fun _ _ h => by cases h

theorem error {e : ε} (h : Q e s) : Fails Q (.error e s : EStateM.Result ε σ α) := by
  intro e' s' heq
  cases heq
  exact h

theorem mono {r : EStateM.Result ε σ α} (h : Fails Q r) (hQ : ∀ e s, Q e s → Q' e s) :
    Fails Q' r :=
  fun e s hr => hQ e s (h e s hr)

theorem of_ok {r : EStateM.Result ε σ α} (h : ∃ a s, r = .ok a s) : Fails Q r := by
  obtain ⟨a, s, rfl⟩ := h
  exact .ok a s

/-- A failure of either part, the second run where the first ended. -/
theorem bind (hx : Fails Q (x s)) (hf : ∀ a s', x s = .ok a s' → Fails Q (f a s')) :
    Fails Q ((x >>= f) s) := by
  change Fails Q (EStateM.bind x f s)
  unfold EStateM.bind
  cases hs : x s with
  | ok a s' => exact hf a s' hs
  | error e s' => exact .error (hx e s' hs)

theorem ite {c : Prop} [Decidable c] {y : EStateM ε σ α} (hx : c → Fails Q (x s))
    (hy : ¬c → Fails Q (y s)) : Fails Q ((if c then x else y) s) := by
  split_ifs with h
  · exact hx h
  · exact hy h

end Fails

end Outcome
