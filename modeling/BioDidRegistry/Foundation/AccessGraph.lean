import BioDidRegistry.Foundation.Runs
import Mathlib.Data.Set.Basic

/-!
# What a set of keys commands

Keys act on objects, and objects control objects. Whoever has the keys `K` commands the
objects these keys act on and, through them, whatever they control, at any remove. A
transition made with the keys of `K` may change what they command as it likes; if it
gives them no way into any other object, they never command more than they did.
-/

namespace Access

open Transition

/-- Which keys act on an object, and which objects control it. -/
structure Graph (ι κ : Type*) where
  holds : ι → κ → Prop
  controls : ι → ι → Prop

variable {ι κ σ τ γ : Type*}

/-- The objects that the keys of `K` act on, directly or through what they command. -/
inductive Commands (G : Graph ι κ) (K : Set κ) : ι → Prop
  | holds {x : ι} {k : κ} (h : G.holds x k) (hk : k ∈ K) : Commands G K x
  | controls {x y : ι} (h : G.controls x y) (hy : Commands G K y) : Commands G K x

def Confines (K : Set κ) (G G' : Graph ι κ) : Prop :=
  ∀ x, ¬Commands G K x →
    (∀ k ∈ K, G'.holds x k → G.holds x k) ∧ ∀ y, G'.controls x y → G.controls x y

variable {G G' : Graph ι κ} {K : Set κ} {x : ι}

theorem Confines.commands (hG : Confines K G G') (h : Commands G' K x) : Commands G K x := by
  induction h with
  | @holds x k h hk =>
    by_contra hnot
    exact hnot (.holds ((hG x hnot).1 k hk h) hk)
  | @controls x y h _ ih =>
    by_contra hnot
    exact hnot (.controls ((hG x hnot).2 y h) ih)

/-- If every step confines `K`, then over a run `K` commands no more than it did, and what
the steps leave alone of the objects it does not command stays. -/
theorem Confines.run {step : σ → τ → σ → Prop} {graph : σ → Graph ι κ} {inv : σ → Prop}
    {Q : ι → σ → Prop} {s t : σ} {ls : List τ} (hrun : Run step s ls t)
    (hstep : ∀ u l v, inv u → step u l v → inv v ∧ Confines K (graph u) (graph v) ∧
      ∀ x, ¬Commands (graph u) K x → Q x u → Q x v) (hs : inv s) :
    inv t ∧ (∀ x, Commands (graph t) K x → Commands (graph s) K x) ∧
      ∀ x, ¬Commands (graph s) K x → Q x s → Q x t := by
  refine hrun.invariant (P := fun u => inv u ∧
    (∀ x, Commands (graph u) K x → Commands (graph s) K x) ∧
      ∀ x, ¬Commands (graph s) K x → Q x s → Q x u) ?_ ⟨hs, fun _ h => h, fun _ _ h => h⟩
  rintro u l v ⟨hu, hcommands, hkept⟩ h
  obtain ⟨hv, hconfines, hleft⟩ := hstep u l v hu h
  refine ⟨hv, fun x hx => hcommands x (hconfines.commands hx), fun x hx hQ => ?_⟩
  exact hleft x (fun hcommanded => hx (hcommands x hcommanded)) (hkept x hx hQ)

end Access
