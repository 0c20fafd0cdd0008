import Mathlib.Data.List.Basic
import Mathlib.Tactic

/-!
# Runs of a labelled transition system

A run is a finite sequence of steps, oldest label first. An invariant is proved
once for the initial states and once for a step; `Run.trace` carries it to every
state of every run, together with the labels that led there. `Run.exists_of_rank`
finds a run that ends where a rank cannot fall any more. `Run.simulation` does the
same for a relation with a second system that can answer every step, and
`Run.simulation_matching` when the answers have labels of their own.
-/

namespace Transition

variable {σ τ ι : Type*}

/-- `Run step s ls t`: the steps labelled `ls` lead from `s` to `t`. -/
inductive Run (step : σ → ι → σ → Prop) (s : σ) : List ι → σ → Prop
  | start : Run step s [] s
  | snoc {ls : List ι} {t : σ} {l : ι} {u : σ} :
      Run step s ls t → step t l u → Run step s (ls ++ [l]) u

namespace Run

variable {step : σ → ι → σ → Prop} {s t u : σ} {ls ms : List ι}

theorem trans (h : Run step s ls t) (h' : Run step t ms u) : Run step s (ls ++ ms) u := by
  induction h' with
  | start => simpa using h
  | snoc _ hstep ih =>
    rw [← List.append_assoc]
    exact ih.snoc hstep

/-- An invariant of the labels so far and the state they lead to. -/
theorem trace {P : List ι → σ → Prop} (hrun : Run step s ls t)
    (hstep : ∀ ls t l u, Run step s ls t → P ls t → step t l u → P (ls ++ [l]) u)
    (hs : P [] s) : P ls t := by
  induction hrun with
  | start => exact hs
  | snoc hrun h ih => exact hstep _ _ _ _ hrun ih h

theorem invariant {P : σ → Prop} (hrun : Run step s ls t)
    (hstep : ∀ t l u, P t → step t l u → P u) (hs : P s) : P t :=
  hrun.trace (fun _ _ _ _ _ ht h => hstep _ _ _ ht h) hs

theorem map {κ : Type*} {step' : σ → κ → σ → Prop} {f : ι → κ} (hrun : Run step s ls t)
    (hstep : ∀ t l u, step t l u → step' t (f l) u) : Run step' s (ls.map f) t := by
  induction hrun with
  | start => exact .start
  | @snoc ls t l u _ h ih =>
    rw [List.map_append]
    exact ih.snoc (hstep t l u h)

theorem restrict {p : ι → Prop} (hrun : Run step s ls t) (hls : ∀ l ∈ ls, p l) :
    Run (fun s l t => step s l t ∧ p l) s ls t := by
  induction hrun with
  | start => exact .start
  | @snoc ls t l u _ hstep ih =>
    have hbefore : ∀ l ∈ ls, p l := fun l hl => hls l (List.mem_append_left _ hl)
    exact (ih hbefore).snoc ⟨hstep, hls l (by simp)⟩

theorem exists_turning {P : σ → Prop} (hrun : Run step s ls t) (hs : ¬P s) (ht : P t) :
    ∃ before l after u v, ls = before ++ l :: after ∧ Run step s before u ∧ ¬P u ∧ step u l v ∧
      P v ∧ Run step v after t := by
  induction hrun with
  | start => exact absurd ht hs
  | @snoc ls t l u hrun hstep ih =>
    by_cases hmid : P t
    · obtain ⟨before, l', after, v, w, hls, hbefore, hv, hat, hw, hafter⟩ := ih hmid
      exact ⟨before, l', after ++ [l], v, w, by simp [hls], hbefore, hv, hat, hw,
        hafter.snoc hstep⟩
    · exact ⟨ls, l, [], t, u, rfl, hrun, hmid, hstep, ht, .start⟩

/-- Where every state but those with `Q` has a step that lowers a rank, some run leads to `Q`. -/
theorem exists_of_rank {P Q : σ → Prop} (rank : σ → ℕ)
    (hstep : ∀ t, P t → ¬Q t → ∃ l u, step t l u ∧ P u ∧ rank u < rank t) (hs : P s) :
    ∃ ls t, Run step s ls t ∧ P t ∧ Q t := by
  induction hrank : rank s using Nat.strong_induction_on generalizing s with
  | _ n ih =>
    by_cases hdone : Q s
    · exact ⟨[], s, .start, hs, hdone⟩
    · obtain ⟨l, t, hfirst, ht, hlt⟩ := hstep s hs hdone
      obtain ⟨ls, u, hrun, hu⟩ := ih (rank t) (hrank ▸ hlt) ht rfl
      have hone : Run step s ([] ++ [l]) t := Run.start.snoc hfirst
      exact ⟨_, u, hone.trans hrun, hu⟩

/-- A relation that every step of one system and the answering step of the
other keep holds at the end of both runs. -/
theorem simulation {R : σ → τ → Prop} {step' : τ → ι → τ → Prop} {s' : τ}
    (hrun : Run step s ls t)
    (hstep : ∀ t l u t', R t t' → step t l u → ∃ u', step' t' l u' ∧ R u u') (hs : R s s') :
    ∃ t', Run step' s' ls t' ∧ R t t' := by
  induction hrun with
  | start => exact ⟨s', .start, hs⟩
  | snoc _ h ih =>
    obtain ⟨t', hrun', hR⟩ := ih
    obtain ⟨u', hstep', hR'⟩ := hstep _ _ _ _ hR h
    exact ⟨u', hrun'.snoc hstep', hR'⟩

theorem simulation_matching {κ : Type*} {M : ι → κ → Prop} {R : σ → τ → Prop}
    {step' : τ → κ → τ → Prop} {s' : τ} (hrun : Run step s ls t)
    (hstep : ∀ t l u t', R t t' → step t l u → ∃ k u', M l k ∧ step' t' k u' ∧ R u u')
    (hs : R s s') : ∃ ks t', List.Forall₂ M ls ks ∧ Run step' s' ks t' ∧ R t t' := by
  induction hrun with
  | start => exact ⟨[], s', .nil, .start, hs⟩
  | snoc _ h ih =>
    obtain ⟨ks, t', hmatch, hrun', hR⟩ := ih
    obtain ⟨k, u', hM, hstep', hR'⟩ := hstep _ _ _ _ hR h
    have hall := List.rel_append hmatch (List.Forall₂.cons hM .nil)
    exact ⟨ks ++ [k], u', hall, hrun'.snoc hstep', hR'⟩

end Run

end Transition
