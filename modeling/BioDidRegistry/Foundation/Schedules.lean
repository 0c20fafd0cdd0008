import Mathlib.Data.List.Basic
import Mathlib.Data.List.TakeDrop
import Mathlib.Tactic

/-!
# Schedules of a plan

A plan is a list of actions meant to be taken in order, and a schedule attempts actions of
the plan in any order and any number of times. An attempt goes through or leaves the state
alone. Where each stage of the plan lets only the next action through, what goes through is
a beginning of the plan, and a schedule with the whole plan in it in order completes the
plan if no stage refuses its action.
-/

namespace Transition

variable {σ τ α : Type*}

def attempted (attempt : τ → σ → Option σ) (s : σ) (x : τ) : σ := (attempt x s).getD s

def afterSchedule (attempt : τ → σ → Option σ) (xs : List τ) (s : σ) : σ :=
  xs.foldl (attempted attempt) s

/-- The attempts of a schedule that go through. -/
def through (attempt : τ → σ → Option σ) : List τ → σ → List τ
  | [], _ => []
  | x :: xs, s =>
    if (attempt x s).isSome then x :: through attempt xs (attempted attempt s x)
    else through attempt xs s

/-- Stage number `k` of the plan lets action number `k` through, which leads to the next
stage, and no other action of the plan. -/
structure InOrder (attempt : τ → σ → Option σ) (action : τ → α) (plan : List α)
    (allowed : τ → Prop) (stage : ℕ → σ → Prop) : Prop where
  refused : ∀ k s x, stage k s → allowed x → action x ∈ plan → plan[k]? ≠ some (action x) →
    attempt x s = none
  next : ∀ k s x t, stage k s → allowed x → plan[k]? = some (action x) → attempt x s = some t →
    stage (k + 1) t

namespace InOrder

variable {attempt : τ → σ → Option σ} {action : τ → α} {plan : List α} {allowed : τ → Prop}
  {stage : ℕ → σ → Prop} {xs : List τ} {k : ℕ} {s : σ}

theorem through_eq (h : InOrder attempt action plan allowed stage) (hs : stage k s)
    (hk : k ≤ plan.length) (hxs : ∀ x ∈ xs, allowed x ∧ action x ∈ plan) :
    ∃ n, k + n ≤ plan.length ∧ (through attempt xs s).map action = (plan.drop k).take n ∧
      stage (k + n) (afterSchedule attempt xs s) := by
  induction xs generalizing k s with
  | nil => exact ⟨0, hk, by simp [through], hs⟩
  | cons x xs ih =>
    obtain ⟨⟨hallowed, hplan⟩, hrest⟩ := List.forall_mem_cons.mp hxs
    cases hx : attempt x s with
    | none =>
      have hsame : attempted attempt s x = s := by rw [attempted, hx, Option.getD_none]
      obtain ⟨n, hn, hthrough, hstage⟩ := ih hs hk hrest
      refine ⟨n, hn, ?_, ?_⟩
      · rw [through, hx]
        exact hthrough
      · rw [afterSchedule, List.foldl_cons, hsame]
        exact hstage
    | some t =>
      have hsame : attempted attempt s x = t := by rw [attempted, hx, Option.getD_some]
      have hnext : plan[k]? = some (action x) := by
        by_contra hother
        have hnone := h.refused k s x hs hallowed hplan hother
        rw [hx] at hnone
        cases hnone
      obtain ⟨hlt, hget⟩ := List.getElem?_eq_some_iff.mp hnext
      obtain ⟨n, hn, hthrough, hstage⟩ := ih (h.next k s x t hs hallowed hnext hx) hlt hrest
      refine ⟨n + 1, by omega, ?_, ?_⟩
      · rw [through, hx, if_pos Option.isSome_some, hsame, List.map_cons, hthrough,
          List.drop_eq_getElem_cons hlt, List.take_succ_cons, hget]
      · have hcount : k + (n + 1) = k + 1 + n := by omega
        rw [afterSchedule, List.foldl_cons, hsame, hcount]
        exact hstage

/-- A schedule that has what is left of the plan in it completes the plan. -/
theorem completes (h : InOrder attempt action plan allowed stage)
    (hopen : ∀ k s x, stage k s → allowed x → plan[k]? = some (action x) →
      (attempt x s).isSome = true)
    (hs : stage k s) (hk : k ≤ plan.length) (hxs : ∀ x ∈ xs, allowed x ∧ action x ∈ plan)
    (hsub : List.Sublist (plan.drop k) (xs.map action)) :
    stage plan.length (afterSchedule attempt xs s) := by
  induction xs generalizing k s with
  | nil =>
    have hnil : plan.drop k = [] := List.sublist_nil.mp hsub
    have hlen : plan.length = k := Nat.le_antisymm (List.drop_eq_nil_iff.mp hnil) hk
    rw [hlen]
    exact hs
  | cons x xs ih =>
    obtain ⟨⟨hallowed, hplan⟩, hrest⟩ := List.forall_mem_cons.mp hxs
    by_cases hnext : plan[k]? = some (action x)
    · obtain ⟨t, ht⟩ := Option.isSome_iff_exists.mp (hopen k s x hs hallowed hnext)
      obtain ⟨hlt, hget⟩ := List.getElem?_eq_some_iff.mp hnext
      have hsame : attempted attempt s x = t := by rw [attempted, ht, Option.getD_some]
      rw [List.drop_eq_getElem_cons hlt, hget, List.map_cons] at hsub
      rw [afterSchedule, List.foldl_cons, hsame]
      exact ih (h.next k s x t hs hallowed hnext ht) hlt hrest (List.cons_sublist_cons.mp hsub)
    · have hnone := h.refused k s x hs hallowed hplan hnext
      have hsame : attempted attempt s x = s := by rw [attempted, hnone, Option.getD_none]
      rw [afterSchedule, List.foldl_cons, hsame]
      refine ih hs hk hrest ?_
      -- The action is not the next one, so the rest of the plan lies in what follows.
      rw [List.map_cons] at hsub
      cases hrestplan : plan.drop k with
      | nil => exact List.nil_sublist _
      | cons i is =>
        rw [hrestplan] at hsub
        rcases List.cons_sublist_cons'.mp hsub with hlater | ⟨hsame, -⟩
        · exact hlater
        · have hget : plan[k]? = some i := by
            rw [← Nat.add_zero k, ← List.getElem?_drop, hrestplan]
            rfl
          exact absurd (hsame ▸ hget) hnext

end InOrder

end Transition
