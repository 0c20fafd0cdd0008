import Mathlib.Logic.Function.Basic
import Mathlib.Tactic

/-!
# Registers that keep the latest value

Values arrive for the registers of their keys, and a register keeps the one of greatest rank.
What it holds has arrived, and nothing that arrived has a greater rank. So where one value
alone has the greatest rank, it does not matter in which order or how often they arrive.
-/

namespace Registers

variable {κ α : Type*} [DecidableEq κ] (rank : α → ℕ)

/-- A value arrives for the register of its key. -/
def put (regs : κ → Option α) (u : κ × α) : κ → Option α :=
  if ∀ a ∈ regs u.1, rank a ≤ rank u.2 then Function.update regs u.1 (some u.2) else regs

/-- All registers are empty, and then the values arrive. -/
def replay (us : List (κ × α)) : κ → Option α := us.foldl (put rank) fun _ => none

variable {rank} {regs : κ → Option α} {us : List (κ × α)} {k l : κ} {a b : α}

theorem put_self (h : ∀ a ∈ regs k, rank a ≤ rank b) : put rank regs (k, b) k = some b := by
  rw [put, if_pos h, Function.update_self]

theorem put_of_ne (h : l ≠ k) : put rank regs (k, b) l = regs l := by
  unfold put
  split_ifs
  · exact Function.update_of_ne h _ _
  · rfl

theorem replay_concat (us : List (κ × α)) (u : κ × α) :
    replay rank (us ++ [u]) = put rank (replay rank us) u := by
  simp [replay]

theorem mem_of_replay (h : replay rank us k = some a) : (k, a) ∈ us := by
  induction us using List.reverseRecOn with
  | nil => cases h
  | append_singleton us u ih =>
    obtain ⟨l, b⟩ := u
    rw [replay_concat] at h
    by_cases hkept : ∀ a ∈ replay rank us l, rank a ≤ rank b
    · by_cases hk : k = l
      · subst hk
        rw [put_self hkept] at h
        cases h
        simp
      · rw [put_of_ne hk] at h
        exact List.mem_append_left _ (ih h)
    · rw [put, if_neg hkept] at h
      exact List.mem_append_left _ (ih h)

theorem exists_le_of_mem (h : (k, b) ∈ us) : ∃ a, replay rank us k = some a ∧ rank b ≤ rank a := by
  induction us using List.reverseRecOn with
  | nil => cases h
  | append_singleton us u ih =>
    obtain ⟨l, c⟩ := u
    rw [replay_concat]
    by_cases hk : k = l
    · subst hk
      by_cases hkept : ∀ a ∈ replay rank us k, rank a ≤ rank c
      · refine ⟨c, put_self hkept, ?_⟩
        rcases List.mem_append.mp h with h | h
        · obtain ⟨a, ha, hle⟩ := ih h
          exact hle.trans (hkept a ha)
        · cases List.mem_singleton.mp h
          exact le_rfl
      · rw [put, if_neg hkept]
        rcases List.mem_append.mp h with h | h
        · exact ih h
        · cases List.mem_singleton.mp h
          push Not at hkept
          obtain ⟨a, ha, hlt⟩ := hkept
          exact ⟨a, ha, hlt.le⟩
    · rw [put_of_ne hk]
      rcases List.mem_append.mp h with h | h
      · exact ih h
      · cases List.mem_singleton.mp h
        exact absurd rfl hk

/-- The one value of greatest rank stays, whatever else arrives. -/
theorem replay_eq_some (hmem : (k, a) ∈ us)
    (hgreatest : ∀ b, (k, b) ∈ us → rank b ≤ rank a ∧ (rank b = rank a → b = a)) :
    replay rank us k = some a := by
  obtain ⟨b, hb, hle⟩ := exists_le_of_mem hmem
  obtain ⟨hge, hunique⟩ := hgreatest b (mem_of_replay hb)
  rw [hb, hunique (hge.antisymm hle)]

end Registers
