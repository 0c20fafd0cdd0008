import Mathlib.Data.List.Basic

/-!
# The first separator

A list is cut at the first place of a separator. The part before has no separator, the part
after may have more of them, and there is only one such cut.
-/

namespace Separator

variable {α : Type*} {sep : α} {xs before after before' after' : List α}

/-- The list is `before`, its first separator and `after`. -/
structure Cut (sep : α) (xs before after : List α) : Prop where
  eq : xs = before ++ sep :: after
  first : sep ∉ before

namespace Cut

theorem cons {x : α} (h : Cut sep xs before after) (hx : x ≠ sep) :
    Cut sep (x :: xs) (x :: before) after where
  eq := congrArg (x :: ·) h.eq
  first := by
    intro hmem
    rcases List.mem_cons.mp hmem with heq | hmem
    · exact hx heq.symm
    · exact h.first hmem

theorem unique (h : Cut sep xs before after) (h' : Cut sep xs before' after') :
    before = before' ∧ after = after' := by
  induction before generalizing xs before' with
  | nil =>
    cases before' with
    | nil =>
      have hsame : sep :: after = sep :: after' := h.eq.symm.trans h'.eq
      exact ⟨rfl, (List.cons.inj hsame).2⟩
    | cons y before' =>
      have hsame : sep :: after = y :: (before' ++ sep :: after') := h.eq.symm.trans h'.eq
      have hhead : sep = y := (List.cons.inj hsame).1
      exact absurd (hhead ▸ List.mem_cons_self ..) h'.first
  | cons x before ih =>
    cases before' with
    | nil =>
      have hsame : x :: (before ++ sep :: after) = sep :: after' := h.eq.symm.trans h'.eq
      have hhead : x = sep := (List.cons.inj hsame).1
      exact absurd (hhead ▸ List.mem_cons_self ..) h.first
    | cons y before' =>
      have hsame : x :: (before ++ sep :: after) = y :: (before' ++ sep :: after') :=
        h.eq.symm.trans h'.eq
      obtain ⟨rfl, htail⟩ := List.cons.inj hsame
      have hrest := ih ⟨rfl, fun hmem => h.first (List.mem_cons_of_mem _ hmem)⟩
        ⟨htail, fun hmem => h'.first (List.mem_cons_of_mem _ hmem)⟩
      exact ⟨congrArg (x :: ·) hrest.1, hrest.2⟩

theorem take_eq (h : Cut sep xs before after) : xs.take before.length = before := by
  rw [h.eq, List.take_left]

theorem drop_eq (h : Cut sep xs before after) : xs.drop (before.length + 1) = after := by
  rw [h.eq, ← List.drop_drop, List.drop_left, List.drop_one, List.tail_cons]

end Cut

variable [BEq α] [LawfulBEq α]

theorem findIdx?_eq_none_iff : xs.findIdx? (· == sep) = none ↔ sep ∉ xs := by
  rw [List.findIdx?_eq_none_iff]
  constructor
  · intro h hmem
    simpa using h sep hmem
  · intro h x hx
    rw [beq_eq_false_iff_ne]
    rintro rfl
    exact h hx

theorem findIdx?_eq_some_iff {i : ℕ} : xs.findIdx? (· == sep) = some i ↔
    ∃ before after, Cut sep xs before after ∧ before.length = i := by
  constructor
  · intro h
    induction xs generalizing i with
    | nil => cases h
    | cons x xs ih =>
      rw [List.findIdx?_cons] at h
      by_cases hx : x = sep
      · rw [if_pos (beq_iff_eq.mpr hx)] at h
        refine ⟨[], xs, ⟨by rw [hx, List.nil_append], List.not_mem_nil⟩, ?_⟩
        exact Option.some.inj h
      · rw [if_neg (by simpa using hx)] at h
        obtain ⟨j, hj, rfl⟩ := Option.map_eq_some_iff.mp h
        obtain ⟨before, after, hcut, rfl⟩ := ih hj
        exact ⟨x :: before, after, hcut.cons hx, rfl⟩
  · intro h
    obtain ⟨before, after, ⟨rfl, hfirst⟩, rfl⟩ := h
    have hhead : (sep :: after).findIdx? (· == sep) = some 0 := by
      rw [List.findIdx?_cons, if_pos (beq_self_eq_true sep)]
    rw [List.findIdx?_append, findIdx?_eq_none_iff.mpr hfirst, hhead]
    simp

end Separator
