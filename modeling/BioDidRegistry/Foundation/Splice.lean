import Mathlib.Data.List.Basic
import Mathlib.Tactic

/-!
# Editing a buffer in place

A buffer is a list of cells. `splice` overwrites a span, `moveWithin` copies a
span over another part of the same buffer, and `resizeWith` cuts the end off or
pads it. The main result, `splice_moveWithin`, is the way a program replaces a
span by one of another length: it moves what follows, then writes the new span
into the gap.
-/

namespace BinaryFormat

variable {α : Type*}

/-- `xs` with the cells from `pos` on overwritten by `ys`. -/
def splice (xs : List α) (pos : ℕ) (ys : List α) : List α :=
  xs.take pos ++ ys ++ xs.drop (pos + ys.length)

/-- `xs` with the span from `first` to `last` copied over the cells from `dest` on. -/
def moveWithin (xs : List α) (first last dest : ℕ) : List α :=
  splice xs dest ((xs.drop first).take (last - first))

/-- `xs` cut to `n` cells, or padded to them with `pad`. -/
def resizeWith (pad : α) (xs : List α) (n : ℕ) : List α :=
  xs.take n ++ List.replicate (n - xs.length) pad

theorem length_splice {xs ys : List α} {pos : ℕ} (h : pos + ys.length ≤ xs.length) :
    (splice xs pos ys).length = xs.length := by
  simp [splice]
  omega

theorem splice_append {a b c ys : List α} {pos : ℕ} (hpos : pos = a.length)
    (hlen : ys.length = b.length) : splice (a ++ b ++ c) pos ys = a ++ ys ++ c := by
  subst hpos
  simp [splice, hlen, List.drop_append]

theorem splice_append_right {a c ys : List α} {pos : ℕ} (h : a.length ≤ pos) :
    splice (a ++ c) pos ys = a ++ splice c (pos - a.length) ys := by
  have htake : a.take pos = a := List.take_of_length_le h
  have hdrop : a.drop (pos + ys.length) = [] := List.drop_eq_nil_of_le (by omega)
  have hsub : pos + ys.length - a.length = pos - a.length + ys.length := by omega
  simp [splice, List.take_append, List.drop_append, htake, hdrop, hsub]

theorem splice_splice {xs ys zs : List α} {pos : ℕ}
    (h : pos + ys.length ≤ xs.length) :
    splice (splice xs pos ys) (pos + ys.length) zs = splice xs pos (ys ++ zs) := by
  have hhead : (xs.take pos ++ ys).length = pos + ys.length := by
    simp
    omega
  have hin : (xs.take pos ++ ys).length ≤ pos + ys.length := hhead.le
  have key := @splice_append_right _ _ (xs.drop (pos + ys.length)) zs _ hin
  rw [show splice xs pos ys = xs.take pos ++ ys ++ xs.drop (pos + ys.length) from rfl, key, hhead]
  simp [splice, Nat.add_assoc]

theorem resizeWith_grow (pad : α) {xs : List α} {n : ℕ} (h : xs.length ≤ n) :
    resizeWith pad xs n = xs ++ List.replicate (n - xs.length) pad := by
  simp [resizeWith, List.take_of_length_le h]

theorem resizeWith_cut (pad : α) {xs ys : List α} {n : ℕ} (h : n = xs.length) :
    resizeWith pad (xs ++ ys) n = xs := by
  subst h
  simp [resizeWith]

/-- The span after the gap, moved to where the new span will end, and the gap
then filled. `spare` is room past the end, and what the edit leaves behind the
moved span is the same number of cells as the two lengths differ by. -/
theorem splice_moveWithin (before old after spare new : List α)
    (h : new.length ≤ old.length + spare.length) :
    ∃ junk : List α, junk.length = old.length + spare.length - new.length ∧
      splice
        (moveWithin (before ++ old ++ after ++ spare) (before.length + old.length)
          (before.length + old.length + after.length) (before.length + new.length))
        before.length new = before ++ new ++ after ++ junk := by
  set whole := before ++ old ++ after ++ spare with hwhole
  have hspan : (whole.drop (before.length + old.length)).take
      (before.length + old.length + after.length - (before.length + old.length)) = after := by
    have hdrop : whole.drop (before.length + old.length) = after ++ spare := by
      rw [hwhole, ← List.length_append, List.append_assoc (before ++ old), List.drop_left]
    rw [hdrop, Nat.add_sub_cancel_left, List.take_left]
  have hlength : whole.length =
      before.length + old.length + after.length + spare.length := by
    simp only [hwhole, List.length_append]
  -- The cells the moved span is written after, of which only `before` survives.
  have hkept : whole.take (before.length + new.length) =
      before ++ (old ++ after ++ spare).take new.length := by
    simp only [hwhole, List.append_assoc, List.take_length_add_append]
  have hgap : ((old ++ after ++ spare).take new.length).length = new.length := by
    simp only [List.length_take, List.length_append]
    omega
  refine ⟨whole.drop (before.length + new.length + after.length), ?_, ?_⟩
  · rw [List.length_drop, hlength]
    omega
  · unfold moveWithin
    rw [hspan]
    rw [show splice whole (before.length + new.length) after =
      before ++ (old ++ after ++ spare).take new.length ++
        (after ++ whole.drop (before.length + new.length + after.length)) by
        simp only [splice, hkept, List.append_assoc]]
    rw [splice_append rfl hgap.symm]
    simp only [List.append_assoc]

end BinaryFormat
