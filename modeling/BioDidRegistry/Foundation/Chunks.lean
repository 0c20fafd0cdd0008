import Mathlib.Data.List.Basic
import Mathlib.Data.List.TakeDrop
import Mathlib.Tactic

/-!
# Chunks

A list cut into pieces of one length, of which only the last may be shorter. The pieces
before any piece are as many cells as its number says, so each piece has its offset.
-/

namespace BinaryFormat

variable {β : Type*} {n k : ℕ} {xs c : List β}

/-- `xs.chunks(n)`. -/
def chunks (n : ℕ) (xs : List β) : List (List β) :=
  (List.range ((xs.length + n - 1) / n)).map fun i => (xs.drop (i * n)).take n

theorem lt_length_chunks_iff (hn : 0 < n) : k < (chunks n xs).length ↔ k * n < xs.length := by
  have hround : k + 1 ≤ (xs.length + n - 1) / n ↔ (k + 1) * n ≤ xs.length + n - 1 :=
    Nat.le_div_iff_mul_le hn
  rw [Nat.succ_mul] at hround
  rw [chunks, List.length_map, List.length_range]
  omega

theorem chunks_eq_some (hn : 0 < n) (h : (chunks n xs)[k]? = some c) :
    k * n < xs.length ∧ c = (xs.drop (k * n)).take n := by
  obtain ⟨hk, hc⟩ := List.getElem?_eq_some_iff.mp h
  refine ⟨(lt_length_chunks_iff hn).mp hk, ?_⟩
  rw [← hc]
  simp [chunks]

theorem ne_nil_of_chunks (hn : 0 < n) (h : c ∈ chunks n xs) : c ≠ [] := by
  obtain ⟨k, hk⟩ := List.mem_iff_getElem?.mp h
  obtain ⟨hlt, rfl⟩ := chunks_eq_some hn hk
  intro hnil
  have hlen := congrArg List.length hnil
  simp only [List.length_take, List.length_drop, List.length_nil] at hlen
  omega

theorem flatten_take_chunks (hn : 0 < n) (xs : List β) (k : ℕ) :
    ((chunks n xs).take k).flatten = xs.take (k * n) := by
  induction k with
  | zero => simp
  | succ k ih =>
    cases hk : (chunks n xs)[k]? with
    | none =>
      have hlen : (chunks n xs).length ≤ k := List.getElem?_eq_none_iff.mp hk
      have hall : xs.length ≤ k * n := by
        have hiff := @lt_length_chunks_iff β n k xs hn
        omega
      rw [List.take_of_length_le hlen] at ih
      rw [List.take_of_length_le (by omega), ih, List.take_of_length_le hall,
        List.take_of_length_le (by rw [Nat.succ_mul]; omega)]
    | some c =>
      obtain ⟨-, rfl⟩ := chunks_eq_some hn hk
      rw [List.take_add_one, hk, List.flatten_append, ih, Nat.succ_mul, List.take_add]
      simp

theorem flatten_chunks (hn : 0 < n) (xs : List β) : (chunks n xs).flatten = xs := by
  have hall : xs.length ≤ (chunks n xs).length * n := by
    have hiff := @lt_length_chunks_iff β n (chunks n xs).length xs hn
    omega
  rw [← List.take_length (l := chunks n xs), flatten_take_chunks hn, List.take_of_length_le hall]

/-- A piece begins where the ones before it end. -/
theorem length_take_chunks (hn : 0 < n) (h : k < (chunks n xs).length) :
    ((chunks n xs).take k).flatten.length = k * n := by
  have hlt := (lt_length_chunks_iff hn).mp h
  rw [flatten_take_chunks hn, List.length_take]
  omega

end BinaryFormat
