import BioDidRegistry.Foundation.Splice
import BioDidRegistry.Foundation.Cursor
import BioDidRegistry.Program.Error

/-!
# Slices and machine arithmetic

Rust slices and `usize` arithmetic under overflow checks. An access that leaves
the buffer, or a result that leaves the 64-bit range, panics.
-/

namespace BioDidRegistry

open BinaryFormat

theorem except_bind_ok_iff {ε α β : Type} {x : Except ε α} {f : α → Except ε β} {b : β} :
    x >>= f = .ok b ↔ ∃ a, x = .ok a ∧ f a = .ok b := by
  cases x with
  | ok a => simp [bind, Except.bind]
  | error e => simp [bind, Except.bind]

theorem except_bind_error_iff {ε α β : Type} {x : Except ε α} {f : α → Except ε β} {e : ε} :
    x >>= f = .error e ↔ x = .error e ∨ ∃ a, x = .ok a ∧ f a = .error e := by
  cases x with
  | ok a => simp [bind, Except.bind]
  | error e => simp [bind, Except.bind]

@[simp] theorem except_bind_ok {ε α β : Type} (a : α) (f : α → Except ε β) :
    (Except.ok a >>= f) = f a := rfl

@[simp] theorem except_bind_error {ε α β : Type} (e : ε) (f : α → Except ε β) :
    (Except.error e >>= f) = .error e := rfl

theorem except_toOption_eq_some_iff {ε α : Type} {x : Except ε α} {a : α} :
    x.toOption = some a ↔ x = .ok a := by
  cases x <;> simp [Except.toOption]

@[simp] theorem except_pure {ε α : Type} (a : α) : (pure a : Except ε α) = .ok a := rfl

/-- `a + b` on `usize`. -/
def addUsize (a b : ℕ) : Except Fault ℕ :=
  if a + b < 2 ^ 64 then .ok (a + b) else .error .panic

/-- `a - b` on `usize`. -/
def subUsize (a b : ℕ) : Except Fault ℕ :=
  if b ≤ a then .ok (a - b) else .error .panic

/-- `a * b` on `usize`. -/
def mulUsize (a b : ℕ) : Except Fault ℕ :=
  if a * b < 2 ^ 64 then .ok (a * b) else .error .panic

/-- `a.checked_add(b)`, refused as `ArithmeticOverflow`. -/
def checkedAdd (a b : ℕ) : Except Fault ℕ :=
  if a + b < 2 ^ 64 then .ok (a + b) else .error (.program .arithmeticOverflow)

/-- `a.checked_mul(b)`, refused as `ArithmeticOverflow`. -/
def checkedMul (a b : ℕ) : Except Fault ℕ :=
  if a * b < 2 ^ 64 then .ok (a * b) else .error (.program .arithmeticOverflow)

theorem addUsize_of_lt {a b : ℕ} (h : a + b < 2 ^ 64) : addUsize a b = .ok (a + b) := if_pos h

theorem subUsize_of_le {a b : ℕ} (h : b ≤ a) : subUsize a b = .ok (a - b) := if_pos h

theorem mulUsize_of_lt {a b : ℕ} (h : a * b < 2 ^ 64) : mulUsize a b = .ok (a * b) := if_pos h

@[simp] theorem addUsize_eq_ok {a b c : ℕ} :
    addUsize a b = .ok c ↔ a + b < 2 ^ 64 ∧ c = a + b := by
  unfold addUsize
  split_ifs with h
  · simp only [Except.ok.injEq, h, true_and, eq_comm]
  · simp only [h, false_and]

@[simp] theorem subUsize_eq_ok {a b c : ℕ} : subUsize a b = .ok c ↔ b ≤ a ∧ c = a - b := by
  unfold subUsize
  split_ifs with h <;> simp [h, eq_comm]

@[simp] theorem checkedAdd_eq_ok {a b c : ℕ} :
    checkedAdd a b = .ok c ↔ a + b < 2 ^ 64 ∧ c = a + b := by
  unfold checkedAdd
  split_ifs with h
  · simp only [Except.ok.injEq, h, true_and, eq_comm]
  · simp only [h, false_and]

/-- `data[first..last]`. -/
def slice (data : Bytes) (first last : ℕ) : Except Fault Bytes :=
  if first ≤ last ∧ last ≤ data.length then .ok ((data.drop first).take (last - first))
  else .error .panic

/-- `data[pos]`. -/
def index (data : Bytes) (pos : ℕ) : Except Fault UInt8 :=
  match data[pos]? with
  | some b => .ok b
  | none => .error .panic

/-- `data[pos..pos + bs.len()].copy_from_slice(bs)`. -/
def writeAt (data : Bytes) (pos : ℕ) (bs : Bytes) : Except Fault Bytes :=
  if pos + bs.length ≤ data.length then .ok (splice data pos bs) else .error .panic

/-- `data.copy_within(first..last, dest)`. -/
def copyWithin (data : Bytes) (first last dest : ℕ) : Except Fault Bytes :=
  if first ≤ last ∧ last ≤ data.length ∧ dest + (last - first) ≤ data.length then
    .ok (moveWithin data first last dest)
  else .error .panic

theorem slice_append {a b c : Bytes} {first last : ℕ} (hfirst : first = a.length)
    (hlast : last = a.length + b.length) : slice (a ++ b ++ c) first last = .ok b := by
  subst hfirst hlast
  unfold slice
  rw [if_pos ⟨by omega, by simp⟩, List.append_assoc, List.drop_left,
    Nat.add_sub_cancel_left, List.take_left]

theorem writeAt_append {a b c bs : Bytes} {pos : ℕ} (hpos : pos = a.length)
    (hlen : bs.length = b.length) : writeAt (a ++ b ++ c) pos bs = .ok (a ++ bs ++ c) := by
  unfold writeAt
  rw [if_pos (by simp [hpos, hlen]), splice_append hpos hlen]

theorem length_of_writeAt {data bs d : Bytes} {pos : ℕ} (h : writeAt data pos bs = .ok d) :
    d.length = data.length := by
  unfold writeAt at h
  split_ifs at h with hle
  cases h
  exact length_splice hle

theorem writeAt_writeAt {data xs ys : Bytes} {pos next : ℕ} (hnext : next = pos + xs.length)
    (h : pos + xs.length + ys.length ≤ data.length) :
    (writeAt data pos xs >>= fun d => writeAt d next ys) = writeAt data pos (xs ++ ys) := by
  have hx : pos + xs.length ≤ data.length := by omega
  have hxy : pos + (xs ++ ys).length ≤ data.length := by simp; omega
  have hsecond : pos + xs.length + ys.length ≤ (splice data pos xs).length := by
    rw [length_splice hx]
    exact h
  subst hnext
  simp only [writeAt, if_pos hx, if_pos hxy, except_bind_ok, if_pos hsecond, splice_splice hx]

/-- The span replacement of `splice_moveWithin`, with the bounds it stays in. -/
theorem writeAt_copyWithin {before old after spare new : Bytes} {first last dest : ℕ}
    (hfirst : first = before.length + old.length)
    (hlast : last = before.length + old.length + after.length)
    (hdest : dest = before.length + new.length)
    (hroom : new.length ≤ old.length + spare.length) :
    ∃ junk : Bytes, junk.length = old.length + spare.length - new.length ∧
      (copyWithin (before ++ old ++ after ++ spare) first last dest >>= fun d =>
        writeAt d before.length new) = .ok (before ++ new ++ after ++ junk) := by
  obtain ⟨junk, hjunk, hedit⟩ := splice_moveWithin before old after spare new hroom
  subst hfirst hlast hdest
  refine ⟨junk, hjunk, ?_⟩
  have hmoved : before.length + new.length + after.length ≤
      (before ++ old ++ after ++ spare).length := by
    simp only [List.length_append]
    omega
  unfold copyWithin
  rw [if_pos ⟨by omega, by simp only [List.length_append]; omega, by
    simp only [List.length_append]
    omega⟩, except_bind_ok]
  unfold writeAt
  have hlength : (moveWithin (before ++ old ++ after ++ spare) (before.length + old.length)
      (before.length + old.length + after.length) (before.length + new.length)).length =
      (before ++ old ++ after ++ spare).length := by
    apply length_splice
    simp only [List.length_take, List.length_drop, List.length_append]
    omega
  rw [if_pos (by rw [hlength]; omega), hedit]

/-- A pure computation inside a stateful one. -/
instance liftExcept {ε σ : Type} : MonadLift (Except ε) (EStateM ε σ) where
  monadLift x s := match x with
    | .ok a => .ok a s
    | .error e => .error e s

@[simp] theorem lift_ok {ε σ α : Type} (a : α) (s : σ) :
    (liftM (Except.ok a : Except ε α) : EStateM ε σ α) s = .ok a s := rfl

@[simp] theorem lift_error {ε σ α : Type} (e : ε) (s : σ) :
    (liftM (Except.error e : Except ε α) : EStateM ε σ α) s = .error e s := rfl

theorem lift_ok_iff {ε σ α : Type} {x : Except ε α} {a : α} {s s' : σ} :
    (liftM x : EStateM ε σ α) s = .ok a s' ↔ x = .ok a ∧ s' = s := by
  cases x with
  | ok b => simp [eq_comm]
  | error e => simp

end BioDidRegistry
