import BioDidRegistry.Foundation.Outcomes
import BioDidRegistry.Program.Shared

/-!
# Computations that cannot panic

A pure computation is `Total` when it returns or refuses with an error of the program,
and a stateful one is `Safe` when that is so from every state. Parsing is safe on any
bytes, and so are the checks that only compare what was parsed.
-/

namespace BioDidRegistry

open BinaryFormat Outcome

/-- `x` returns a value or an error of the program. -/
def Total {α : Type} (x : Except Fault α) : Prop := x ≠ .error .panic

namespace Total

variable {α β : Type} {x : Except Fault α}

@[simp] theorem ok (a : α) : Total (.ok a) := nofun

@[simp] theorem program (e : ProgramError) : Total (.error (.program e) : Except Fault α) := nofun

@[simp] theorem require (cond : Bool) (err : DidError) : Total (require cond err) := by
  cases cond
  · exact nofun
  · exact nofun

@[simp] theorem ensure (cond : Bool) (err : ProgramError) : Total (ensure cond err) := by
  cases cond
  · exact nofun
  · exact nofun

@[simp] theorem orFault (x : Except ProgramError α) : Total (orFault x) := by
  cases x
  · exact nofun
  · exact nofun

@[simp] theorem checkedAdd (a b : ℕ) : Total (checkedAdd a b) := by
  unfold BioDidRegistry.checkedAdd
  split_ifs
  · exact nofun
  · exact nofun

@[simp] theorem checkedMul (a b : ℕ) : Total (checkedMul a b) := by
  unfold BioDidRegistry.checkedMul
  split_ifs
  · exact nofun
  · exact nofun

theorem of_ok (h : ∃ a, x = .ok a) : Total x := by
  obtain ⟨a, rfl⟩ := h
  exact ok a

/-- The rest only has to be total on the value that was returned. -/
theorem bind {f : α → Except Fault β} (hx : Total x) (hf : ∀ a, x = .ok a → Total (f a)) :
    Total (x >>= f) := by
  cases hx' : x with
  | ok a => exact hf a hx'
  | error e =>
    intro h
    apply hx
    rw [hx']
    cases h
    rfl

theorem ite {c : Prop} [Decidable c] {y : Except Fault α} (hx : Total x) (hy : Total y) :
    Total (if c then x else y) := by
  split_ifs
  · exact hx
  · exact hy

/-- An error of a total computation is one of the program. -/
theorem ne_panic {e : Fault} (h : Total x) (hx : x = .error e) : e ≠ .panic := by
  rintro rfl
  exact h hx

end Total

/-- `x` returns a value or an error of the program, from every state. -/
def Safe {σ α : Type} (x : EStateM Fault σ α) : Prop :=
  ∀ s, Fails (fun e _ => e ≠ .panic) (x s)

namespace Safe

variable {σ α β : Type} {x : EStateM Fault σ α} {f : α → EStateM Fault σ β}

@[simp] theorem pure (a : α) : Safe (Pure.pure a : EStateM Fault σ α) := fun s => .ok a s

@[simp] theorem throw (e : ProgramError) :
    Safe (MonadExcept.throw (Fault.program e) : EStateM Fault σ α) := fun _ => .error nofun

/-- After an early return the rest does not run. -/
theorem throw_bind (e : ProgramError) :
    Safe ((MonadExcept.throw (Fault.program e) : EStateM Fault σ α) >>= f) :=
  fun _ => .error nofun

theorem bind (hx : Safe x) (hf : ∀ a, Safe (f a)) : Safe (x >>= f) :=
  fun s => .bind (hx s) fun a s' _ => hf a s'

theorem ite {c : Prop} [Decidable c] {y : EStateM Fault σ α} (hx : c → Safe x)
    (hy : ¬c → Safe y) : Safe (if c then x else y) :=
  fun s => .ite (fun h => hx h s) fun h => hy h s

theorem lift {y : Except Fault α} (h : Total y) : Safe (liftM y : EStateM Fault σ α) := by
  intro s
  cases hy : y with
  | ok a => exact .ok a s
  | error e => exact .error (h.ne_panic hy)

/-- A list that is cut short ends in the error of its last element. -/
theorem collect (hx : Safe x) (n : ℕ) : Safe (collect x n) := by
  induction n with
  | zero => exact pure []
  | succ n ih => exact hx.bind fun _ => ih.bind fun _ => pure _

end Safe

/-! ### Reading -/

namespace Reader

variable {s : Source} {α : Type}

/-- An offset past the end is refused before anything is sliced. -/
theorem at'_total (data : Bytes) (n : ℕ) : Total (at' s data n) := by
  unfold at'
  split_ifs
  · exact .ok _
  · exact .program _

theorem eval_total {p : Read s α} (h : Safe p) (r : Reader s) : Total (eval p r) := by
  unfold eval
  cases hp : p r with
  | ok a r' => exact .ok a
  | error e r' =>
    have he := h r e r' hp
    intro heq
    cases heq
    exact he rfl

@[simp] theorem offset_safe : Safe (offset : Read s ℕ) := fun _ => .ok _ _

@[simp] theorem bytes_safe (n : ℕ) : Safe (bytes n : Read s Bytes) := by
  intro r
  unfold bytes
  split_ifs
  · exact .ok _ _
  · exact .error nofun

@[simp] theorem array_safe (n : ℕ) : Safe (array n : Read s (Block n)) := by
  intro r
  unfold array
  split_ifs
  · exact .ok _ _
  · exact .error nofun

@[simp] theorem finish_safe : Safe (finish : Read s Unit) := by
  intro r
  unfold finish
  split_ifs
  · exact .ok _ _
  · exact .error nofun

@[simp] theorem u8_safe : Safe (u8 : Read s UInt8) := .bind (by simp) (by simp)

@[simp] theorem u16_safe : Safe (u16 : Read s UInt16) := .bind (by simp) (by simp)

@[simp] theorem u32_safe : Safe (u32 : Read s UInt32) := .bind (by simp) (by simp)

@[simp] theorem u64_safe : Safe (u64 : Read s UInt64) := .bind (by simp) (by simp)

@[simp] theorem lenPrefixed_safe : Safe (lenPrefixed : Read s Bytes) := .bind (by simp) (by simp)

@[simp] theorem str_safe : Safe str :=
  .bind (by simp) fun _ => .ite (by simp) (by simp)

end Reader

open Reader

/-! ### The layouts -/

namespace Sections

theorem skipMethod_safe : Safe skipMethod :=
  .bind (by simp) fun _ => .bind (by simp) fun _ => .bind (by simp) (by simp)

theorem skipService_safe : Safe skipService :=
  .bind (by simp) fun _ => .bind (by simp) fun _ => .bind (by simp) (by simp)

/-- `nc_count * 32` stays far below the range of `usize`. -/
theorem mulUsize_total (n : UInt32) : Total (mulUsize n.toNat 32) := by
  have hlt : n.toNat < 2 ^ 32 := n.toNat_lt
  rw [mulUsize_of_lt (by omega)]
  exact .ok _

/-- The counts come from the data, and one that is too large runs into the end of the input. -/
theorem walk_safe : Safe walk := by
  unfold walk
  refine .bind (by simp) fun ncCount => .bind (by simp) fun ncItems => ?_
  refine .bind (.lift (mulUsize_total ncCount)) fun ncLen => .bind (by simp) fun _ => ?_
  refine .bind (by simp) fun ocCountPos => .bind (by simp) fun ocCount => ?_
  refine .bind (by simp) fun ocItems => .bind (.collect (by simp) _) fun _ => ?_
  refine .bind (by simp) fun vmCountPos => .bind (by simp) fun vmCount => ?_
  refine .bind (by simp) fun vmItems => .bind (.collect skipMethod_safe _) fun _ => ?_
  refine .bind (by simp) fun svcCountPos => .bind (by simp) fun svcCount => ?_
  refine .bind (by simp) fun svcItems => .bind (.collect skipService_safe _) fun _ => ?_
  exact .bind (by simp) fun endPos => .bind (by simp) (by simp)

theorem parse_total (data : Bytes) : Total (parse data) :=
  .bind (at'_total data _) fun r _ => eval_total walk_safe r

end Sections

theorem DidView.parse_total (data : Bytes) : Total (DidView.parse data) := by
  have h := Sections.parse_total data
  unfold DidView.parse
  split
  · exact .ok _
  · rename_i e he
    intro heq
    cases heq
    exact h he

/-- The fragment's length is compared with its field before the field is sliced. -/
theorem KeyBufferRef.parse_total (data : Bytes) : Total (KeyBufferRef.parse data) := by
  have hslice (fragment : Block maxFragmentLen) {n : ℕ} (hn : ¬maxFragmentLen < n) :
      Total (slice fragment.val 0 n) := by
    unfold slice
    rw [if_pos ⟨Nat.zero_le n, by rw [fragment.length_eq]; omega⟩]
    exact .ok _
  unfold KeyBufferRef.parse
  dsimp only
  split_ifs
  · exact .program _
  refine .bind (at'_total _ _) fun r _ => eval_total ?_ r
  refine .bind (by simp) fun didAccount => .bind (by simp) fun authority => ?_
  refine .bind (by simp) fun bump => .bind (by simp) fun methodType => ?_
  refine .bind (by simp) fun flags => .bind (by simp) fun keyLen => ?_
  refine .bind (by simp) fun written => .bind (by simp) fun fragmentLen => ?_
  refine .bind (by simp) fun fragment => .ite (fun _ => .throw_bind _) fun hfits => ?_
  have hlen : ¬maxFragmentLen < fragmentLen.toNat := by
    intro hlt
    exact hfits (Or.inr (Or.inr hlt))
  exact .bind (.lift (hslice fragment hlen)) (by simp)

/-! ### Checks -/

theorem findPda_total (P : Platform) (seeds : List Bytes) : Total (findPda P seeds) := by
  unfold findPda
  split
  · exact .ok _
  · exact .program _

theorem checkPayer_total (payer : AccountView) : Total (checkPayer payer) :=
  .bind (by simp) fun _ _ => .ensure _ _

theorem loadDidAccount_total (P : Platform) (L : Ledger) (did : AccountView) :
    Total (loadDidAccount P L did) := by
  unfold loadDidAccount
  refine .bind (by simp) fun _ _ => .bind (by simp) fun _ _ => .bind (at'_total _ _) fun r _ => ?_
  refine .bind (eval_total ?_ r) fun found _ => .bind (by simp) (by simp)
  exact .bind (by simp) fun bump => .bind (by simp) (by simp)

theorem verifyDidAccount_total (P : Platform) (L : Ledger) (did : AccountView) :
    Total (verifyDidAccount P L did) :=
  .bind (by simp) fun _ _ => loadDidAccount_total P L did

theorem checkKeyBuffer_total (P : Platform) (L : Ledger) (buffer : AccountView)
    (authority : Address) (did : Option Address) :
    Total (checkKeyBuffer P L buffer authority did) := by
  unfold checkKeyBuffer
  refine .bind (by simp) fun _ _ => .bind (by simp) fun _ _ => .bind (by simp) fun _ _ => ?_
  refine .bind (KeyBufferRef.parse_total _) fun kb _ => .bind (by simp) fun _ _ => ?_
  cases did
  · exact .bind (by simp) (by simp)
  · exact .bind (by simp) fun _ _ => .bind (by simp) (by simp)

theorem verifyKeyBuffer_total (P : Platform) (L : Ledger) (buffer : AccountView)
    (authority : Address) (did : Option Address) :
    Total (verifyKeyBuffer P L buffer authority did) :=
  .bind (checkKeyBuffer_total P L buffer authority did) (by simp)

/-- Too few accounts are an error of the program, not an index out of range. -/
theorem Update.tryFrom_total (P : Platform) (L : Ledger) (accounts : List AccountView) :
    Total (Update.tryFrom P L accounts) := by
  unfold Update.tryFrom
  split
  · refine .bind (checkPayer_total _) fun _ _ => .bind (.ensure _ _) fun _ _ => ?_
    refine .bind (.ensure _ _) fun _ _ => .bind (verifyDidAccount_total P L _) (by simp)
  · exact .program _

/-- The products are checked, and a rent that cannot be scaled is refused. -/
theorem rentMinimumBalance_total (P : Platform) (sv : Sysvars) (n : ℕ) :
    Total (rentMinimumBalance P sv n) := by
  unfold rentMinimumBalance
  refine .bind (by simp) fun bytes _ => ?_
  split
  · apply eval_total
    refine .bind (by simp) fun year => .bind (by simp) fun threshold => ?_
    refine .bind (.lift (by simp)) fun base => .ite (by simp) fun _ => ?_
    refine .ite (fun _ => .lift (by simp)) fun _ => ?_
    split
    · exact .pure _
    · exact .throw _
  · exact .bind (by simp) (by simp)
  · exact .program _

/-! ### Writing -/

namespace Safe

variable {account payer did : AccountView} {P : Platform} {sv : Sysvars}

@[simp] theorem lamports : Safe (Exec.lamports account) := fun _ => .ok _ _

@[simp] theorem setLamports (n : ℕ) : Safe (Exec.setLamports account n) := fun _ => .ok _ _

/-- The runtime refuses a call with an error that the program returns. -/
@[simp] theorem call (f : Ledger → Except ProgramError Ledger) : Safe (Exec.call f) := by
  intro m
  unfold Exec.call
  split
  · exact .ok _ _
  · exact .error nofun

theorem settleRent (n : ℕ) : Safe (settleRent P sv did payer n) := by
  refine .bind (.lift (rentMinimumBalance_total P sv n)) fun newMin => ?_
  refine .bind (by simp) fun current => .ite (by simp) fun _ => .ite (fun _ => ?_) (by simp)
  refine .bind (by simp) fun _ => .bind (by simp) fun paid => ?_
  exact .bind (.lift (.checkedAdd _ _)) (by simp)

theorem shrink (n : ℕ) : Safe (shrink P sv did payer n) := .bind (by simp) fun _ => settleRent n

/-- The payer's new balance is computed before either one is written. -/
theorem closeTo : Safe (closeTo P account payer) := by
  refine .bind (by simp) fun paid => .bind (by simp) fun held => ?_
  refine .bind (.lift (.checkedAdd _ _)) fun credited => ?_
  exact .bind (by simp) fun _ => .bind (by simp) (by simp)

end Safe

end BioDidRegistry
