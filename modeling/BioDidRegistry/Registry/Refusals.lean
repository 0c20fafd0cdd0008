import BioDidRegistry.Program.Faults
import BioDidRegistry.Registry.Rent

/-!
# What a refusal leaves behind

A write stays made when a later step fails, so a refusal leaves the ledger alone only if
nothing fails after the first write. `Refuses L orderly r` says that `r` is no panic, and
that where `orderly` holds an error leaves the ledger at `L`. Settling rent is the step
that fails, and `Orderly` is what rules that out once the document is written.
-/

namespace BioDidRegistry

open BinaryFormat Outcome

/-- The error is one of the program, and the ledger is still `L` if all was in order. -/
structure Refusal (L : Ledger) (orderly : Prop) (e : Fault) (m : Machine) : Prop where
  returned : e ≠ .panic
  unchanged : orderly → m.ledger = L

abbrev Refuses {α : Type} (L : Ledger) (orderly : Prop) (r : EStateM.Result Fault Machine α) :
    Prop :=
  Fails (Refusal L orderly) r

namespace Refuses

variable {α β : Type} {L : Ledger} {orderly : Prop} {m : Machine} {x : Exec α} {f : α → Exec β}

theorem weaken {orderly' : Prop} {r : EStateM.Result Fault Machine α} (h : Refuses L orderly r)
    (himp : orderly' → orderly) : Refuses L orderly' r :=
  h.mono fun _ _ hr => ⟨hr.returned, fun ho => hr.unchanged (himp ho)⟩

theorem program (e : ProgramError) (m : Machine) :
    Refuses m.ledger orderly (.error (.program e) m : EStateM.Result Fault Machine α) :=
  .error ⟨nofun, fun _ => rfl⟩

theorem lift_bind {y : Except Fault α} (hy : Total y)
    (hf : ∀ a, y = .ok a → Refuses m.ledger orderly (f a m)) :
    Refuses m.ledger orderly (((liftM y : Exec α) >>= f) m) := by
  cases hy' : y with
  | ok a => exact hf a hy'
  | error e => exact .error ⟨hy.ne_panic hy', fun _ => rfl⟩

theorem call (g : Ledger → Except ProgramError Ledger) :
    Refuses m.ledger orderly (Exec.call g m) := by
  unfold Exec.call
  cases g m.ledger with
  | ok L => exact .ok () _
  | error e => exact program e m

/-- A step that never fails where all is in order. -/
theorem of_safe (hx : Safe x) (hok : orderly → ∃ a m', x m = .ok a m') :
    Refuses L orderly (x m) := by
  intro e m' he
  refine ⟨hx m e m' he, ?_⟩
  intro ho
  obtain ⟨a, m₁, ha⟩ := hok ho
  rw [ha] at he
  cases he

end Refuses

/-! ### Rent -/

variable {P : Platform} {sv : Sysvars} {L : Ledger} {did payer : AccountView} {n : ℕ} {m : Machine}

/-- What an update of `did` at the cost of `payer` relies on once it has begun to write:
the clock can be read, the two balances fit in one, and the account holds the rent of any
length up to its own. -/
structure Orderly (P : Platform) (sv : Sysvars) (L : Ledger) (did payer : AccountView) : Prop where
  clock : ∃ now, sv.clock = .ok now
  apart : did.address ≠ payer.address
  bounded : (L did.address).lamports + (L payer.address).lamports < 2 ^ 64
  rent : ∀ n ≤ (L did.address).data.length,
    ∃ need, rentMinimumBalance P sv n = .ok need ∧ need ≤ (L did.address).lamports

theorem Orderly.exists_settles (h : Orderly P sv L did payer)
    (hn : n ≤ (L did.address).data.length) : ∃ L', Settles P sv L did payer n L' := by
  obtain ⟨need, hneed, hle⟩ := h.rent n hn
  have hbounded := h.bounded
  rcases hle.eq_or_lt with hsame | hlt
  · exact ⟨L, need, hneed, Or.inr (Or.inr ⟨hsame.symm, rfl⟩)⟩
  · refine ⟨_, need, hneed, Or.inr (Or.inl ⟨(L did.address).lamports - need, by omega, by omega,
      ?_, rfl⟩)⟩
    rw [Ledger.pay_to_lamports L h.apart.symm]
    omega

theorem settleRent_refuses : Refuses m.ledger (Orderly P sv m.ledger did payer)
    (settleRent P sv did payer n m) := by
  unfold settleRent
  refine .lift_bind (rentMinimumBalance_total P sv n) fun newMin hneed => ?_
  rw [Exec.lamports_bind]
  apply Fails.ite
  · intro hgrow
    exact Refuses.call _
  · intro hle
    apply Fails.ite
    · -- The account is written before the payer is credited.
      intro hrefund
      apply Refuses.of_safe
      · exact .bind (by simp) fun _ => .bind (by simp) fun paid => .bind (.lift (by simp)) (by simp)
      · intro h
        have hbounded := h.bounded
        have hpayer : (m.ledger.setLamports did.address newMin payer.address).lamports =
            (m.ledger payer.address).lamports := by
          rw [Ledger.setLamports_of_ne _ _ h.apart.symm]
        have hcredit : checkedAdd (m.ledger payer.address).lamports
            ((m.ledger did.address).lamports - newMin) = .ok _ := if_pos (by omega)
        rw [Exec.setLamports_bind, Exec.lamports_bind, hpayer, hcredit]
        exact ⟨(), _, rfl⟩
    · intro hsame
      exact .ok _ _

/-- Growing first settles the rent, and only the limit on growth can refuse after that. -/
theorem grow_refuses (hP : P.Lawful) : Refuses m.ledger (Orderly P sv m.ledger did payer ∧
      n ≤ (m.ledger did.address).data.length + maxPermittedDataIncrease)
    (grow P sv did payer n m) := by
  unfold grow
  refine .bind (settleRent_refuses.weaken And.left) fun _ m₁ hsettle => ?_
  obtain ⟨L₁, hs, rfl⟩ := (settleRent_ok_iff hP).mp hsettle
  apply Refuses.of_safe (Safe.call _)
  rintro ⟨-, hle⟩
  refine ⟨(), _, Exec.call_ok_iff.mpr ⟨_, hP.resize_ok_iff.mpr ⟨?_, rfl⟩, rfl⟩⟩
  rw [hs.data]
  exact hle

/-- Shrinking a document that was already rewritten is always possible. -/
theorem Orderly.shrink_ok (hP : P.Lawful) (h : Orderly P sv L did payer)
    (howner : (L did.address).owner = programId) (hn : n ≤ (L did.address).data.length)
    (data : Bytes) (log : List Bytes) (hdata : n ≤ data.length) :
    ∃ m', shrink P sv did payer n ⟨L.store did.address data, log⟩ = .ok () m' := by
  obtain ⟨L₁, hs⟩ := h.exists_settles hn
  refine ⟨_, (shrink_ok_iff hP (by simpa using howner)).mpr ⟨L₁.store did.address data,
    (settles_store_iff howner).mpr ⟨L₁, hs, rfl⟩, ?_, rfl⟩⟩
  rw [Ledger.store_data]
  omega

end BioDidRegistry
