import BioDidRegistry.Foundation.Cursor
import BioDidRegistry.Program.Shared

/-!
# What the writing steps do

One lemma for each step that writes, in the form of what its success means. `Settles`
is the effect of settling rent: the payer tops the account up to the rent minimum or
receives what lies above it, and nothing else moves.
-/

namespace BioDidRegistry

open BinaryFormat

/-! ### Single steps -/

theorem lift_bind_ok_iff {σ α β : Type} {x : Except Fault α} {f : α → EStateM Fault σ β}
    {m m' : σ} {b : β} : ((liftM x : EStateM Fault σ α) >>= f) m = .ok b m' ↔
      ∃ a, x = .ok a ∧ f a m = .ok b m' := by
  rw [bind_ok_iff]
  constructor
  · rintro ⟨a, m₁, hlift, hf⟩
    obtain ⟨hx, rfl⟩ := lift_ok_iff.mp hlift
    exact ⟨a, hx, hf⟩
  · rintro ⟨a, hx, hf⟩
    exact ⟨a, m, lift_ok_iff.mpr ⟨hx, rfl⟩, hf⟩

namespace Exec

variable {β : Type} {m m' : Machine} {account : AccountView}

@[simp] theorem ledger_bind (f : Ledger → Exec β) : (ledger >>= f) m = f m.ledger m := rfl

@[simp] theorem borrow_bind (f : Bytes → Exec β) :
    (borrow account >>= f) m = f (m.ledger account.address).data m := rfl

@[simp] theorem lamports_bind (f : ℕ → Exec β) :
    (lamports account >>= f) m = f (m.ledger account.address).lamports m := rfl

@[simp] theorem store_bind (data : Bytes) (f : Unit → Exec β) : (store account data >>= f) m =
    f () { m with ledger := m.ledger.store account.address data } := rfl

@[simp] theorem setLamports_bind (n : ℕ) (f : Unit → Exec β) : (setLamports account n >>= f) m =
    f () { m with ledger := m.ledger.setLamports account.address n } := rfl

theorem call_ok_iff {f : Ledger → Except ProgramError Ledger} {u : Unit} :
    call f m = .ok u m' ↔ ∃ L, f m.ledger = .ok L ∧ m' = { m with ledger := L } := by
  unfold call
  cases f m.ledger with
  | ok L => simp [eq_comm]
  | error e => simp

end Exec

/-! ### Rent -/

variable {P : Platform} {sv : Sysvars} {L L' : Ledger} {did payer : AccountView}

/-- The rent of `did` settled with `payer` for a length of `n` bytes. -/
def Settles (P : Platform) (sv : Sysvars) (L : Ledger) (did payer : AccountView) (n : ℕ)
    (L' : Ledger) : Prop :=
  ∃ need, rentMinimumBalance P sv n = .ok need ∧
    ((∃ more, need = (L did.address).lamports + more ∧ 0 < more ∧ CanPay L payer did more ∧
        (L.pay payer.address did.address more did.address).lamports < 2 ^ 64 ∧
        L' = L.pay payer.address did.address more) ∨
      (∃ refund, (L did.address).lamports = need + refund ∧ 0 < refund ∧
        (L.pay did.address payer.address refund payer.address).lamports < 2 ^ 64 ∧
        L' = L.pay did.address payer.address refund) ∨
      ((L did.address).lamports = need ∧ L' = L))

theorem settleRent_ok_iff (hP : P.Lawful) {n : ℕ} {m m' : Machine} {u : Unit} :
    settleRent P sv did payer n m = .ok u m' ↔
      ∃ L', Settles P sv m.ledger did payer n L' ∧ m' = { m with ledger := L' } := by
  simp only [settleRent, lift_bind_ok_iff, Exec.lamports_bind]
  constructor
  · rintro ⟨need, hneed, hrun⟩
    split_ifs at hrun with hgrow hshrink
    · obtain ⟨L', hpay, rfl⟩ := Exec.call_ok_iff.mp hrun
      obtain ⟨hcan, hlt, rfl⟩ := hP.transfer_ok_iff.mp hpay
      exact ⟨_, ⟨need, hneed, Or.inl ⟨_, by omega, by omega, hcan, hlt, rfl⟩⟩, rfl⟩
    · simp only [Exec.setLamports_bind, Exec.lamports_bind, lift_bind_ok_iff,
        checkedAdd_eq_ok] at hrun
      obtain ⟨credited, ⟨hlt, rfl⟩, hset⟩ := hrun
      cases hset
      have hpay : (m.ledger.setLamports did.address need).setLamports payer.address
          ((m.ledger.setLamports did.address need payer.address).lamports +
            ((m.ledger did.address).lamports - need)) =
          m.ledger.pay did.address payer.address ((m.ledger did.address).lamports - need) := by
        unfold Ledger.pay
        rw [Nat.sub_sub_self hshrink.le]
      refine ⟨_, ⟨need, hneed, Or.inr (Or.inl ⟨_, ?_, ?_, ?_, hpay⟩)⟩, rfl⟩
      · omega
      · omega
      · rw [← hpay, Ledger.setLamports_self]
        exact hlt
    · obtain ⟨-, rfl⟩ := pure_ok_iff.mp hrun
      exact ⟨_, ⟨need, hneed, Or.inr (Or.inr ⟨by omega, rfl⟩)⟩, rfl⟩
  · rintro ⟨L', ⟨need, hneed, hcases⟩, rfl⟩
    refine ⟨need, hneed, ?_⟩
    rcases hcases with ⟨more, hmore, hpos, hcan, hlt, rfl⟩ | ⟨refund, hrefund, hpos, hlt, rfl⟩ |
      ⟨hsame, rfl⟩
    · rw [if_pos (by omega), Exec.call_ok_iff]
      have hsub : need - (m.ledger did.address).lamports = more := by omega
      refine ⟨_, ?_, rfl⟩
      rw [hsub]
      exact hP.transfer_ok_iff.mpr ⟨hcan, hlt, rfl⟩
    · rw [if_neg (by omega), if_pos (by omega)]
      have hsub : (m.ledger did.address).lamports - need = refund := by omega
      have hpay : m.ledger.pay did.address payer.address refund =
          (m.ledger.setLamports did.address need).setLamports payer.address
            ((m.ledger.setLamports did.address need payer.address).lamports + refund) := by
        unfold Ledger.pay
        rw [show (m.ledger did.address).lamports - refund = need by omega]
      simp only [Exec.setLamports_bind, Exec.lamports_bind, lift_bind_ok_iff, checkedAdd_eq_ok,
        hsub]
      rw [hpay, Ledger.setLamports_self] at hlt
      exact ⟨_, ⟨hlt, rfl⟩, by rw [hpay]; rfl⟩
    · rw [if_neg (by omega), if_neg (by omega), pure_ok_iff]
      exact ⟨rfl, rfl⟩

namespace Settles

variable {n : ℕ} (h : Settles P sv L did payer n L')

include h

@[simp] theorem data (a : Address) : (L' a).data = (L a).data := by
  obtain ⟨need, -, ⟨more, -, -, -, -, rfl⟩ | ⟨refund, -, -, -, rfl⟩ | ⟨-, rfl⟩⟩ := h
  · exact Ledger.pay_data ..
  · exact Ledger.pay_data ..
  · rfl

@[simp] theorem owner (a : Address) : (L' a).owner = (L a).owner := by
  obtain ⟨need, -, ⟨more, -, -, -, -, rfl⟩ | ⟨refund, -, -, -, rfl⟩ | ⟨-, rfl⟩⟩ := h
  · exact Ledger.pay_owner ..
  · exact Ledger.pay_owner ..
  · rfl

/-- No other account's balance moves. -/
theorem of_ne {a : Address} (hdid : a ≠ did.address) (hpayer : a ≠ payer.address) : L' a = L a := by
  obtain ⟨need, -, ⟨more, -, -, -, -, rfl⟩ | ⟨refund, -, -, -, rfl⟩ | ⟨-, rfl⟩⟩ := h
  · exact Ledger.pay_of_ne _ _ hpayer hdid
  · exact Ledger.pay_of_ne _ _ hdid hpayer
  · rfl

end Settles

/-- Settling commutes with writing the data of an account of the program. -/
theorem settles_store_iff {n : ℕ} {data : Bytes} (howner : (L did.address).owner = programId) :
    Settles P sv (L.store did.address data) did payer n L' ↔
      ∃ L₁, Settles P sv L did payer n L₁ ∧ L' = L₁.store did.address data := by
  have hcan {more : ℕ} (hpos : 0 < more) :
      CanPay (L.store did.address data) payer did more ↔ CanPay L payer did more := by
    by_cases hp : payer.address = did.address
    · -- An account of the program never pays through the system program.
      constructor
      · intro h
        rcases h.owner with h0 | hsys
        · omega
        · rw [Ledger.store_owner, hp, howner] at hsys
          exact absurd hsys programId_ne_systemProgram
      · intro h
        rcases h.owner with h0 | hsys
        · omega
        · rw [hp, howner] at hsys
          exact absurd hsys programId_ne_systemProgram
    · have hsame : L.store did.address data payer.address = L payer.address :=
        Ledger.store_of_ne _ _ hp
      constructor
      · rintro ⟨h1, h2, h3, h4, h5, h6⟩
        rw [hsame] at h4 h5 h6
        exact ⟨h1, h2, h3, h4, h5, h6⟩
      · rintro ⟨h1, h2, h3, h4, h5, h6⟩
        rw [← hsame] at h4 h5 h6
        exact ⟨h1, h2, h3, h4, h5, h6⟩
  unfold Settles
  simp only [Ledger.store_lamports, Ledger.pay_store]
  constructor
  · rintro ⟨need, hneed, ⟨more, hmore, hpos, hc, hlt, rfl⟩ | ⟨refund, hr, hpos, hlt, rfl⟩ |
      ⟨hsame, rfl⟩⟩
    · exact ⟨_, ⟨need, hneed, Or.inl ⟨more, hmore, hpos, (hcan hpos).mp hc, hlt, rfl⟩⟩, rfl⟩
    · exact ⟨_, ⟨need, hneed, Or.inr (Or.inl ⟨refund, hr, hpos, hlt, rfl⟩)⟩, rfl⟩
    · exact ⟨_, ⟨need, hneed, Or.inr (Or.inr ⟨hsame, rfl⟩)⟩, rfl⟩
  · rintro ⟨L₁, ⟨need, hneed, ⟨more, hmore, hpos, hc, hlt, rfl⟩ | ⟨refund, hr, hpos, hlt, rfl⟩ |
      ⟨hsame, rfl⟩⟩, rfl⟩
    · exact ⟨need, hneed, Or.inl ⟨more, hmore, hpos, (hcan hpos).mpr hc, hlt, rfl⟩⟩
    · exact ⟨need, hneed, Or.inr (Or.inl ⟨refund, hr, hpos, hlt, rfl⟩)⟩
    · exact ⟨need, hneed, Or.inr (Or.inr ⟨hsame, rfl⟩)⟩

theorem grow_ok_iff (hP : P.Lawful) {n : ℕ} {m m' : Machine} {u : Unit} :
    grow P sv did payer n m = .ok u m' ↔
      ∃ L₁, Settles P sv m.ledger did payer n L₁ ∧
        n ≤ (m.ledger did.address).data.length + maxPermittedDataIncrease ∧
        m' = ⟨L₁.store did.address (resizeWith 0 (m.ledger did.address).data n), m.log⟩ := by
  simp only [grow, bind_ok_iff, settleRent_ok_iff hP, Exec.call_ok_iff, hP.resize_ok_iff]
  constructor
  · rintro ⟨-, _, ⟨L₁, hs, rfl⟩, _, ⟨hle, rfl⟩, rfl⟩
    simp only [hs.data] at hle ⊢
    exact ⟨L₁, hs, hle, rfl⟩
  · rintro ⟨L₁, hs, hle, rfl⟩
    refine ⟨(), _, ⟨L₁, hs, rfl⟩, _, ⟨?_, rfl⟩, ?_⟩
    · simpa only [hs.data] using hle
    · simp only [hs.data]

theorem shrink_ok_iff (hP : P.Lawful) {n : ℕ} {m m' : Machine} {u : Unit}
    (howner : (m.ledger did.address).owner = programId) :
    shrink P sv did payer n m = .ok u m' ↔
      ∃ L₁, Settles P sv m.ledger did payer n L₁ ∧
        n ≤ (m.ledger did.address).data.length + maxPermittedDataIncrease ∧
        m' = ⟨L₁.store did.address (resizeWith 0 (m.ledger did.address).data n), m.log⟩ := by
  simp only [shrink, bind_ok_iff, settleRent_ok_iff hP, Exec.call_ok_iff, hP.resize_ok_iff]
  constructor
  · rintro ⟨-, _, ⟨_, ⟨hle, rfl⟩, rfl⟩, L₂, hs, rfl⟩
    obtain ⟨L₁, hs₁, rfl⟩ := (settles_store_iff howner).mp hs
    exact ⟨L₁, hs₁, hle, rfl⟩
  · rintro ⟨L₁, hs, hle, rfl⟩
    exact ⟨(), _, ⟨_, ⟨hle, rfl⟩, rfl⟩, _, (settles_store_iff howner).mpr ⟨L₁, hs, rfl⟩, rfl⟩

/-! ### Balances -/

theorem Ledger.pay_to_lamports (L : Ledger) {a b : Address} (hne : b ≠ a) (n : ℕ) :
    (L.pay a b n b).lamports = (L b).lamports + n := by
  simp [pay, setLamports_of_ne _ _ hne]

theorem Ledger.pay_from_lamports (L : Ledger) {a b : Address} (hne : a ≠ b) (n : ℕ) :
    (L.pay a b n a).lamports = (L a).lamports - n := by
  simp [pay, setLamports_of_ne _ _ hne]

/-- The account ends at its rent, and the payer with the rest of what the two had. -/
theorem Settles.balance {n : ℕ} (h : Settles P sv L did payer n L')
    (hne : did.address ≠ payer.address) : ∃ need, rentMinimumBalance P sv n = .ok need ∧
      (L' did.address).lamports = need ∧
      (L' payer.address).lamports + need =
        (L did.address).lamports + (L payer.address).lamports := by
  obtain ⟨need, hneed, ⟨more, hmore, -, hcan, -, rfl⟩ | ⟨refund, hrefund, -, -, rfl⟩ |
    ⟨hsame, rfl⟩⟩ := h
  · have henough := hcan.enough
    refine ⟨need, hneed, ?_, ?_⟩
    · rw [Ledger.pay_to_lamports L hne, hmore]
    · rw [Ledger.pay_from_lamports L hne.symm]
      omega
  · refine ⟨need, hneed, ?_, ?_⟩
    · rw [Ledger.pay_from_lamports L hne]
      omega
    · rw [Ledger.pay_to_lamports L hne.symm]
      omega
  · exact ⟨need, hneed, hsame, by omega⟩

/-! ### Enough funds -/

/-- `payer` can bring the account at `a` to the rent of `n` bytes. -/
structure Affords (P : Platform) (sv : Sysvars) (L : Ledger) (payer a : Address) (n : ℕ) :
    Prop where
  enough : ∃ need, rentMinimumBalance P sv n = .ok need ∧
    need ≤ (L a).lamports + (L payer).lamports
  owner : (L payer).owner = systemProgram
  dataless : (L payer).data = []
  bounded : (L a).lamports + (L payer).lamports < 2 ^ 64

theorem Affords.exists_settles {n : ℕ} (h : Affords P sv L payer.address did.address n)
    (howner : (L did.address).owner = programId) (hsigner : payer.isSigner = true)
    (hwritable : payer.isWritable = true) (hdid : did.isWritable = true) :
    ∃ L', Settles P sv L did payer n L' := by
  obtain ⟨need, hneed, henough⟩ := h.enough
  have hbounded := h.bounded
  have hne : did.address ≠ payer.address := by
    intro hsame
    rw [hsame, h.owner] at howner
    exact programId_ne_systemProgram howner.symm
  rcases Nat.lt_trichotomy (L did.address).lamports need with hgrow | hsame | hshrink
  · refine ⟨_, need, hneed, Or.inl ⟨need - (L did.address).lamports, by omega, by omega, ?_, ?_,
      rfl⟩⟩
    · exact ⟨hsigner, hwritable, hdid, h.dataless, Or.inr h.owner, by omega⟩
    · rw [Ledger.pay_to_lamports L hne]
      omega
  · exact ⟨L, need, hneed, Or.inr (Or.inr ⟨hsame, rfl⟩)⟩
  · refine ⟨_, need, hneed, Or.inr (Or.inl ⟨(L did.address).lamports - need, by omega, by omega,
      ?_, rfl⟩)⟩
    rw [Ledger.pay_to_lamports L hne.symm]
    omega

end BioDidRegistry
