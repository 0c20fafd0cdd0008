import Mathlib.Algebra.BigOperators.Fin
import Mathlib.Data.Fintype.BigOperators
import BioDidRegistry.Registry.Runs

/-!
# Balances

A call moves lamports only between the accounts it names as payer, DID and key
buffer. Nothing is minted or lost, and an account of the program always holds the
rent of its data. No address derived for this program signs a call, so the payer is
none of its accounts.
-/

namespace BioDidRegistry

open BinaryFormat Transition

/-! ### Sums over all addresses -/

noncomputable instance Block.fintype {n : ℕ} : Fintype (Block n) :=
  Fintype.ofInjective (fun b : Block n => (⟨leValue b.val, by
    have hlt := leValue_lt b.val
    rwa [b.length_eq] at hlt⟩ : Fin (256 ^ n))) <| by
      intro b b' h
      have hvalue : leValue b.val = leValue b'.val := congrArg Fin.val h
      apply Subtype.ext
      rw [← leBytes_leValue b.val, ← leBytes_leValue b'.val, hvalue, b.length_eq, b'.length_eq]

/-- The lamports of all accounts. -/
noncomputable def Ledger.supply (L : Ledger) : ℕ := ∑ a : Address, (L a).lamports

/-- What the accounts at `as` hold together. -/
def Ledger.held (L : Ledger) (as : List Address) : ℕ := (as.map fun a => (L a).lamports).sum

@[simp] theorem Ledger.held_nil (L : Ledger) : L.held [] = 0 := rfl

@[simp] theorem Ledger.held_cons (L : Ledger) (a : Address) (as : List Address) :
    L.held (a :: as) = (L a).lamports + L.held as := by
  simp [held]

theorem Ledger.supply_split (L : Ledger) {as : List Address} (hnodup : as.Nodup) :
    L.supply = L.held as + ∑ a ∈ (as.toFinset)ᶜ, (L a).lamports := by
  unfold supply held
  rw [← List.sum_toFinset _ hnodup, Finset.sum_add_sum_compl]

theorem Ledger.held_le_supply (L : Ledger) {as : List Address} (hnodup : as.Nodup) :
    L.held as ≤ L.supply := by
  rw [L.supply_split hnodup]
  exact Nat.le_add_right _ _

theorem Ledger.held_perm (L : Ledger) {as bs : List Address} (h : as.Perm bs) :
    L.held as = L.held bs :=
  (h.map _).sum_eq

/-- Lamports move among the accounts at `as`, which are different. -/
structure Circulates (L L' : Ledger) (as : List Address) : Prop where
  nodup : as.Nodup
  held : L'.held as = L.held as
  others : ∀ a ∉ as, (L' a).lamports = (L a).lamports

namespace Circulates

variable {L L' L'' : Ledger} {as : List Address}

theorem supply (h : Circulates L L' as) : L'.supply = L.supply := by
  rw [L.supply_split h.nodup, L'.supply_split h.nodup, h.held]
  congr 1
  apply Finset.sum_congr rfl
  intro a ha
  apply h.others
  simpa using ha

theorem of_same (hnodup : as.Nodup) (h : ∀ a, (L' a).lamports = (L a).lamports) :
    Circulates L L' as where
  nodup := hnodup
  held := congrArg List.sum (List.map_congr_left fun a _ => h a)
  others a _ := h a

theorem trans (h : Circulates L L' as) (h' : Circulates L' L'' as) : Circulates L L'' as where
  nodup := h.nodup
  held := h'.held.trans h.held
  others a ha := (h'.others a ha).trans (h.others a ha)

end Circulates

/-! ### One payment -/

variable {P : Platform} {sv : Sysvars} {L L' : Ledger}

/-- Two accounts settle something between them, and no other balance moves. -/
structure Trades (L L' : Ledger) (a b : Address) : Prop where
  sum : (L' a).lamports + (L' b).lamports = (L a).lamports + (L b).lamports
  others : ∀ x, x ≠ a → x ≠ b → (L' x).lamports = (L x).lamports

theorem Trades.refl (L : Ledger) (a b : Address) : Trades L L a b :=
  ⟨rfl, fun _ _ _ => rfl⟩

/-- What two accounts settle stays among any that include them. -/
theorem Trades.circulates {a b : Address} {as : List Address} (h : Trades L L' a b) (hne : a ≠ b)
    (hnodup : as.Nodup) (ha : a ∈ as) (hb : b ∈ as) : Circulates L L' as := by
  have hperm : as.Perm (a :: b :: (as.erase a).erase b) :=
    (List.perm_cons_erase ha).trans
      ((List.perm_cons_erase ((List.mem_erase_of_ne hne.symm).mpr hb)).cons a)
  have hrest : L'.held ((as.erase a).erase b) = L.held ((as.erase a).erase b) := by
    refine congrArg List.sum (List.map_congr_left fun x hx => ?_)
    obtain ⟨hxb, hx⟩ := (hnodup.erase a).mem_erase_iff.mp hx
    exact h.others x (hnodup.mem_erase_iff.mp hx).1 hxb
  refine ⟨hnodup, ?_, fun x hx => h.others x (ne_of_mem_of_not_mem ha hx).symm
    (ne_of_mem_of_not_mem hb hx).symm⟩
  have hsum := h.sum
  rw [L'.held_perm hperm, L.held_perm hperm]
  simp only [Ledger.held_cons, hrest]
  omega

section Payments

variable {payer account : AccountView}

theorem Settles.trades {n : ℕ} (h : Settles P sv L account payer n L')
    (hne : account.address ≠ payer.address) : Trades L L' account.address payer.address where
  sum := by
    obtain ⟨need, -, haccount, hpayer⟩ := h.balance hne
    omega
  others x haccount hpayer := by rw [h.of_ne haccount hpayer]

theorem Resettles.trades {old new : ℕ} (h : Resettles P sv L account payer old new L')
    (hne : account.address ≠ payer.address) : Trades L L' account.address payer.address := by
  rcases h with ⟨-, rfl⟩ | ⟨-, hs⟩
  · exact Trades.refl ..
  · exact hs.trades hne

theorem Funds.trades {need : ℕ} (h : Funds L payer account need L')
    (hne : payer.address ≠ account.address) : Trades L L' account.address payer.address where
  sum := by
    obtain ⟨haccount, hpayer⟩ := h.balance hne
    omega
  others x haccount hpayer := by rw [h.of_ne hpayer haccount]

theorem Ledger.closed_lamports (L : Ledger) {a b : Address} (hne : b ≠ a) :
    (L.closed a b b).lamports = (L b).lamports + (L a).lamports := by
  unfold closed
  rw [modify_of_ne _ _ hne, setLamports_self]

theorem Ledger.closed_trades (L : Ledger) {a b : Address} (hne : b ≠ a) :
    Trades L (L.closed a b) a b where
  sum := by
    rw [closed_lamports L hne, closed_self, Nat.zero_add, Nat.add_comm]
  others x ha hb := by rw [closed_of_ne _ ha hb]

end Payments

/-! ### The accounts a call names -/

namespace Call

variable (c : Call)

/-- No address derived for this program signs. Only the program itself could sign for
one, and it never calls itself. -/
def Keyed (P : Platform) : Prop :=
  ∀ view ∈ c.accounts, view.isSigner = true → ∀ seeds bump,
    P.deriveProgramAddress seeds ≠ some (view.address, bump)

/-- The addresses of the payer, the DID account and the key buffer. -/
def named : List Address :=
  (c.payer.toList ++ c.didAccount.toList ++ c.keyBuffer.toList).map AccountView.address

/-- The rent sysvar reads as in `sv`, and no address of the program signs. -/
structure Metered (P : Platform) (sv : Sysvars) : Prop where
  rent : c.sysvars.rent = sv.rent
  keyed : c.Keyed P

variable {c}

theorem mem_of_account {pos : Ix → Option ℕ} {view : AccountView} (h : c.account pos = some view) :
    view ∈ c.accounts := by
  obtain ⟨ix, -, h⟩ := Option.bind_eq_some_iff.mp h
  obtain ⟨i, -, h⟩ := Option.bind_eq_some_iff.mp h
  exact List.mem_of_getElem? h

theorem Keyed.payer_ne (h : c.Keyed P) {payer : AccountView} (hpays : c.Pays payer)
    {seeds : List Bytes} {a : Address} {bump : UInt8}
    (hfind : P.deriveProgramAddress seeds = some (a, bump)) : payer.address ≠ a := by
  rintro rfl
  exact h payer (mem_of_account hpays.1) hpays.2.1 seeds bump hfind

theorem named_eq {payer did buffer : Option AccountView} (hpayer : c.payer = payer)
    (hdid : c.didAccount = did) (hbuffer : c.keyBuffer = buffer) :
    c.named = (payer.toList ++ did.toList ++ buffer.toList).map AccountView.address := by
  rw [named, hpayer, hdid, hbuffer]

theorem mem_named_payer {payer : AccountView} (h : c.payer = some payer) :
    payer.address ∈ c.named := by
  simp [named, h]

theorem mem_named_didAccount {did : AccountView} (h : c.didAccount = some did) :
    did.address ∈ c.named := by
  simp [named, h]

theorem mem_named_keyBuffer {buffer : AccountView} (h : c.keyBuffer = some buffer) :
    buffer.address ∈ c.named := by
  simp [named, h]

theorem account_eq_none {ix : Ix} (hix : c.ix = some ix) {pos : Ix → Option ℕ}
    (hpos : pos ix = none) : c.account pos = none := by
  rw [account_eq hix, hpos]
  rfl

end Call

theorem Op.keyBufferPos_ix (op : Op) : op.ix.keyBufferPos = none := by
  cases op <;> rfl

theorem rentMinimumBalance_congr {sv' : Sysvars} (h : sv.rent = sv'.rent) (n : ℕ) :
    rentMinimumBalance P sv n = rentMinimumBalance P sv' n := by
  unfold rentMinimumBalance
  rw [h]

/-- The one update without a payer keeps the length. -/
theorem Document.length_of_flags {key : Address} {d : Document} {op : Op} {body : Body}
    (hop : op.ix = .setVerificationMethodFlags)
    (happly : d.body.apply P.isCurvePoint key d.subject op = .ok body) (now : Int64) :
    (d.updated op body now).encode.length = d.encode.length := by
  cases op with
  | setFlags fragment flags =>
    rw [length_updated, length_encode, Body.length_setFlags happly]
  | addVm | removeVm | addService | updateService | removeService | setControllers
  | deactivate => cases hop

theorem Resettles.eq_of_flags {did payer : AccountView} {key : Address} {d : Document} {op : Op}
    {body : Body} {now : Int64} (h : Resettles P sv L did payer d.encode.length
      (d.updated op body now).encode.length L')
    (hop : op.ix = .setVerificationMethodFlags)
    (happly : d.body.apply P.isCurvePoint key d.subject op = .ok body) : L' = L := by
  rw [Document.length_of_flags hop happly] at h
  exact resettles_same.mp h

namespace Performs

variable {c : Call} {e : Effect} {log : List Bytes}

theorem named_nodup (hS : Sound P L) (hkeyed : c.Keyed P) (h : Performs P c L e L' log) :
    c.named.Nodup := by
  cases h with
  | create founds pays target found vacant rent funds clock =>
    have hbuffer : c.keyBuffer = none := by
      rcases founds.ix_cases with hix | hix <;> exact Call.account_eq_none hix rfl
    rw [Call.named_eq pays.1 target hbuffer]
    simpa using hkeyed.payer_ne pays found
  | update ix args signed pays target isDid authorized applied clock settled =>
    rename_i payer did key d op body now L₁
    have hbuffer : c.keyBuffer = none := Call.account_eq_none ix op.keyBufferPos_ix
    rcases pays with pays | hflags
    · rw [Call.named_eq pays.1 target hbuffer]
      simpa using hkeyed.payer_ne pays isDid.found
    · have hpayer : c.payer = none := Call.account_eq_none ix (by rw [hflags]; rfl)
      simp [Call.named_eq hpayer target hbuffer]
  | openBuffer ix args encodable signed pays target named opens =>
    have hdid := hkeyed.payer_ne pays (hS.registered opens.isDid).found
    have hbuffer := hkeyed.payer_ne pays opens.found
    rw [Call.named_eq pays.1 target named]
    simp [hdid, hbuffer, opens.isDid.owner_ne opens.vacant.1]
  | writeBuffer ix args signed named staged nonempty next fits =>
    have hpayer : c.payer = none := Call.account_eq_none ix rfl
    have hdid : c.didAccount = none := Call.account_eq_none ix rfl
    simp [Call.named_eq hpayer hdid named]
  | finish ix args signed pays target named staged bound isDid complete authorized applied clock
        settled =>
    have hdid := hkeyed.payer_ne pays isDid.found
    have hbuffer := hkeyed.payer_ne pays staged.found
    rw [Call.named_eq pays.1 target named]
    simp [hdid, hbuffer, isDid.toIsDid.ne_buffer staged.toIsBuffer]
  | closeBuffer ix args signed pays named staged =>
    have hdid : c.didAccount = none := Call.account_eq_none ix rfl
    rw [Call.named_eq pays.1 hdid named]
    simpa using hkeyed.payer_ne pays staged.found

/-- Lamports move among the accounts the call names. -/
theorem trades (hS : Sound P L) (hkeyed : c.Keyed P) (h : Performs P c L e L' log) :
    Circulates L L' c.named := by
  have hnodup := h.named_nodup hS hkeyed
  cases h with
  | create founds pays target found vacant rent funds clock =>
    have hne := hkeyed.payer_ne pays found
    have hmoved := (funds.trades hne).circulates hne.symm hnodup (Call.mem_named_didAccount target)
      (Call.mem_named_payer pays.1)
    exact hmoved.trans (.of_same hnodup fun a => Ledger.create_lamports ..)
  | update ix args signed pays target isDid authorized applied clock settled =>
    refine Circulates.trans ?_ (.of_same hnodup fun a => Ledger.store_lamports ..)
    rcases pays with pays | hflags
    · have hne := hkeyed.payer_ne pays isDid.found
      exact (settled.trades hne.symm).circulates hne.symm hnodup (Call.mem_named_didAccount target)
        (Call.mem_named_payer pays.1)
    · rw [settled.eq_of_flags hflags applied]
      exact .of_same hnodup fun _ => rfl
  | openBuffer ix args encodable signed pays target named opens =>
    obtain ⟨need, L₁, -, funds, rfl⟩ := opens.created
    have hne := hkeyed.payer_ne pays opens.found
    have hmoved := (funds.trades hne).circulates hne.symm hnodup (Call.mem_named_keyBuffer named)
      (Call.mem_named_payer pays.1)
    exact hmoved.trans (.of_same hnodup fun a => Ledger.create_lamports ..)
  | writeBuffer ix args signed named staged nonempty next fits =>
    exact .of_same hnodup fun a => Ledger.store_lamports ..
  | finish ix args signed pays target named staged bound isDid complete authorized applied clock
        settled =>
    have hdid := hkeyed.payer_ne pays isDid.found
    have hbuffer := hkeyed.payer_ne pays staged.found
    have hsettled := (settled.trades hdid.symm).circulates hdid.symm hnodup
      (Call.mem_named_didAccount target) (Call.mem_named_payer pays.1)
    refine Circulates.trans ?_ ((Ledger.closed_trades _ hbuffer).circulates hbuffer.symm hnodup
      (Call.mem_named_keyBuffer named) (Call.mem_named_payer pays.1))
    exact hsettled.trans (.of_same hnodup fun a => Ledger.store_lamports ..)
  | closeBuffer ix args signed pays named staged =>
    have hbuffer := hkeyed.payer_ne pays staged.found
    exact (L.closed_trades hbuffer).circulates hbuffer.symm hnodup (Call.mem_named_keyBuffer named)
      (Call.mem_named_payer pays.1)

theorem lamports_eq (hkeyed : c.Keyed P) (h : Performs P c L e L' log) {a : Address}
    {seeds : List Bytes} {bump : UInt8} (hfind : P.deriveProgramAddress seeds = some (a, bump))
    (ha : a ∉ e.touched) : (L' a).lamports = (L a).lamports := by
  cases h with
  | create founds pays target found vacant rent funds clock =>
    have hdid := List.ne_of_not_mem_cons ha
    rw [Ledger.create_lamports, funds.of_ne (hkeyed.payer_ne pays hfind).symm hdid]
  | update ix args signed pays target isDid authorized applied clock settled =>
    have hdid := List.ne_of_not_mem_cons ha
    rw [Ledger.store_lamports]
    rcases pays with pays | hflags
    · have htrades := settled.trades (hkeyed.payer_ne pays isDid.found).symm
      exact htrades.others a hdid (hkeyed.payer_ne pays hfind).symm
    · rw [settled.eq_of_flags hflags applied]
  | openBuffer ix args encodable signed pays target named opens =>
    obtain ⟨need, L₁, -, funds, rfl⟩ := opens.created
    have hbuffer := List.ne_of_not_mem_cons ha
    rw [Ledger.create_lamports, funds.of_ne (hkeyed.payer_ne pays hfind).symm hbuffer]
  | writeBuffer ix args signed named staged nonempty next fits => exact Ledger.store_lamports ..
  | finish ix args signed pays target named staged bound isDid complete authorized applied clock
        settled =>
    simp only [Effect.touched, List.mem_cons, List.not_mem_nil, or_false, not_or] at ha
    have hpayer := (hkeyed.payer_ne pays hfind).symm
    have htrades := settled.trades (hkeyed.payer_ne pays isDid.found).symm
    rw [Ledger.closed_of_ne _ ha.2 hpayer, Ledger.store_lamports]
    exact htrades.others a ha.1 hpayer
  | closeBuffer ix args signed pays named staged =>
    have hbuffer := List.ne_of_not_mem_cons ha
    rw [Ledger.closed_of_ne _ hbuffer (hkeyed.payer_ne pays hfind).symm]

end Performs

/-! ### Rent -/

/-- The account at `a` holds at least the rent of its data. -/
def HoldsRent (P : Platform) (sv : Sysvars) (L : Ledger) (a : Address) : Prop :=
  ∃ need, rentMinimumBalance P sv (L a).data.length = .ok need ∧ need ≤ (L a).lamports

/-- The account at `a` holds the rent of its data and no more. -/
def HoldsExactRent (P : Platform) (sv : Sysvars) (L : Ledger) (a : Address) : Prop :=
  rentMinimumBalance P sv (L a).data.length = .ok (L a).lamports

theorem HoldsRent.of_same {a : Address} (h : HoldsRent P sv L a)
    (hdata : (L' a).data = (L a).data) (hle : (L a).lamports ≤ (L' a).lamports) :
    HoldsRent P sv L' a := by
  obtain ⟨need, hneed, henough⟩ := h
  exact ⟨need, by rw [hdata, hneed], henough.trans hle⟩

theorem HoldsExactRent.holdsRent {a : Address} (h : HoldsExactRent P sv L a) :
    HoldsRent P sv L a :=
  ⟨_, h, le_rfl⟩

theorem Resettles.rent {did payer : AccountView} {old new : ℕ}
    (h : Resettles P sv L did payer old new L') (hne : did.address ≠ payer.address)
    (hlen : old ≠ new) : rentMinimumBalance P sv new = .ok (L' did.address).lamports := by
  obtain ⟨need, hneed, hheld, -⟩ := ((resettles_of_ne hlen).mp h).balance hne
  rw [hheld, hneed]

namespace Performs

variable {c : Call} {e : Effect} {log : List Bytes} {a : Address}

/-- An amended document keeps its length and its balance, or is left with its exact rent. -/
theorem rent_of_amends (hkeyed : c.Keyed P) (h : Performs P c L e L' log) {d d' : Document}
    {op : Op} (ha : e.Amends a d op d') :
    ((L' a).data.length = (L a).data.length ∧ (L' a).lamports = (L a).lamports) ∨
      HoldsExactRent P c.sysvars L' a := by
  rcases ha with rfl | ⟨buffer, kb, rfl, rfl⟩
  · cases h with
    | update ix args signed pays target isDid authorized applied clock settled =>
      rename_i payer did key body now L₁
      unfold HoldsExactRent
      rw [Ledger.store_data, Ledger.store_lamports, isDid.data_eq]
      by_cases hlen : d.encode.length = (d.updated op body now).encode.length
      · rw [hlen] at settled
        rw [resettles_same.mp settled]
        exact Or.inl ⟨hlen.symm, rfl⟩
      · rcases pays with pays | hflags
        · exact Or.inr (settled.rent (hkeyed.payer_ne pays isDid.found).symm hlen)
        · exact absurd (Document.length_of_flags hflags applied now).symm hlen
  · cases h with
    | finish ix args signed pays target named staged bound isDid complete authorized applied clock
        settled =>
      rename_i payer did buffer body now L₁
      have hbuffer : did.address ≠ buffer.address := isDid.toIsDid.ne_buffer staged.toIsBuffer
      have hpayer := (hkeyed.payer_ne pays isDid.found).symm
      unfold HoldsExactRent
      rw [Ledger.closed_of_ne _ hbuffer hpayer, Ledger.store_data, Ledger.store_lamports,
        isDid.data_eq]
      by_cases hlen : d.encode.length = (d.updated (.addVm kb.toMethod) body now).encode.length
      · rw [hlen] at settled
        rw [resettles_same.mp settled]
        exact Or.inl ⟨hlen.symm, rfl⟩
      · exact Or.inr (settled.rent hpayer hlen)

/-- A new account holds what its address held before, or its exact rent if that is more. -/
theorem rent_of_new (hkeyed : c.Keyed P) (h : Performs P c L e L' log)
    (he : (∃ d, e = .create a d) ∨ ∃ kb, e = .openBuffer a kb) :
    ∃ need, rentMinimumBalance P c.sysvars (L' a).data.length = .ok need ∧
      (L' a).lamports = max need (L a).lamports := by
  rcases he with ⟨d, rfl⟩ | ⟨kb, rfl⟩
  · cases h with
    | create founds pays target found vacant rent funds clock =>
      rw [Ledger.create_data, Ledger.create_lamports, Document.length_initial]
      exact ⟨_, rent, (funds.balance (hkeyed.payer_ne pays found)).1⟩
  · cases h with
    | openBuffer ix args encodable signed pays target named opens =>
      obtain ⟨need, L₁, rent, funds, rfl⟩ := opens.created
      rw [Ledger.create_data, Ledger.create_lamports, kb.length_encode, opens.record.2.2.1]
      exact ⟨need, rent, (funds.balance (hkeyed.payer_ne pays opens.found)).1⟩

/-- An effect leaves every account of the program with its rent at least. -/
theorem holdsRent (hS : Sound P L) (hkeyed : c.Keyed P) (h : Performs P c L e L' log)
    (hrent : ∀ a, (L a).owner = programId → HoldsRent P c.sysvars L a)
    (howner : (L' a).owner = programId) : HoldsRent P c.sysvars L' a := by
  rcases h.owned howner with hold | hnew
  · by_cases ha : a ∈ e.touched
    · rcases hS a hold with ⟨d, hd⟩ | ⟨kb, hkb⟩
      · rcases h.did_cases hd with hsame | ⟨op, d', hamends⟩
        · exact absurd ha hsame
        · rcases h.rent_of_amends hkeyed hamends with ⟨hlen, hsame⟩ | hexact
          · obtain ⟨need, hneed, henough⟩ := hrent a hold
            exact ⟨need, by rw [hlen, hneed], by rw [hsame]; exact henough⟩
          · exact hexact.holdsRent
      · rcases h.buffer_cases hkb.toIsBuffer with hsame | ⟨kb', chunk, rfl⟩ | hgone
        · exact absurd ha hsame
        · cases h with
          | writeBuffer ix args signed named staged nonempty next fits =>
            obtain ⟨need, hneed, henough⟩ := hrent _ hold
            refine ⟨need, ?_, by rw [Ledger.store_lamports]; exact henough⟩
            rw [← hneed, Ledger.store_data, staged.data_eq, KeyBuffer.length_encode,
              KeyBuffer.length_encode]
            rfl
        · rw [(h.gone hgone).2.2] at howner
          exact absurd howner programId_ne_systemProgram.symm
    · exact (hrent a hold).of_same (h.frame ha).1 (h.lamports_le hold ha)
  · obtain ⟨need, hneed, hheld⟩ := h.rent_of_new hkeyed hnew
    exact ⟨need, hneed, hheld ▸ le_max_left _ _⟩

/-- Nothing was paid to the address but by the program: it is empty, or a buffer, or holds
the exact rent of its document. -/
theorem exact (hP : P.Lawful) (hS : Sound P L) (hkeyed : c.Keyed P) (h : Performs P c L e L' log)
    {seeds : List Bytes} {bump : UInt8} (hfind : P.deriveProgramAddress seeds = some (a, bump))
    (hvacant : (L a).owner ≠ programId → (L a).lamports = 0)
    (hexact : L.HasDid a → HoldsExactRent P c.sysvars L a) :
    ((L' a).owner ≠ programId → (L' a).lamports = 0) ∧
      (L'.HasDid a → HoldsExactRent P c.sysvars L' a) := by
  by_cases ha : a ∈ e.touched
  · refine ⟨fun howner => ?_, fun hdid => ?_⟩
    · rcases h.touched_cases ha with hold | ⟨d, rfl⟩ | ⟨kb, rfl⟩
      · rcases hS a hold with ⟨d, hd⟩ | ⟨kb, hkb⟩
        · obtain ⟨d', hd', -⟩ := h.persists hd
          exact absurd hd'.owner howner
        · rcases h.buffer_cases hkb.toIsBuffer with hsame | ⟨kb', chunk, rfl⟩ | hgone
          · exact absurd ha hsame
          · exact absurd h.written.2.1.owner howner
          · rw [(h.gone hgone).2.2]
      · exact absurd (h.created hP).2.1.owner howner
      · exact absurd (h.opened hP).2.1.owner howner
    · obtain ⟨d', hd'⟩ := (h.sound hP hS).exists_registered hdid
      rcases h.did_origin hP hS hd' with ⟨-, hsame⟩ | rfl | ⟨d, op, hamends⟩
      · exact absurd ha hsame
      · obtain ⟨need, hneed, hheld⟩ := h.rent_of_new hkeyed (Or.inl ⟨d', rfl⟩)
        have hempty : (L a).lamports = 0 := by
          apply hvacant
          rw [(h.created hP).1]
          exact programId_ne_systemProgram.symm
        rw [hempty, Nat.max_zero] at hheld
        rw [HoldsExactRent, hheld, hneed]
      · obtain ⟨key, body, hamended⟩ := h.amended hamends
        rcases h.rent_of_amends hkeyed hamends with ⟨hlen, hsame⟩ | hrent
        · rw [HoldsExactRent, hlen, hsame]
          exact hexact hamended.before.toIsDid.hasDid
        · exact hrent
  · have hframe := h.frame ha
    have hsame := h.lamports_eq hkeyed hfind ha
    unfold Ledger.HasDid HoldsExactRent
    rw [hframe.1, hframe.2, hsame]
    exact ⟨hvacant, hexact⟩

end Performs

end BioDidRegistry
