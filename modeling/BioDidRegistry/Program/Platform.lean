import BioDidRegistry.Program.Memory

/-!
# Accounts and the runtime

The ledger maps every address to an account. What the program asks of the SDK
and the runtime (address derivation, the curve check, the system program, resizing
and closing) is a `Platform`, and `Platform.Lawful` states the documented
behaviour the proofs rely on.
-/

namespace BioDidRegistry

open BinaryFormat

/-- The system program, `11111111111111111111111111111111`. -/
def systemProgram : Address := ⟨List.replicate 32 0, List.length_replicate⟩

/-- The program ID, `H1gnV4GjNT3UV7AgGNUCkSaciuVVtM7hKb8JhPV3Xxy6`. -/
def programId : Address :=
  ⟨[237, 231, 249, 151, 37, 50, 249, 249, 121, 199, 216, 89, 60, 64, 106, 126,
    73, 234, 235, 163, 34, 110, 199, 209, 203, 31, 235, 20, 60, 254, 180, 65], rfl⟩

theorem programId_ne_systemProgram : programId ≠ systemProgram := by decide

/-- An account as the ledger stores it. -/
structure Account where
  lamports : ℕ
  data : Bytes
  owner : Address
  deriving DecidableEq

/-- Every address holds an account, the empty one of the system program if no other. -/
abbrev Ledger := Address → Account

/-- An account an instruction names, with the roles the caller gave it. -/
structure AccountView where
  address : Address
  isSigner : Bool
  isWritable : Bool
  deriving DecidableEq

namespace Ledger

/-- The ledger with the account at `a` replaced by `f` of it. -/
def modify (L : Ledger) (a : Address) (f : Account → Account) : Ledger :=
  Function.update L a (f (L a))

def store (L : Ledger) (a : Address) (data : Bytes) : Ledger :=
  L.modify a fun x => { x with data }

def setLamports (L : Ledger) (a : Address) (n : ℕ) : Ledger :=
  L.modify a fun x => { x with lamports := n }

def setOwner (L : Ledger) (a owner : Address) : Ledger :=
  L.modify a fun x => { x with owner }

/-- `n` lamports moved from `a` to `b`. -/
def pay (L : Ledger) (a b : Address) (n : ℕ) : Ledger :=
  let paid := L.setLamports a ((L a).lamports - n)
  paid.setLamports b ((paid b).lamports + n)

variable (L : Ledger) (a b c : Address)

@[simp] theorem modify_self (f : Account → Account) : L.modify a f a = f (L a) := by
  simp [modify]

theorem modify_of_ne {a b : Address} (f : Account → Account) (h : b ≠ a) :
    L.modify a f b = L b := by
  simp [modify, h]

theorem modify_apply (f : Account → Account) :
    L.modify a f b = if b = a then f (L a) else L b := by
  simp [modify, Function.update_apply]

theorem modify_comm {f g : Account → Account} (h : ∀ x, f (g x) = g (f x)) :
    (L.modify a f).modify b g = (L.modify b g).modify a f := by
  funext c
  simp only [modify_apply]
  by_cases hab : a = b
  · subst hab
    by_cases hc : c = a <;> simp [hc, h]
  · by_cases hb : c = b
    · subst hb
      simp [Ne.symm hab]
    · by_cases ha : c = a <;> simp [ha, hab, hb]

@[simp] theorem store_data (data : Bytes) : (L.store a data a).data = data := by simp [store]

theorem modify_field {γ : Type} (field : Account → γ) {f : Account → Account}
    (h : ∀ x, field (f x) = field x) : field (L.modify a f b) = field (L b) := by
  rw [modify_apply]
  split_ifs with hb
  · rw [h, hb]
  · rfl

@[simp] theorem store_lamports (data : Bytes) :
    (L.store a data b).lamports = (L b).lamports :=
  modify_field _ _ _ Account.lamports fun _ => rfl

@[simp] theorem store_owner (data : Bytes) : (L.store a data b).owner = (L b).owner :=
  modify_field _ _ _ Account.owner fun _ => rfl

theorem store_of_ne {a b : Address} (data : Bytes) (h : b ≠ a) : L.store a data b = L b :=
  modify_of_ne _ _ h

@[simp] theorem setLamports_data (n : ℕ) : (L.setLamports a n b).data = (L b).data :=
  modify_field _ _ _ Account.data fun _ => rfl

@[simp] theorem setLamports_owner (n : ℕ) : (L.setLamports a n b).owner = (L b).owner :=
  modify_field _ _ _ Account.owner fun _ => rfl

@[simp] theorem setLamports_self (n : ℕ) : (L.setLamports a n a).lamports = n := by
  simp [setLamports]

theorem setLamports_of_ne {a b : Address} (n : ℕ) (h : b ≠ a) : L.setLamports a n b = L b :=
  modify_of_ne _ _ h

theorem setLamports_store (n : ℕ) (data : Bytes) :
    (L.store c data).setLamports a n = (L.setLamports a n).store c data :=
  modify_comm L c a fun _ => rfl

@[simp] theorem setOwner_self (owner : Address) : (L.setOwner a owner a).owner = owner := by
  simp [setOwner]

@[simp] theorem setOwner_data (owner : Address) : (L.setOwner a owner b).data = (L b).data :=
  modify_field _ _ _ Account.data fun _ => rfl

@[simp] theorem setOwner_lamports (owner : Address) :
    (L.setOwner a owner b).lamports = (L b).lamports :=
  modify_field _ _ _ Account.lamports fun _ => rfl

theorem setOwner_of_ne {a b : Address} (owner : Address) (h : b ≠ a) :
    L.setOwner a owner b = L b :=
  modify_of_ne _ _ h

@[simp] theorem pay_data (n : ℕ) : (L.pay a b n c).data = (L c).data := by simp [pay]

@[simp] theorem pay_owner (n : ℕ) : (L.pay a b n c).owner = (L c).owner := by simp [pay]

theorem pay_of_ne {a b c : Address} (n : ℕ) (ha : c ≠ a) (hb : c ≠ b) : L.pay a b n c = L c := by
  simp [pay, setLamports_of_ne _ _ hb, setLamports_of_ne _ _ ha]

theorem pay_store (n : ℕ) (data : Bytes) :
    (L.store c data).pay a b n = (L.pay a b n).store c data := by
  simp [pay, setLamports_store]

@[simp] theorem store_store (x y : Bytes) : (L.store a x).store a y = L.store a y := by
  funext b
  by_cases h : b = a
  · subst h
    simp [store]
  · simp [store_of_ne _ _ h]

end Ledger

/-- The system program lets `src` pay `n` lamports to `dst`. -/
structure CanPay (L : Ledger) (src dst : AccountView) (n : ℕ) : Prop where
  signer : src.isSigner = true
  writable : src.isWritable = true
  writable_dst : dst.isWritable = true
  dataless : (L src.address).data = []
  owner : n = 0 ∨ (L src.address).owner = systemProgram
  enough : n ≤ (L src.address).lamports

/-- What the program asks of the SDK and the runtime. The seeds a call is signed
with end in the bump, which is their last argument here. -/
structure Platform where
  /-- `Address::derive_address(seeds, Some(bump), &ID)`. -/
  deriveAddress : List Bytes → UInt8 → Address
  /-- `Address::derive_program_address(seeds, &ID)`. -/
  deriveProgramAddress : List Bytes → Option (Address × UInt8)
  /-- `bytes_are_curve_point`, which `is_on_curve` asks of an address. -/
  isCurvePoint : Bytes → Bool
  /-- `Transfer { from, to, lamports }.invoke()`. -/
  transfer : AccountView → AccountView → ℕ → Ledger → Except ProgramError Ledger
  /-- `CreateAccount { from, to, lamports, space, owner }.invoke_signed(seeds)`. -/
  createAccount : AccountView → AccountView → ℕ → ℕ → Address → List Bytes → UInt8 →
    Ledger → Except ProgramError Ledger
  /-- `Allocate { account, space }.invoke_signed(seeds)`. -/
  allocate : AccountView → ℕ → List Bytes → UInt8 → Ledger → Except ProgramError Ledger
  /-- `Assign { account, owner }.invoke_signed(seeds)`. -/
  assign : AccountView → Address → List Bytes → UInt8 → Ledger → Except ProgramError Ledger
  /-- `account.resize(new_len)`. -/
  resize : AccountView → ℕ → Ledger → Except ProgramError Ledger
  /-- `account.close()`. -/
  close : AccountView → Ledger → Except ProgramError Ledger
  /-- `(base as f64 * threshold) as u64`, if the threshold is finite and not negative. -/
  scaleRent : ℕ → Block 8 → Option ℕ

/-- How far one instruction may grow an account. -/
def maxPermittedDataIncrease : ℕ := 10240

/-- The largest account the runtime allows. -/
def maxPermittedDataLength : ℕ := 10 * 1024 * 1024

/-- The documented behaviour of the SDK and the runtime. An instruction of this
program resizes an account at most once, so the growth limit is measured from
the length the account has at that moment. -/
structure Platform.Lawful (P : Platform) : Prop where
  /-- A program address is the derived address of its seeds and its bump. -/
  derive_found {seeds : List Bytes} {a : Address} {bump : UInt8} :
    P.deriveProgramAddress seeds = some (a, bump) → P.deriveAddress seeds bump = a
  transfer_ok_iff {src dst : AccountView} {n : ℕ} {L L' : Ledger} :
    P.transfer src dst n L = .ok L' ↔
      CanPay L src dst n ∧ (L.pay src.address dst.address n dst.address).lamports < 2 ^ 64 ∧
        L' = L.pay src.address dst.address n
  createAccount_ok_iff {src dst : AccountView} {n space : ℕ} {owner : Address}
    {seeds : List Bytes} {bump : UInt8} {L L' : Ledger} :
    P.deriveProgramAddress seeds = some (dst.address, bump) →
    (P.createAccount src dst n space owner seeds bump L = .ok L' ↔
      (CanPay L src dst n ∧ src.address ≠ dst.address ∧ space ≤ maxPermittedDataIncrease ∧
        L dst.address = ⟨0, [], systemProgram⟩) ∧
      L' = ((L.pay src.address dst.address n).store dst.address
        (List.replicate space 0)).setOwner dst.address owner)
  allocate_ok_iff {dst : AccountView} {space : ℕ} {seeds : List Bytes} {bump : UInt8}
    {L L' : Ledger} :
    P.deriveProgramAddress seeds = some (dst.address, bump) →
    (P.allocate dst space seeds bump L = .ok L' ↔
      (dst.isWritable = true ∧ space ≤ maxPermittedDataIncrease ∧ (L dst.address).data = [] ∧
        (L dst.address).owner = systemProgram) ∧
      L' = L.store dst.address (List.replicate space 0))
  assign_ok_iff {dst : AccountView} {owner : Address} {seeds : List Bytes} {bump : UInt8}
    {L L' : Ledger} :
    P.deriveProgramAddress seeds = some (dst.address, bump) →
    (L dst.address).owner = systemProgram → (∀ b ∈ (L dst.address).data, b = 0) →
    (P.assign dst owner seeds bump L = .ok L' ↔
      dst.isWritable = true ∧ L' = L.setOwner dst.address owner)
  resize_ok_iff {account : AccountView} {n : ℕ} {L L' : Ledger} :
    P.resize account n L = .ok L' ↔
      n ≤ (L account.address).data.length + maxPermittedDataIncrease ∧
        L' = L.store account.address (resizeWith 0 (L account.address).data n)
  close_eq {account : AccountView} {L : Ledger} :
    P.close account L = .ok (L.modify account.address fun _ => ⟨0, [], systemProgram⟩)

/-- What the sysvars answer while one instruction runs. -/
structure Sysvars where
  /-- The first `n` bytes of the rent sysvar. -/
  rent : (n : ℕ) → Except ProgramError (Block n)
  /-- `Clock::get()?.unix_timestamp`. -/
  clock : Except ProgramError Int64

end BioDidRegistry
