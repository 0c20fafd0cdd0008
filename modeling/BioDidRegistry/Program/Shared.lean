import BioDidRegistry.Program.Layout
import BioDidRegistry.Program.Platform

/-!
# Account validation and rent plumbing

The checks on the accounts of an instruction only read the ledger, so they are
computations in `Except`. What writes is a computation in `Exec`, whose state
survives an error: a write made before the error stays made.
-/

namespace BioDidRegistry

open BinaryFormat

/-- What an instruction acts on: the ledger, and the records it logged. -/
structure Machine where
  ledger : Ledger
  log : List Bytes

abbrev Exec := EStateM Fault Machine

namespace Exec

def ledger : Exec Ledger := fun m => .ok m.ledger m

/-- `account.try_borrow()`, and `try_borrow_mut()` together with `store`. -/
def borrow (account : AccountView) : Exec Bytes := fun m =>
  .ok (m.ledger account.address).data m

def store (account : AccountView) (data : Bytes) : Exec Unit := fun m =>
  .ok () { m with ledger := m.ledger.store account.address data }

def lamports (account : AccountView) : Exec ℕ := fun m =>
  .ok (m.ledger account.address).lamports m

def setLamports (account : AccountView) (n : ℕ) : Exec Unit := fun m =>
  .ok () { m with ledger := m.ledger.setLamports account.address n }

/-- A call into the runtime, which changes the ledger or is refused. -/
def call (f : Ledger → Except ProgramError Ledger) : Exec Unit := fun m =>
  match f m.ledger with
  | .ok L => .ok () { m with ledger := L }
  | .error e => .error (.program e) m

def logData (bytes : Bytes) : Exec Unit := fun m => .ok () { m with log := m.log ++ [bytes] }

end Exec

/-- Early return an SDK error unless `cond` holds. -/
def ensure (cond : Bool) (err : ProgramError) : Except Fault Unit :=
  if cond then .ok () else .error (.program err)

@[simp] theorem ensure_eq_ok {cond : Bool} {err : ProgramError} {u : Unit} :
    ensure cond err = .ok u ↔ cond = true := by
  cases cond <;> simp [ensure]

@[simp] theorem ensure_true (err : ProgramError) : ensure true err = .ok () := rfl

/-- An SDK call whose error is returned. -/
def orFault {α : Type} : Except ProgramError α → Except Fault α
  | .ok a => .ok a
  | .error e => .error (.program e)

@[simp] theorem orFault_eq_ok {α : Type} {x : Except ProgramError α} {a : α} :
    orFault x = .ok a ↔ x = .ok a := by
  cases x <;> simp [orFault]

/-! ### Events -/

def didInitialized : Bytes := [125, 40, 26, 220, 241, 180, 151, 84]
def didModified : Bytes := [127, 241, 158, 225, 33, 224, 88, 208]
def didDeactivated : Bytes := [6, 124, 31, 30, 191, 92, 197, 57]

/-- The record of one event: discriminator, account, subject and version. -/
def eventBytes (discriminator : Bytes) (didAccount subject : Address) (version : UInt64) : Bytes :=
  discriminator ++ didAccount.val ++ subject.val ++ u64Bytes version

def emit (discriminator : Bytes) (didAccount subject : Address) (version : UInt64) : Exec Unit :=
  Exec.logData (eventBytes discriminator didAccount subject version)

/-! ### Checks -/

/-- The payer funds rent growth and receives shrink refunds, so it is a writable
signer. -/
def checkPayer (payer : AccountView) : Except Fault Unit := do
  ensure payer.isSigner .missingRequiredSignature
  ensure payer.isWritable .immutable

def checkAuthoritySigner (authority : AccountView) : Except Fault Unit :=
  ensure authority.isSigner .missingRequiredSignature

def checkSystemProgram (program : AccountView) : Except Fault Unit :=
  ensure (program.address == systemProgram) .incorrectProgramId

section Platform

variable (P : Platform)

/-- The program address for `seeds` and its bump. -/
def findPda (seeds : List Bytes) : Except Fault (Address × UInt8) :=
  match P.deriveProgramAddress seeds with
  | some found => .ok found
  | none => .error (.program .invalidSeeds)

/-- Loads an existing `DidAccount` read-only. It must be owned by this program,
carry the discriminator and sit at the address of its subject with the stored
bump. Returns the subject. -/
def loadDidAccount (L : Ledger) (didAccount : AccountView) : Except Fault Address := do
  ensure ((L didAccount.address).owner == programId) .invalidAccountOwner
  let data := (L didAccount.address).data
  ensure (baseSpace ≤ data.length && data.take 8 == accountDiscriminator) .invalidAccountData
  let r ← Reader.at' .account data offBump
  let (bump, subject) ← Reader.eval (do
    let bump ← Reader.u8
    let subject ← Reader.array 32
    pure (bump, subject)) r
  let expected := P.deriveAddress [didSeed, subject.val] bump
  ensure (didAccount.address == expected) .invalidSeeds
  pure subject

/-- Loads an existing `DidAccount` for mutation, which must be writable too. -/
def verifyDidAccount (L : Ledger) (didAccount : AccountView) : Except Fault Address := do
  ensure didAccount.isWritable .immutable
  loadDidAccount P L didAccount

/-- Checks that `signer` may update the DID in `doc`. The DID must not be
deactivated, and the signer must be one of its authorities, or an authority of a
native controller whose registry account is `controller`. Only the controller's
own methods count, so control reaches one level. -/
def authorize (L : Ledger) (doc : DidView) (signer : Address) (controller : Option AccountView) :
    Except Fault Unit := do
  let deactivated ← doc.isDeactivated
  require (!deactivated) .didDeactivated
  if doc.isAuthority signer then pure ()
  else match controller with
    | none => throw DidError.unauthorized.fault
    | some controller =>
      let subject ← loadDidAccount P L controller
      let native ← doc.isNativeController subject
      require native .unauthorized
      let parent ← DidView.parse (L controller.address).data
      let gone ← parent.isDeactivated
      require (!gone && parent.isAuthority signer) .unauthorized

/-- Loads an existing `KeyBuffer`. It must be writable, owned by this program,
carry the discriminator, be bound to `authority`, and to `didAccount` when one is
given, and sit at its address with the stored bump. Returns how far the upload has
come as `(written, keyLen)`. -/
def checkKeyBuffer (L : Ledger) (keyBuffer : AccountView) (authority : Address)
    (didAccount : Option Address) : Except Fault (ℕ × ℕ) := do
  ensure keyBuffer.isWritable .immutable
  ensure ((L keyBuffer.address).owner == programId) .invalidAccountOwner
  let data := (L keyBuffer.address).data
  ensure (keyBufferHeader ≤ data.length && data.take 8 == keyBufferDiscriminator)
    .invalidAccountData
  let kb ← KeyBufferRef.parse data
  require (kb.authority == authority) .invalidKeyBuffer
  match didAccount with
  | some did => require (kb.didAccount == did) .invalidKeyBuffer
  | none => pure ()
  let expected := P.deriveAddress [keyBufferSeed, kb.didAccount.val, kb.authority.val] kb.bump
  ensure (keyBuffer.address == expected) .invalidSeeds
  pure (kb.written, kb.keyLen)

def verifyKeyBuffer (L : Ledger) (keyBuffer : AccountView) (authority : Address)
    (didAccount : Option Address) : Except Fault Unit := do
  let _ ← checkKeyBuffer P L keyBuffer authority didAccount

/-- Who updates which DID. `controller` is the account after the instruction's
own, if any. -/
structure Target where
  authority : AccountView
  didAccount : AccountView
  controller : Option AccountView
  /-- The DID's subject, which the events name. -/
  subject : Address

/-- The accounts of an update that may resize the DID document. -/
structure Update extends Target where
  payer : AccountView

/-- `[payer, authority, did_account, system_program, rest @ ..]`, after the checks
every such update makes. -/
def Update.tryFrom (L : Ledger) : List AccountView → Except Fault Update
  | payer :: authority :: didAccount :: system :: rest => do
    checkPayer payer
    checkAuthoritySigner authority
    checkSystemProgram system
    let subject ← verifyDidAccount P L didAccount
    pure { payer, authority, didAccount, controller := rest.head?, subject }
  | _ => .error (.program .notEnoughAccountKeys)

/-! ### Rent -/

/-- Move every lamport to the payer and close the account. -/
def closeTo (account payer : AccountView) : Exec Unit := do
  let paid ← Exec.lamports payer
  let held ← Exec.lamports account
  let credited ← checkedAdd paid held
  Exec.setLamports payer credited
  Exec.setLamports account 0
  Exec.call (P.close account)

def accountStorageOverhead : ℕ := 128

/-- `f64` 1.0 and 2.0 in little-endian IEEE-754. -/
def oneF64Le : Bytes := [0, 0, 0, 0, 0, 0, 0xf0, 0x3f]
def twoF64Le : Bytes := [0, 0, 0, 0, 0, 0, 0, 0x40]

variable (sv : Sysvars)

/-- Rent-exempt minimum for `dataLen`, from either layout of the rent sysvar. -/
def rentMinimumBalance (dataLen : ℕ) : Except Fault ℕ := do
  let bytes ← checkedAdd accountStorageOverhead dataLen
  match sv.rent 17 with
  | .ok classic =>
    Reader.eval (do
      let lamportsPerByteYear ← Reader.u64
      let threshold ← Reader.array 8
      let base ← checkedMul bytes lamportsPerByteYear.toNat
      if threshold.val = oneF64Le then pure base
      else if threshold.val = twoF64Le then checkedMul base 2
      else match P.scaleRent base threshold with
        | some rent => pure rent
        | none => throw (.program .invalidArgument)) (Reader.new .account classic.val)
  | .error .invalidArgument => do
    -- A sysvar shorter than 17 bytes has the condensed layout.
    let condensed ← orFault (sv.rent 8)
    checkedMul bytes (leValue condensed.val)
  | .error e => .error (.program e)

/-- Settles rent so that after a resize to `newLen` the account holds exactly the
rent-exempt minimum. -/
def settleRent (didAccount payer : AccountView) (newLen : ℕ) : Exec Unit := do
  let newMin ← rentMinimumBalance P sv newLen
  let current ← Exec.lamports didAccount
  if current < newMin then Exec.call (P.transfer payer didAccount (newMin - current))
  else if newMin < current then do
    let refund := current - newMin
    Exec.setLamports didAccount newMin
    let paid ← Exec.lamports payer
    let credited ← checkedAdd paid refund
    Exec.setLamports payer credited

/-- Grow the account by funding the new rent minimum, then extending the data. -/
def grow (didAccount payer : AccountView) (newLen : ℕ) : Exec Unit := do
  settleRent P sv didAccount payer newLen
  Exec.call (P.resize didAccount newLen)

/-- Shrink the already compacted account by truncating it, then refunding. -/
def shrink (didAccount payer : AccountView) (newLen : ℕ) : Exec Unit := do
  Exec.call (P.resize didAccount newLen)
  settleRent P sv didAccount payer newLen

/-- Funds `account`, gives it `space` bytes and assigns it to the program, all
under the signature of its seeds. An address that already holds lamports is
topped up to the rent minimum, then allocated and assigned. -/
def createProgramAccount (payer account : AccountView) (rentMin space : ℕ) (seeds : List Bytes)
    (bump : UInt8) : Exec Unit := do
  let current ← Exec.lamports account
  if current = 0 then
    Exec.call (P.createAccount payer account rentMin space programId seeds bump)
  else do
    let deficit := rentMin - current
    if 0 < deficit then
      Exec.call (P.transfer payer account deficit)
    Exec.call (P.allocate account space seeds bump)
    Exec.call (P.assign account programId seeds bump)

end Platform

end BioDidRegistry
