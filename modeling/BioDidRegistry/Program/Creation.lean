import BioDidRegistry.Program.Shared

/-!
# Creation of DID accounts

`initialize` creates the account of a key subject, and `initialize_owned` that of
a subject the program derives from the signing authority and a nonce. Both write
the initial document through `materialize`.
-/

namespace BioDidRegistry

open BinaryFormat

variable (P : Platform) (sv : Sysvars)

namespace Initialize

/-- The bytes of the initial document, written field by field over `data`: version
1, no controllers, one protected `#default` Ed25519 method, no services. -/
def writeInitial (data : Bytes) (bump : UInt8) (subject defaultKey : Address) (now : Int64) :
    Except Fault Bytes := do
  let data ← writeAt data 0 accountDiscriminator
  let data ← writeAt data offVersion (u64Bytes 1)
  let data ← writeAt data offBump [bump]
  let data ← writeAt data offSubject subject.val
  let data ← writeAt data offDeactivated [0]
  let data ← writeAt data offUpdatedAt (i64Bytes now)
  let off := offSections
  let data ← writeAt data off (u32Bytes 0)
  let off := off + 4
  let data ← writeAt data off (u32Bytes 0)
  let off := off + 4
  let data ← writeAt data off (u32Bytes 1)
  let off := off + 4
  let data ← writeAt data off (u32Bytes defaultFragment.length)
  let off := off + 4
  let data ← writeAt data off defaultFragment
  let off := off + defaultFragment.length
  let data ← writeAt data off [vmTypeEd25519]
  let off := off + 1
  let data ← writeAt data off (u16Bytes vmFlagsDefault)
  let off := off + 2
  let data ← writeAt data off (u32Bytes 32)
  let off := off + 4
  let data ← writeAt data off defaultKey.val
  let off := off + 32
  writeAt data off (u32Bytes 0)

/-- Creates the account for `subject` holding the initial document with
`defaultKey`. -/
def materialize (payer didAccount system : AccountView) (subject defaultKey : Address) :
    Exec Unit := do
  let L ← Exec.ledger
  checkPayer payer
  checkSystemProgram system
  ensure didAccount.isWritable .immutable
  let (pda, bump) ← findPda P [didSeed, subject.val]
  ensure (didAccount.address == pda) .invalidSeeds
  -- Anything but an untouched system account is already initialized, or is a
  -- tombstone, which must never resurrect.
  ensure ((L didAccount.address).owner == systemProgram &&
    (L didAccount.address).data.length == 0) .accountAlreadyInitialized
  let rentMin ← rentMinimumBalance P sv initialSpace
  createProgramAccount P payer didAccount rentMin initialSpace [didSeed, subject.val] bump
  let now ← orFault sv.clock
  let data ← Exec.borrow didAccount
  ensure (data.length == initialSpace) .accountDataTooSmall
  let data ← writeInitial data bump subject defaultKey now
  Exec.store didAccount data
  emit didInitialized didAccount.address subject 1

/-- Bytes that are an address, `args.try_into()`. -/
def subjectArg (args : Bytes) : Except Fault Address :=
  if h : args.length = 32 then .ok ⟨args, h⟩ else .error (.program .invalidInstructionData)

def process (accounts : List AccountView) (args : Bytes) : Exec Unit :=
  match accounts with
  | payer :: didAccount :: system :: _ => do
    let subject ← subjectArg args
    ensure (P.isCurvePoint subject.val) .invalidArgument
    materialize P sv payer didAccount system subject subject
  | _ => throw (.program .notEnoughAccountKeys)

end Initialize

namespace InitializeOwned

def nonceArg (args : Bytes) : Except Fault (Block 8) :=
  if h : args.length = 8 then .ok ⟨args, h⟩ else .error (.program .invalidInstructionData)

def process (accounts : List AccountView) (args : Bytes) : Exec Unit :=
  match accounts with
  | payer :: authority :: didAccount :: system :: _ => do
    checkAuthoritySigner authority
    let nonce ← nonceArg args
    let (subject, _) ← findPda P (ownedSubjectSeeds authority.address nonce)
    Initialize.materialize P sv payer didAccount system subject authority.address
  | _ => throw (.program .notEnoughAccountKeys)

end InitializeOwned

end BioDidRegistry
