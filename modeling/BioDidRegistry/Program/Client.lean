import BioDidRegistry.Foundation.Chunks
import BioDidRegistry.Program.Dispatch

/-!
# Instruction builders for clients

Each builder returns the account roles in the order the program reads them and
the borsh encoded arguments. The builders only encode. Where the SDK finds no
program address for its seeds it panics, which `none` stands for.
-/

namespace BioDidRegistry

namespace AccountView

def writable (address : Address) (isSigner : Bool) : AccountView := ⟨address, isSigner, true⟩

def readonly (address : Address) (isSigner : Bool) : AccountView := ⟨address, isSigner, false⟩

end AccountView

structure Instruction where
  programId : Address
  accounts : List AccountView
  data : Bytes
  deriving DecidableEq

namespace Instruction

def new (ix : Ix) (accounts : List AccountView) : Instruction :=
  ⟨BioDidRegistry.programId, accounts, ix.discriminator⟩

def raw (i : Instruction) (value : Bytes) : Instruction := { i with data := i.data ++ value }

def bytes (i : Instruction) (value : Bytes) : Instruction :=
  { i with data := i.data ++ u32Bytes value.length ++ value }

def str (i : Instruction) (value : Bytes) : Instruction := i.bytes value

end Instruction

namespace Client

/-- The chunk size `uploadKey` writes. -/
def keyChunkLen : ℕ := 900

variable (P : Platform)

def didAccount (subject : Address) : Option Address :=
  (P.deriveProgramAddress [didSeed, subject.val]).map Prod.fst

/-- The key buffer `authority` uploads into for the DID of `subject`. -/
def keyBuffer (subject authority : Address) : Option Address := do
  let did ← didAccount P subject
  (P.deriveProgramAddress [keyBufferSeed, did.val, authority.val]).map Prod.fst

/-- The owned subject that `initialize_owned(nonce)` signed by `authority` creates. -/
def ownedSubject (authority : Address) (nonce : UInt64) : Option Address :=
  (P.deriveProgramAddress [ownedSubjectSeed, authority.val, u64Bytes nonce]).map Prod.fst

/-- Appends the registry account of `controller`, a native controller of the DID. -/
def viaController (controller : Address) (i : Instruction) : Option Instruction := do
  let account ← didAccount P controller
  pure { i with accounts := i.accounts ++ [.readonly account false] }

def updateAccounts (payer authority subject : Address) : Option (List AccountView) := do
  let did ← didAccount P subject
  pure [.writable payer true, .readonly authority true, .writable did false,
    .readonly systemProgram false]

def bufferAccounts (payer authority subject : Address) : Option (List AccountView) := do
  let did ← didAccount P subject
  let buffer ← keyBuffer P subject authority
  pure [.writable payer true, .readonly authority true, .writable did false,
    .writable buffer false, .readonly systemProgram false]

/-- Creates the registry account of a key subject. Any payer may sponsor it. -/
def initializeDid (payer subject : Address) : Option Instruction := do
  let did ← didAccount P subject
  pure ((Instruction.new .initializeDid [.writable payer true, .writable did false,
    .readonly systemProgram false]).raw subject.val)

def initializeOwned (payer authority : Address) (nonce : UInt64) : Option Instruction := do
  let subject ← ownedSubject P authority nonce
  let accounts ← updateAccounts P payer authority subject
  pure ((Instruction.new .initializeOwned accounts).raw (u64Bytes nonce))

variable (payer authority subject : Address)

/-- Adds a verification method whose key fits in one transaction. -/
def addVerificationMethod (fragment : Bytes) (methodType : UInt8) (flags : UInt16)
    (key : Bytes) : Option Instruction := do
  let accounts ← updateAccounts P payer authority subject
  pure ((((Instruction.new .addVerificationMethod accounts).str fragment).raw [methodType]
    |>.raw (u16Bytes flags)).bytes key)

def removeVerificationMethod (fragment : Bytes) : Option Instruction := do
  let accounts ← updateAccounts P payer authority subject
  pure ((Instruction.new .removeVerificationMethod accounts).str fragment)

def setVerificationMethodFlags (fragment : Bytes) (flags : UInt16) : Option Instruction := do
  let did ← didAccount P subject
  pure (((Instruction.new .setVerificationMethodFlags [.readonly authority true,
    .writable did false]).str fragment).raw (u16Bytes flags))

def addService (fragment serviceType endpoint : Bytes) : Option Instruction := do
  let accounts ← updateAccounts P payer authority subject
  pure ((((Instruction.new .addService accounts).str fragment).str serviceType).str endpoint)

def updateService (fragment serviceType endpoint : Bytes) : Option Instruction := do
  let accounts ← updateAccounts P payer authority subject
  pure ((((Instruction.new .updateService accounts).str fragment).str serviceType).str endpoint)

def removeService (fragment : Bytes) : Option Instruction := do
  let accounts ← updateAccounts P payer authority subject
  pure ((Instruction.new .removeService accounts).str fragment)

def setControllers (native : List Address) (external : List Bytes) : Option Instruction := do
  let accounts ← updateAccounts P payer authority subject
  let ix := (Instruction.new .setControllers accounts).raw (u32Bytes native.length)
  let ix := native.foldl (fun ix key => ix.raw key.val) ix
  let ix := ix.raw (u32Bytes external.length)
  pure (external.foldl (fun ix did => ix.str did) ix)

def deactivate : Option Instruction := do
  let accounts ← updateAccounts P payer authority subject
  pure (Instruction.new .deactivate accounts)

/-- Opens the key buffer of `authority` for a method whose key is `keyLen` bytes long. -/
def createKeyBuffer (fragment : Bytes) (methodType : UInt8) (flags : UInt16) (keyLen : UInt32) :
    Option Instruction := do
  let accounts ← bufferAccounts P payer authority subject
  pure ((((Instruction.new .createKeyBuffer accounts).str fragment).raw [methodType]
    |>.raw (u16Bytes flags)).raw (u32Bytes keyLen.toNat))

/-- Writes `chunk` at `offset`, which must be where the previous chunk ended. -/
def writeKeyBuffer (offset : UInt32) (chunk : Bytes) : Option Instruction := do
  let buffer ← keyBuffer P subject authority
  pure (((Instruction.new .writeKeyBuffer [.readonly authority true, .writable buffer false]).raw
    (u32Bytes offset.toNat)).bytes chunk)

/-- Appends the method staged in a complete key buffer and closes the buffer. -/
def addVerificationMethodFromBuffer : Option Instruction := do
  let accounts ← bufferAccounts P payer authority subject
  pure (Instruction.new .addVerificationMethodFromBuffer accounts)

/-- Discards the key buffer of `authority` and refunds its rent. -/
def closeKeyBuffer : Option Instruction := do
  let buffer ← keyBuffer P subject authority
  pure (Instruction.new .closeKeyBuffer [.writable payer true, .readonly authority true,
    .writable buffer false])

/-- The instructions that register a key too large for one transaction, in order. -/
def uploadKey (fragment : Bytes) (methodType : UInt8) (flags : UInt16) (key : Bytes) :
    Option (List Instruction) := do
  let first ← createKeyBuffer P payer authority subject fragment methodType flags
    (UInt32.ofNat key.length)
  let writes ← (BinaryFormat.chunks keyChunkLen key).zipIdx.mapM fun chunk =>
    writeKeyBuffer P authority subject (UInt32.ofNat (chunk.2 * keyChunkLen)) chunk.1
  let last ← addVerificationMethodFromBuffer P payer authority subject
  pure (first :: writes ++ [last])

end Client

end BioDidRegistry
