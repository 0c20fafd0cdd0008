import BioDidRegistry.Program.Creation
import BioDidRegistry.Program.KeyBuffers

/-!
# Dispatch

The first eight bytes of the instruction data name the instruction, and the rest
are its arguments. A failed call leaves the ledger as it was, since the runtime
drops what the call wrote.
-/

namespace BioDidRegistry

/-- Instruction discriminators, each `sha256("global:<name>")[..8]`. -/
inductive Ix
  | initializeDid
  | addVerificationMethod
  | removeVerificationMethod
  | setVerificationMethodFlags
  | addService
  | removeService
  | setControllers
  | deactivate
  | createKeyBuffer
  | writeKeyBuffer
  | addVerificationMethodFromBuffer
  | closeKeyBuffer
  | initializeOwned
  | updateService
  deriving DecidableEq, Repr

namespace Ix

def discriminator : Ix → Bytes
  | initializeDid => [175, 175, 109, 31, 13, 152, 155, 237]
  | addVerificationMethod => [213, 200, 190, 61, 28, 104, 245, 25]
  | removeVerificationMethod => [33, 238, 66, 183, 62, 210, 133, 150]
  | setVerificationMethodFlags => [16, 188, 26, 223, 241, 131, 192, 223]
  | addService => [133, 207, 106, 32, 91, 111, 153, 30]
  | removeService => [19, 102, 8, 231, 40, 141, 9, 110]
  | setControllers => [65, 40, 24, 8, 30, 81, 20, 179]
  | deactivate => [44, 112, 33, 172, 113, 28, 142, 13]
  | createKeyBuffer => [138, 70, 101, 189, 154, 98, 203, 23]
  | writeKeyBuffer => [61, 88, 82, 10, 227, 249, 18, 117]
  | addVerificationMethodFromBuffer => [111, 184, 129, 9, 216, 207, 122, 90]
  | closeKeyBuffer => [6, 209, 103, 32, 78, 18, 70, 184]
  | initializeOwned => [51, 133, 240, 229, 41, 137, 108, 91]
  | updateService => [46, 169, 26, 33, 191, 78, 40, 221]

def all : List Ix :=
  [initializeDid, addVerificationMethod, removeVerificationMethod, setVerificationMethodFlags,
    addService, removeService, setControllers, deactivate, createKeyBuffer, writeKeyBuffer,
    addVerificationMethodFromBuffer, closeKeyBuffer, initializeOwned, updateService]

def ofDiscriminator (disc : Bytes) : Option Ix := all.find? fun ix => ix.discriminator == disc

theorem length_discriminator (ix : Ix) : ix.discriminator.length = 8 := by cases ix <;> rfl

theorem ofDiscriminator_discriminator (ix : Ix) : ofDiscriminator ix.discriminator = some ix := by
  cases ix <;> rfl

end Ix

variable (P : Platform) (sv : Sysvars)

def handler : Ix → List AccountView → Bytes → Exec Unit
  | .initializeDid => Initialize.process P sv
  | .addVerificationMethod => AddVerificationMethod.process P sv
  | .removeVerificationMethod => RemoveVerificationMethod.process P sv
  | .setVerificationMethodFlags => SetVerificationMethodFlags.process P sv
  | .addService => AddService.process P sv
  | .removeService => RemoveService.process P sv
  | .setControllers => SetControllers.process P sv
  | .deactivate => Deactivate.process P sv
  | .createKeyBuffer => CreateKeyBuffer.process P sv
  | .writeKeyBuffer => WriteKeyBuffer.process P
  | .addVerificationMethodFromBuffer => AddVerificationMethodFromBuffer.process P sv
  | .closeKeyBuffer => CloseKeyBuffer.process P
  | .initializeOwned => InitializeOwned.process P sv
  | .updateService => UpdateService.process P sv

def processInstruction (id : Address) (accounts : List AccountView) (instructionData : Bytes) :
    Exec Unit :=
  if id ≠ programId then throw (.program .incorrectProgramId)
  else if instructionData.length < 8 then throw (.program .invalidInstructionData)
  else match Ix.ofDiscriminator (instructionData.take 8) with
    | some ix => handler P sv ix accounts (instructionData.drop 8)
    | none => throw (.program .invalidInstructionData)

/-- One call of the program by the runtime. -/
structure Call where
  accounts : List AccountView
  data : Bytes
  sysvars : Sysvars

/-- The result of a call on `L`: the new ledger and the records logged, or a fault. -/
def invoke (c : Call) (L : Ledger) : Except Fault (Ledger × List Bytes) :=
  match processInstruction P c.sysvars programId c.accounts c.data ⟨L, []⟩ with
  | .ok _ m => .ok (m.ledger, m.log)
  | .error e _ => .error e

/-- The ledger after a call, which a failed call leaves unchanged. -/
def after (c : Call) (L : Ledger) : Ledger :=
  match invoke P c L with
  | .ok (L', _) => L'
  | .error _ => L

end BioDidRegistry
