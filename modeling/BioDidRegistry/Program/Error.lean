import Mathlib.Tactic

/-!
# Bytes, addresses and errors

`DidError` is the program's own enumeration, numbered from 6000. `ProgramError`
holds the errors of the SDK that the source names. A computation can also stop
without returning an error at all, which `Fault.panic` stands for: an index out
of range or an overflow of `usize`.
-/

namespace BioDidRegistry

abbrev Bytes := List UInt8

abbrev Block (n : ℕ) := {bs : Bytes // bs.length = n}

abbrev Address := Block 32

instance {n : ℕ} : Inhabited (Block n) := ⟨⟨List.replicate n 0, List.length_replicate⟩⟩

theorem Block.length_eq {n : ℕ} (b : Block n) : b.val.length = n := b.property

/-- Domain errors, surfaced as custom program error codes starting at 6000. -/
inductive DidError
  | unauthorized
  | didDeactivated
  | invalidFragment
  | fragmentAlreadyInUse
  | verificationMethodNotFound
  | serviceNotFound
  | tooManyVerificationMethods
  | tooManyServices
  | tooManyControllers
  | invalidKeyLength
  | invalidFlags
  | protectedVerificationMethod
  | lastAuthority
  | invalidController
  | invalidServiceValue
  | invalidKeyBuffer
  | invalidKeyChunk
  | keyBufferIncomplete
  | invalidKey
  deriving DecidableEq, Repr

namespace DidError

def code : DidError → ℕ
  | unauthorized => 6000
  | didDeactivated => 6001
  | invalidFragment => 6002
  | fragmentAlreadyInUse => 6003
  | verificationMethodNotFound => 6004
  | serviceNotFound => 6005
  | tooManyVerificationMethods => 6006
  | tooManyServices => 6007
  | tooManyControllers => 6008
  | invalidKeyLength => 6009
  | invalidFlags => 6010
  | protectedVerificationMethod => 6011
  | lastAuthority => 6012
  | invalidController => 6013
  | invalidServiceValue => 6014
  | invalidKeyBuffer => 6015
  | invalidKeyChunk => 6016
  | keyBufferIncomplete => 6017
  | invalidKey => 6018

end DidError

/-- The SDK errors the program returns or matches on. -/
inductive ProgramError
  | custom (code : ℕ)
  | invalidArgument
  | invalidInstructionData
  | invalidAccountData
  | accountDataTooSmall
  | incorrectProgramId
  | missingRequiredSignature
  | accountAlreadyInitialized
  | notEnoughAccountKeys
  | accountBorrowFailed
  | invalidSeeds
  | invalidRealloc
  | immutable
  | invalidAccountOwner
  | arithmeticOverflow
  /-- Any error only the runtime raises. -/
  | other (code : ℕ)
  deriving DecidableEq, Repr

/-- How a computation stops without a value. -/
inductive Fault
  | program (e : ProgramError)
  | panic
  deriving DecidableEq, Repr

/-- `From<DidError> for ProgramError`, raised. -/
def DidError.fault (e : DidError) : Fault := .program (.custom e.code)

/-- Early return a domain error unless `cond` holds. -/
def require (cond : Bool) (err : DidError) : Except Fault Unit :=
  if cond then .ok () else .error err.fault

@[simp] theorem require_true (err : DidError) : require true err = .ok () := rfl

@[simp] theorem require_false (err : DidError) : require false err = .error err.fault := rfl

@[simp] theorem require_eq_ok {cond : Bool} {err : DidError} {u : Unit} :
    require cond err = .ok u ↔ cond = true := by
  cases cond <;> simp

end BioDidRegistry
