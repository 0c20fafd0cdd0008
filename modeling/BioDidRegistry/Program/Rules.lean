import BioDidRegistry.Program.Memory

/-!
# Limits, flags and value rules

The constants of the document format and the checks on single values: key
lengths, flags, fragments, service values, external controllers and the key
bytes of a new method.
-/

namespace BioDidRegistry

/-- `b"default"`, the fragment of the founding verification method. -/
def defaultFragment : Bytes := [100, 101, 102, 97, 117, 108, 116]

def maxVerificationMethods : ℕ := 16
def maxServices : ℕ := 16
def maxNativeControllers : ℕ := 8
def maxOtherControllers : ℕ := 8
def maxFragmentLen : ℕ := 32
def maxServiceTypeLen : ℕ := 64
def maxEndpointLen : ℕ := 512
def maxControllerLen : ℕ := 128

def vmFlagAuthentication : UInt16 := (1 : UInt16) <<< 0
def vmFlagAssertion : UInt16 := (1 : UInt16) <<< 1
def vmFlagKeyAgreement : UInt16 := (1 : UInt16) <<< 2
def vmFlagCapabilityInvocation : UInt16 := (1 : UInt16) <<< 3
def vmFlagCapabilityDelegation : UInt16 := (1 : UInt16) <<< 4
/-- A protected method can only be removed, re-flagged or newly added when its
own key signs as the transaction authority. -/
def vmFlagProtected : UInt16 := (1 : UInt16) <<< 8

def vmRelationshipMask : UInt16 :=
  vmFlagAuthentication ||| vmFlagAssertion ||| vmFlagKeyAgreement |||
    vmFlagCapabilityInvocation ||| vmFlagCapabilityDelegation

def vmValidMask : UInt16 := vmRelationshipMask ||| vmFlagProtected

/-- All five relationships plus protection, the flags of the founding method. -/
def vmFlagsDefault : UInt16 := vmRelationshipMask ||| vmFlagProtected

def vmTypeEd25519 : UInt8 := 0
def vmTypeX25519 : UInt8 := 1
def vmTypeSecp256k1 : UInt8 := 2
def vmTypeDilithium5 : UInt8 := 3

/-- Expected raw key length per method type, or `none` for unknown tags. -/
def expectedKeyLen (methodType : UInt8) : Option ℕ :=
  if methodType = vmTypeEd25519 ∨ methodType = vmTypeX25519 then some 32
  else if methodType = vmTypeSecp256k1 then some 33
  else if methodType = vmTypeDilithium5 then some 2592
  else none

/-- `flags & mask != 0`. -/
def hasFlag (flags mask : UInt16) : Bool := flags &&& mask != 0

/-- Serialized size of one verification method entry. -/
def vmSpace (fragmentLen keyLen : ℕ) : Except Fault ℕ := do
  let n ← addUsize 4 fragmentLen
  let n ← addUsize n 1
  let n ← addUsize n 2
  let n ← addUsize n 4
  addUsize n keyLen

def serviceSpace (fragmentLen typeLen endpointLen : ℕ) : Except Fault ℕ := do
  let n ← addUsize 4 fragmentLen
  let n ← addUsize n 4
  let n ← addUsize n typeLen
  let n ← addUsize n 4
  addUsize n endpointLen

/-- Checks the flags against the key type. -/
def validateVmFlags (methodType : UInt8) (flags : UInt16) : Except Fault Unit := do
  require (flags &&& ~~~vmValidMask == 0) .invalidFlags
  if hasFlag flags (vmFlagCapabilityInvocation ||| vmFlagProtected) then
    require (methodType == vmTypeEd25519) .invalidFlags
  if hasFlag flags vmFlagProtected then
    require (hasFlag flags vmFlagCapabilityInvocation) .invalidFlags
  if methodType = vmTypeX25519 then
    require (flags &&& vmRelationshipMask &&& ~~~vmFlagKeyAgreement == 0) .invalidFlags
  if methodType = vmTypeDilithium5 then
    require (flags &&& vmFlagKeyAgreement == 0) .invalidFlags

def isAsciiLowercase (b : UInt8) : Bool := 97 ≤ b && b ≤ 122
def isAsciiUppercase (b : UInt8) : Bool := 65 ≤ b && b ≤ 90
def isAsciiDigit (b : UInt8) : Bool := 48 ≤ b && b ≤ 57
def isAsciiAlphanumeric (b : UInt8) : Bool :=
  isAsciiLowercase b || isAsciiUppercase b || isAsciiDigit b

/-- A fragment is 1..=32 characters of `[A-Za-z0-9_-]`. -/
def validFragment (fragment : Bytes) : Bool :=
  !fragment.isEmpty && fragment.length ≤ maxFragmentLen &&
    fragment.all fun b => isAsciiAlphanumeric b || b == 95 || b == 45

/-- Printable ASCII without whitespace, of bounded length. -/
def validUriAscii (value : Bytes) (maxLen : ℕ) : Bool :=
  !value.isEmpty && value.length ≤ maxLen && value.all fun b => 0x21 ≤ b && b ≤ 0x7e

def didPrefix : Bytes := [100, 105, 100, 58]

def bioMethod : Bytes := [98, 105, 111]

/-- `value.strip_prefix(p)`. -/
def stripPrefix (p value : Bytes) : Option Bytes :=
  if p.isPrefixOf value then some (value.drop p.length) else none

/-- An external controller is a DID of another method, `did:<method>:<id>`. -/
def validExternalController (value : Bytes) : Bool :=
  if !validUriAscii value maxControllerLen then false
  else match stripPrefix didPrefix value with
    | none => false
    | some rest => match rest.findIdx? (· == 58) with
      | none => false
      | some colon =>
        let method := rest.take colon
        let id := rest.drop (colon + 1)
        !method.isEmpty && method != bioMethod &&
          (method.all fun b => isAsciiLowercase b || isAsciiDigit b) && !id.isEmpty

/-- A verification method on its way into a document, described without its key
bytes, which may still sit in a key buffer. -/
structure NewMethod where
  fragment : Bytes
  methodType : UInt8
  flags : UInt16
  keyLen : ℕ
  deriving DecidableEq

/-- The rules a new method's key bytes must pass. `isCurvePoint` is the curve
check of the SDK. -/
def checkNewKey (isCurvePoint : Bytes → Bool) (m : NewMethod) (key : Bytes) (signer : Address) :
    Except Fault Unit := do
  if hasFlag m.flags vmFlagProtected then
    require (key == signer.val) .protectedVerificationMethod
  if m.methodType = vmTypeEd25519 then
    require (key == signer.val || isCurvePoint key) .invalidKey
  else if m.methodType = vmTypeSecp256k1 then
    require (key.head? == some 0x02 || key.head? == some 0x03) .invalidKey
  else .ok ()

end BioDidRegistry
