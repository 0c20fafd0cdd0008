import BioDidRegistry.Program.Reader
import BioDidRegistry.Program.Rules

/-!
# Byte-level view of the account layouts

Offsets, the section map, the borrowed view with its entry iterators, and the
edits that write an entry into the buffer. The document is never deserialized.
Handlers compute spans with `Sections.parse`, then move and patch bytes in
place.
-/

namespace BioDidRegistry

open BinaryFormat

/-- `sha256("account:DidAccount")[..8]`. -/
def accountDiscriminator : Bytes := [77, 88, 239, 141, 251, 29, 237, 243]

/-- `b"bio-did"`, the seeds are `["bio-did", subject]`. -/
def didSeed : Bytes := [98, 105, 111, 45, 100, 105, 100]

/-- `b"bio-did-owned"`. -/
def ownedSubjectSeed : Bytes := [98, 105, 111, 45, 100, 105, 100, 45, 111, 119, 110, 101, 100]

/-- The seeds of the owned subject for `authority` and `nonce`. -/
def ownedSubjectSeeds (authority : Address) (nonce : Block 8) : List Bytes :=
  [ownedSubjectSeed, authority.val, nonce.val]

def offVersion : ℕ := 8
def offBump : ℕ := 16
def offSubject : ℕ := 17
def offDeactivated : ℕ := 49
def offUpdatedAt : ℕ := 50
/-- Offset of the `native_controllers` count, the first vector section. -/
def offSections : ℕ := 58

def baseSpace : ℕ := 74
def tombstoneSpace : ℕ := 74
def initialSpace : ℕ := 124

/-- `sha256("account:KeyBuffer")[..8]`. -/
def keyBufferDiscriminator : Bytes := [150, 138, 44, 35, 255, 159, 45, 0]

/-- `b"bio-did-key"`, the seeds are `["bio-did-key", did_account, authority]`. -/
def keyBufferSeed : Bytes := [98, 105, 111, 45, 100, 105, 100, 45, 107, 101, 121]

def kbOffDidAccount : ℕ := 8
def kbOffAuthority : ℕ := 40
def kbOffBump : ℕ := 72
def kbOffMethodType : ℕ := 73
def kbOffFlags : ℕ := 74
def kbOffKeyLen : ℕ := 76
def kbOffWritten : ℕ := 80
def kbOffFragmentLen : ℕ := 84
def kbOffFragment : ℕ := 88
/-- Offset of the key bytes, which is also the fixed header size. -/
def kbOffKey : ℕ := 120
def keyBufferHeader : ℕ := 120

/-- `(n as u32).to_le_bytes()`. -/
def u32Bytes (n : ℕ) : Bytes := leBytes 4 n

def u16Bytes (flags : UInt16) : Bytes := leBytes 2 flags.toNat

def u64Bytes (v : UInt64) : Bytes := leBytes 8 v.toNat

/-- `now.to_le_bytes()`, two's complement. -/
def i64Bytes (now : Int64) : Bytes := leBytes 8 now.toUInt64.toNat

@[simp] theorem length_u32Bytes (n : ℕ) : (u32Bytes n).length = 4 := length_leBytes 4 n

@[simp] theorem length_u16Bytes (flags : UInt16) : (u16Bytes flags).length = 2 :=
  length_leBytes 2 _

@[simp] theorem length_u64Bytes (v : UInt64) : (u64Bytes v).length = 8 := length_leBytes 8 _

@[simp] theorem length_i64Bytes (now : Int64) : (i64Bytes now).length = 8 := length_leBytes 8 _

/-- A parsed key buffer header. -/
structure KeyBufferRef where
  didAccount : Address
  authority : Address
  bump : UInt8
  methodType : UInt8
  flags : UInt16
  keyLen : ℕ
  written : ℕ
  fragment : Bytes

namespace KeyBufferRef

/-- Read the header of a buffer whose discriminator was already checked. The
data length must match the declared key length exactly. -/
def parse (data : Bytes) : Except Fault KeyBufferRef := do
  let header := data.take keyBufferHeader
  let key := data.drop keyBufferHeader
  if data.length < keyBufferHeader then throw (.program .invalidAccountData)
  let r ← Reader.at' .account header kbOffDidAccount
  Reader.eval (do
    let didAccount ← Reader.array 32
    let authority ← Reader.array 32
    let bump ← Reader.u8
    let methodType ← Reader.u8
    let flags ← Reader.u16
    let keyLen ← Reader.u32
    let written ← Reader.u32
    let fragmentLen ← Reader.u32
    let fragment ← Reader.array maxFragmentLen
    if key.length ≠ keyLen.toNat ∨ keyLen.toNat < written.toNat ∨
        maxFragmentLen < fragmentLen.toNat then
      throw (Fault.program .invalidAccountData)
    let fragment ← slice fragment.val 0 fragmentLen.toNat
    pure ⟨didAccount, authority, bump, methodType, flags, keyLen.toNat, written.toNat,
      fragment⟩) r

def key (kb : KeyBufferRef) (data : Bytes) : Except Fault Bytes := do
  let last ← addUsize kbOffKey kb.written
  slice data kbOffKey last

end KeyBufferRef

/-- Offsets of the four vector sections inside the account data. -/
structure Sections where
  ncCount : ℕ
  ncItems : ℕ
  ocCount : ℕ
  ocCountPos : ℕ
  ocItems : ℕ
  vmCount : ℕ
  vmCountPos : ℕ
  vmItems : ℕ
  svcCount : ℕ
  svcCountPos : ℕ
  svcItems : ℕ
  endPos : ℕ
  deriving DecidableEq, Repr

namespace Sections

def skipMethod : Read .account Unit := do
  let _ ← Reader.lenPrefixed
  let _ ← Reader.bytes (1 + 2)
  let _ ← Reader.lenPrefixed

def skipService : Read .account Unit := do
  let _ ← Reader.lenPrefixed
  let _ ← Reader.lenPrefixed
  let _ ← Reader.lenPrefixed

/-- The walk over the vector sections from the first count on. -/
def walk : Read .account Sections := do
  let ncCount ← Reader.u32
  let ncItems ← Reader.offset
  let ncLen ← mulUsize ncCount.toNat 32
  let _ ← Reader.bytes ncLen
  let ocCountPos ← Reader.offset
  let ocCount ← Reader.u32
  let ocItems ← Reader.offset
  let _ ← collect Reader.lenPrefixed ocCount.toNat
  let vmCountPos ← Reader.offset
  let vmCount ← Reader.u32
  let vmItems ← Reader.offset
  let _ ← collect skipMethod vmCount.toNat
  let svcCountPos ← Reader.offset
  let svcCount ← Reader.u32
  let svcItems ← Reader.offset
  let _ ← collect skipService svcCount.toNat
  let endPos ← Reader.offset
  Reader.finish
  pure
    { ncCount := ncCount.toNat, ncItems
      ocCount := ocCount.toNat, ocCountPos, ocItems
      vmCount := vmCount.toNat, vmCountPos, vmItems
      svcCount := svcCount.toNat, svcCountPos, svcItems
      endPos }

/-- Walk the vector sections. `data` is the whole account data. The layout must
account for every byte. -/
def parse (data : Bytes) : Except Fault Sections := do
  let r ← Reader.at' .account data offSections
  Reader.eval walk r

end Sections

structure VmRef where
  fragment : Bytes
  methodType : UInt8
  flags : UInt16
  key : Bytes
  start : ℕ
  endPos : ℕ
  flagsPos : ℕ
  deriving DecidableEq

/-- True for an Ed25519 method holding capabilityInvocation, the kind of method
that may sign updates. -/
def VmRef.isAuthority (vm : VmRef) : Bool :=
  vm.methodType == vmTypeEd25519 && hasFlag vm.flags vmFlagCapabilityInvocation

structure SvcRef where
  fragment : Bytes
  start : ℕ
  endPos : ℕ
  deriving DecidableEq

/-- A cursor over the entries of one section, which ends where the next
section's count begins. -/
def section' (data : Bytes) (items last : ℕ) : Reader .account :=
  if last ≤ data.length then
    match Reader.at' .account (data.take last) items with
    | .ok r => r
    | .error _ => Reader.new .account []
  else Reader.new .account []

def readVm : Read .account VmRef := do
  let start ← Reader.offset
  let fragment ← Reader.lenPrefixed
  let methodType ← Reader.u8
  let flagsPos ← Reader.offset
  let flags ← Reader.u16
  let key ← Reader.lenPrefixed
  let endPos ← Reader.offset
  pure { fragment, methodType, flags, key, start, endPos, flagsPos }

def readSvc : Read .account SvcRef := do
  let start ← Reader.offset
  let fragment ← Reader.lenPrefixed
  let _ ← Reader.lenPrefixed
  let _ ← Reader.lenPrefixed
  let endPos ← Reader.offset
  pure { fragment, start, endPos }

/-- `Iterator::next` of an entry iterator: nothing at the end of the section,
and nothing when the entry does not read back. -/
def next {α : Type} (p : Read .account α) (r : Reader .account) : Option (α × Reader .account) :=
  if r.rest.isEmpty then none
  else match p r with
    | .ok a r' => some (a, r')
    | .error _ _ => none

/-- The entries a `for` loop over the iterator sees. An entry takes at least one
byte, so the fuel of as many entries as there are bytes is never used up. -/
def entries {α : Type} (p : Read .account α) : ℕ → Reader .account → List α
  | 0, _ => []
  | fuel + 1, r => match next p r with
    | none => []
    | some (a, r') => a :: entries p fuel r'

/-- A `DidAccount` whose layout `Sections.parse` accepted. The section offsets
come from these exact bytes, so a view never pairs a layout with a different
buffer. -/
structure DidView where
  data : Bytes
  sections : Sections
  parsed : Sections.parse data = .ok sections

namespace DidView

def parse (data : Bytes) : Except Fault DidView :=
  match h : Sections.parse data with
  | .ok sections => .ok ⟨data, sections, h⟩
  | .error e => .error e

def isDeactivated (doc : DidView) : Except Fault Bool := do
  let b ← index doc.data offDeactivated
  pure (b != 0)

def vms (doc : DidView) : List VmRef :=
  let r := section' doc.data doc.sections.vmItems doc.sections.svcCountPos
  entries readVm r.rest.length r

def services (doc : DidView) : List SvcRef :=
  let r := section' doc.data doc.sections.svcItems doc.sections.endPos
  entries readSvc r.rest.length r

def findVm (doc : DidView) (fragment : Bytes) : Option VmRef :=
  doc.vms.find? fun vm => vm.fragment == fragment

def findService (doc : DidView) (fragment : Bytes) : Option SvcRef :=
  doc.services.find? fun svc => svc.fragment == fragment

/-- `data.as_chunks::<32>().0`. -/
def chunks32 (data : Bytes) : List Bytes :=
  (List.range (data.length / 32)).map fun i => (data.drop (32 * i)).take 32

def isNativeController (doc : DidView) (key : Address) : Except Fault Bool := do
  let len ← mulUsize 32 doc.sections.ncCount
  let last ← addUsize doc.sections.ncItems len
  let items ← slice doc.data doc.sections.ncItems last
  pure ((chunks32 items).any fun controller => controller == key.val)

def isAuthority (doc : DidView) (signer : Address) : Bool :=
  doc.vms.any fun vm => vm.isAuthority && vm.key == signer.val

def authorityCount (doc : DidView) : ℕ :=
  doc.vms.countP VmRef.isAuthority

/-- Fragments are unique across verification methods and services together, and
`#default` belongs to the founding method alone. -/
def requireFragmentFree (doc : DidView) (fragment : Bytes) : Except Fault Unit := do
  let taken := (doc.findVm fragment).isSome || (doc.findService fragment).isSome
  require (!taken) .fragmentAlreadyInUse
  require (fragment != defaultFragment) .invalidFragment

/-- The rules a new verification method must pass against the document as it is
now, in the order every path that adds one reports them. -/
def checkNewMethod (doc : DidView) (m : NewMethod) : Except Fault Unit := do
  require (doc.sections.vmCount < maxVerificationMethods) .tooManyVerificationMethods
  require (validFragment m.fragment) .invalidFragment
  doc.requireFragmentFree m.fragment
  require (expectedKeyLen m.methodType == some m.keyLen) .invalidKeyLength
  validateVmFlags m.methodType m.flags

end DidView

/-- Writes a service entry at `pos`. The caller has made room for exactly that
many bytes. -/
def writeService (data : Bytes) (pos : ℕ) (fragment serviceType endpoint : Bytes) :
    Except Fault Bytes := do
  let data ← writeAt data pos (u32Bytes fragment.length)
  let w := pos + 4
  let data ← writeAt data w fragment
  let w := w + fragment.length
  let data ← writeAt data w (u32Bytes serviceType.length)
  let w := w + 4
  let data ← writeAt data w serviceType
  let w := w + serviceType.length
  let data ← writeAt data w (u32Bytes endpoint.length)
  let w := w + 4
  writeAt data w endpoint

/-- Appends a verification method entry to a document whose data has already
grown by the entry's size. `s` is the layout from before the growth. -/
def insertVm (data : Bytes) (s : Sections) (m : NewMethod) (key : Bytes) : Except Fault Bytes := do
  let pos := s.svcCountPos
  let entryLen ← vmSpace m.fragment.length key.length
  let dest ← addUsize pos entryLen
  let data ← copyWithin data pos s.endPos dest
  let data ← writeAt data pos (u32Bytes m.fragment.length)
  let w := pos + 4
  let data ← writeAt data w m.fragment
  let w := w + m.fragment.length
  let data ← writeAt data w [m.methodType]
  let w := w + 1
  let data ← writeAt data w (u16Bytes m.flags)
  let w := w + 2
  let data ← writeAt data w (u32Bytes key.length)
  let w := w + 4
  let data ← writeAt data w key
  let count ← addUsize s.vmCount 1
  writeAt data s.vmCountPos (u32Bytes count)

/-- `version.saturating_add(1)`. -/
def saturatingSucc (version : UInt64) : UInt64 :=
  if version.toNat + 1 < 2 ^ 64 then version + 1 else version

def version (data : Bytes) : Except Fault UInt64 := do
  let field ← slice data offVersion (offVersion + 8)
  pure (UInt64.ofNat (leValue field))

/-- Bump `version`, saturating, and stamp `updated_at`. -/
def touch (data : Bytes) (now : Int64) : Except Fault Bytes := do
  let v ← version data
  let data ← writeAt data offVersion (u64Bytes (saturatingSucc v))
  writeAt data offUpdatedAt (i64Bytes now)

end BioDidRegistry
