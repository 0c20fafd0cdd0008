import BioDidRegistry.Program.Shared

/-!
# The updates of a DID document

Each handler reads its arguments, checks them against the document under the
signer's authority, and then moves and patches bytes in place. `updateDocument`
is the shape they share. A handler's own parts are `parse`, `check`, which
returns the spans the edit needs, and `commit`, which writes.
-/

namespace BioDidRegistry

open BinaryFormat

variable (P : Platform) (sv : Sysvars)

/-- Reads the arguments, checks them and the signer against the document, writes,
and reports the new version. -/
def updateDocument {α β : Type} (t : Target) (args : Bytes) (parse : Read .args α)
    (check : DidView → α → Except Fault β) (commit : α → β → Exec UInt64) (event : Bytes) :
    Exec Unit := do
  let a ← Reader.eval parse (Reader.new .args args)
  let L ← Exec.ledger
  let doc ← DidView.parse (L t.didAccount.address).data
  authorize P L doc t.authority.address t.controller
  let plan ← check doc a
  let newVersion ← commit a plan
  emit event t.didAccount.address t.subject newVersion

/-- The last writes of every edit: the version and the time are stamped, and the
edited data takes the place of the old. -/
def storeTouched (didAccount : AccountView) (data : Bytes) (now : Int64) : Exec UInt64 := do
  let data ← touch data now
  Exec.store didAccount data
  version data

/-! ### `add_verification_method` -/

namespace AddVerificationMethod

/-- The borsh args are `VerificationMethod { fragment, method_type, flags, key_data }`. -/
def parse : Read .args (NewMethod × Bytes) := do
  let fragment ← Reader.str
  let methodType ← Reader.u8
  let flags ← Reader.u16
  let keyData ← Reader.lenPrefixed
  Reader.finish
  ensure (expectedKeyLen methodType).isSome .invalidInstructionData
  pure (⟨fragment, methodType, flags, keyData.length⟩, keyData)

def check (u : Update) (doc : DidView) (a : NewMethod × Bytes) : Except Fault Sections := do
  doc.checkNewMethod a.1
  checkNewKey P.isCurvePoint a.1 a.2 u.authority.address
  pure doc.sections

def commit (u : Update) (a : NewMethod × Bytes) (s : Sections) : Exec UInt64 := do
  let entryLen ← vmSpace a.1.fragment.length a.2.length
  let newLen ← addUsize s.endPos entryLen
  grow P sv u.didAccount u.payer newLen
  let now ← orFault sv.clock
  let data ← Exec.borrow u.didAccount
  let data ← insertVm data s a.1 a.2
  storeTouched u.didAccount data now

def process (accounts : List AccountView) (args : Bytes) : Exec Unit := do
  let L ← Exec.ledger
  let u ← Update.tryFrom P L accounts
  updateDocument P u.toTarget args parse (check P u) (commit P sv u) didModified

end AddVerificationMethod

/-! ### Removals -/

/-- The entry to cut out, and the count it leaves. -/
structure Removal where
  first : ℕ
  last : ℕ
  oldLen : ℕ
  countPos : ℕ
  count : ℕ

/-- Closes the gap of one entry, patches its section's count and gives the freed
rent back. -/
def removeEntry (u : Update) (r : Removal) : Exec UInt64 := do
  let entryLen ← subUsize r.last r.first
  let now ← orFault sv.clock
  let data ← Exec.borrow u.didAccount
  let data ← copyWithin data r.last r.oldLen r.first
  let count ← subUsize r.count 1
  let data ← writeAt data r.countPos (u32Bytes count)
  let newVersion ← storeTouched u.didAccount data now
  let newLen ← subUsize r.oldLen entryLen
  shrink P sv u.didAccount u.payer newLen
  pure newVersion

def parseFragment : Read .args Bytes := do
  let fragment ← Reader.str
  Reader.finish
  pure fragment

namespace RemoveVerificationMethod

def check (u : Update) (doc : DidView) (fragment : Bytes) : Except Fault Removal := do
  match doc.findVm fragment with
  | none => throw DidError.verificationMethodNotFound.fault
  | some vm =>
    -- Protected methods may only be removed by their own key.
    if hasFlag vm.flags vmFlagProtected then
      require (vm.key == u.authority.address.val) .protectedVerificationMethod
    -- At least one capabilityInvocation Ed25519 key must survive the removal.
    if vm.isAuthority then
      require (1 < doc.authorityCount) .lastAuthority
    let s := doc.sections
    pure ⟨vm.start, vm.endPos, s.endPos, s.vmCountPos, s.vmCount⟩

def process (accounts : List AccountView) (args : Bytes) : Exec Unit := do
  let L ← Exec.ledger
  let u ← Update.tryFrom P L accounts
  updateDocument P u.toTarget args parseFragment (check u) (fun _ => removeEntry P sv u)
    didModified

end RemoveVerificationMethod

namespace RemoveService

def check (doc : DidView) (fragment : Bytes) : Except Fault Removal := do
  match doc.findService fragment with
  | none => throw DidError.serviceNotFound.fault
  | some svc =>
    let s := doc.sections
    pure ⟨svc.start, svc.endPos, s.endPos, s.svcCountPos, s.svcCount⟩

def process (accounts : List AccountView) (args : Bytes) : Exec Unit := do
  let L ← Exec.ledger
  let u ← Update.tryFrom P L accounts
  updateDocument P u.toTarget args parseFragment check (fun _ => removeEntry P sv u) didModified

end RemoveService

/-! ### `set_verification_method_flags` -/

namespace SetVerificationMethodFlags

def parse : Read .args (Bytes × UInt16) := do
  let fragment ← Reader.str
  let newFlags ← Reader.u16
  Reader.finish
  pure (fragment, newFlags)

def check (t : Target) (doc : DidView) (a : Bytes × UInt16) : Except Fault ℕ := do
  match doc.findVm a.1 with
  | none => throw DidError.verificationMethodNotFound.fault
  | some vm =>
    -- Changing a protected method, or granting or revoking protection, requires
    -- the method's own key as authority.
    if hasFlag (vm.flags ||| a.2) vmFlagProtected then
      require (vm.key == t.authority.address.val) .protectedVerificationMethod
    validateVmFlags vm.methodType a.2
    let staysAuthority := hasFlag a.2 vmFlagCapabilityInvocation
    if vm.isAuthority && !staysAuthority then
      require (1 < doc.authorityCount) .lastAuthority
    pure vm.flagsPos

def commit (t : Target) (a : Bytes × UInt16) (flagsPos : ℕ) : Exec UInt64 := do
  let now ← orFault sv.clock
  let data ← Exec.borrow t.didAccount
  let data ← writeAt data flagsPos (u16Bytes a.2)
  storeTouched t.didAccount data now

/-- `[authority, did_account, rest @ ..]`, the one update without a payer. -/
def target (L : Ledger) : List AccountView → Except Fault Target
  | authority :: didAccount :: rest => do
    checkAuthoritySigner authority
    let subject ← verifyDidAccount P L didAccount
    pure { authority, didAccount, controller := rest.head?, subject }
  | _ => .error (.program .notEnoughAccountKeys)

def process (accounts : List AccountView) (args : Bytes) : Exec Unit := do
  let L ← Exec.ledger
  let t ← target P L accounts
  updateDocument P t args parse (check t) (commit sv t) didModified

end SetVerificationMethodFlags

/-! ### Services -/

/-- The borsh args are `Service { fragment, service_type, endpoint }`. -/
structure ServiceArgs where
  fragment : Bytes
  serviceType : Bytes
  endpoint : Bytes
  deriving DecidableEq

def parseService : Read .args ServiceArgs := do
  let fragment ← Reader.str
  let serviceType ← Reader.str
  let endpoint ← Reader.str
  Reader.finish
  pure ⟨fragment, serviceType, endpoint⟩

def checkServiceValues (a : ServiceArgs) : Except Fault Unit := do
  require (validUriAscii a.serviceType maxServiceTypeLen) .invalidServiceValue
  require (validUriAscii a.endpoint maxEndpointLen) .invalidServiceValue

namespace AddService

def parse : Read .args (ServiceArgs × ℕ) := do
  let a ← parseService
  let entryLen ← serviceSpace a.fragment.length a.serviceType.length a.endpoint.length
  pure (a, entryLen)

def check (doc : DidView) (a : ServiceArgs × ℕ) : Except Fault Sections := do
  let s := doc.sections
  require (s.svcCount < maxServices) .tooManyServices
  require (validFragment a.1.fragment) .invalidFragment
  doc.requireFragmentFree a.1.fragment
  checkServiceValues a.1
  pure s

def commit (u : Update) (a : ServiceArgs × ℕ) (s : Sections) : Exec UInt64 := do
  let newLen ← addUsize s.endPos a.2
  grow P sv u.didAccount u.payer newLen
  let now ← orFault sv.clock
  let data ← Exec.borrow u.didAccount
  let data ← writeService data s.endPos a.1.fragment a.1.serviceType a.1.endpoint
  let count ← addUsize s.svcCount 1
  let data ← writeAt data s.svcCountPos (u32Bytes count)
  storeTouched u.didAccount data now

def process (accounts : List AccountView) (args : Bytes) : Exec Unit := do
  let L ← Exec.ledger
  let u ← Update.tryFrom P L accounts
  updateDocument P u.toTarget args parse check (commit P sv u) didModified

end AddService

namespace UpdateService

/-- The entry to replace, in a document of `oldLen` bytes. -/
structure Replacement where
  start : ℕ
  last : ℕ
  oldLen : ℕ

def check (doc : DidView) (a : ServiceArgs) : Except Fault Replacement := do
  match doc.findService a.fragment with
  | none => throw DidError.serviceNotFound.fault
  | some svc =>
    checkServiceValues a
    pure ⟨svc.start, svc.endPos, doc.sections.endPos⟩

def commit (u : Update) (a : ServiceArgs) (r : Replacement) : Exec UInt64 := do
  let entryLen ← serviceSpace a.fragment.length a.serviceType.length a.endpoint.length
  let entryEnd ← addUsize r.start entryLen
  let n ← subUsize r.oldLen r.last
  let newLen ← addUsize n entryEnd
  if r.oldLen < newLen then
    grow P sv u.didAccount u.payer newLen
  let now ← orFault sv.clock
  let data ← Exec.borrow u.didAccount
  let data ← copyWithin data r.last r.oldLen entryEnd
  let data ← writeService data r.start a.fragment a.serviceType a.endpoint
  let newVersion ← storeTouched u.didAccount data now
  if newLen < r.oldLen then
    shrink P sv u.didAccount u.payer newLen
  pure newVersion

def process (accounts : List AccountView) (args : Bytes) : Exec Unit := do
  let L ← Exec.ledger
  let u ← Update.tryFrom P L accounts
  updateDocument P u.toTarget args parseService check (commit P sv u) didModified

end UpdateService

/-! ### `set_controllers` -/

namespace SetControllers

/-- `slots[i] = x`. -/
def setSlot (slots : List Bytes) (i : ℕ) (x : Bytes) : Except Fault (List Bytes) :=
  if i < slots.length then .ok (slots.set i x) else .error .panic

/-- `slots[..n]`. -/
def firstSlots (slots : List Bytes) (n : ℕ) : Except Fault (List Bytes) :=
  if n ≤ slots.length then .ok (slots.take n) else .error .panic

/-- The counts, the two arrays with the entries in front, and the length of the encoding. -/
structure Args where
  nativeCount : ℕ
  natives : List Bytes
  otherCount : ℕ
  others : List Bytes
  sectionsLen : ℕ

/-- Reads the `n` entries from number `i` on into the array. The loop runs for the full
count, even above the storable maximum, since it moves the cursor. -/
def readSlots (p : Read .args Bytes) (overflow : Bool) :
    ℕ → ℕ → List Bytes → Read .args (List Bytes)
  | 0, _, slots => pure slots
  | n + 1, i, slots => do
    let x ← p
    if overflow then readSlots p overflow n (i + 1) slots
    else
      let slots ← setSlot slots i x
      readSlots p overflow n (i + 1) slots

def parse : Read .args Args := do
  let nativeCount ← Reader.u32
  let natives ← readSlots (Reader.bytes 32) (maxNativeControllers < nativeCount.toNat)
    nativeCount.toNat 0 (List.replicate maxNativeControllers [])
  let otherCount ← Reader.u32
  let others ← readSlots Reader.str (maxOtherControllers < otherCount.toNat)
    otherCount.toNat 0 (List.replicate maxOtherControllers [])
  let sectionsLen ← Reader.offset
  Reader.finish
  pure ⟨nativeCount.toNat, natives, otherCount.toNat, others, sectionsLen⟩

/-- Each entry must be acceptable and differ from those before it, `seen`. -/
def checkEntries {α : Type} [DecidableEq α] (ok : α → Bool) (seen : List α) :
    List α → Except Fault Unit
  | [] => pure ()
  | x :: xs => do
    require (ok x) .invalidController
    require (!seen.contains x) .invalidController
    checkEntries ok (seen ++ [x]) xs

/-- Where the old sections end, in a document of `oldLen` bytes. -/
structure Tail where
  oldLen : ℕ
  start : ℕ

def check (subject : Address) (doc : DidView) (a : Args) : Except Fault Tail := do
  let s := doc.sections
  let nativeOverflow := maxNativeControllers < a.nativeCount
  let otherOverflow := maxOtherControllers < a.otherCount
  require (!nativeOverflow && !otherOverflow) .tooManyControllers
  -- No self-control loops, no duplicates.
  let natives ← firstSlots a.natives a.nativeCount
  checkEntries (fun key => key != subject.val) [] natives
  -- `did:bio` controllers must use the native form.
  let others ← firstSlots a.others a.otherCount
  checkEntries validExternalController [] others
  pure ⟨s.endPos, s.vmCountPos⟩

/-- The edit in data that already has room for it. -/
def edit (u : Update) (args : Bytes) (a : Args) (tail : Tail) (now : Int64) : Exec UInt64 := do
  let data ← Exec.borrow u.didAccount
  let dest ← addUsize offSections a.sectionsLen
  let data ← copyWithin data tail.start tail.oldLen dest
  let sections ← slice args 0 a.sectionsLen
  let data ← writeAt data offSections sections
  storeTouched u.didAccount data now

def commit (u : Update) (args : Bytes) (a : Args) (tail : Tail) : Exec UInt64 := do
  let oldSectionsLen ← subUsize tail.start offSections
  let n ← subUsize tail.oldLen oldSectionsLen
  let newLen ← addUsize n a.sectionsLen
  let now ← orFault sv.clock
  if oldSectionsLen < a.sectionsLen then do
    grow P sv u.didAccount u.payer newLen
    edit u args a tail now
  else do
    let newVersion ← edit u args a tail now
    if newLen < tail.oldLen then
      shrink P sv u.didAccount u.payer newLen
    pure newVersion

def process (accounts : List AccountView) (args : Bytes) : Exec Unit := do
  let L ← Exec.ledger
  let u ← Update.tryFrom P L accounts
  updateDocument P u.toTarget args parse (check u.subject) (commit P sv u args) didModified

end SetControllers

/-! ### `deactivate` -/

namespace Deactivate

/-- The account is shrunk to a tombstone that keeps `deactivated` forever. -/
def commit (u : Update) : Exec UInt64 := do
  let now ← orFault sv.clock
  let data ← Exec.borrow u.didAccount
  let data ← writeAt data offDeactivated [1]
  -- Empty all four vectors, so the 16 count bytes become the whole tail.
  let data ← writeAt data offSections (List.replicate (tombstoneSpace - offSections) 0)
  let newVersion ← storeTouched u.didAccount data now
  shrink P sv u.didAccount u.payer tombstoneSpace
  pure newVersion

def process (accounts : List AccountView) (args : Bytes) : Exec Unit := do
  let L ← Exec.ledger
  let u ← Update.tryFrom P L accounts
  updateDocument P u.toTarget args Reader.finish (fun _ _ => pure ()) (fun _ _ => commit P sv u)
    didDeactivated

end Deactivate

end BioDidRegistry
