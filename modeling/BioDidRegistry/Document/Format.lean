import BioDidRegistry.Program.Layout

/-!
# The documented layout

A `DidAccount` is the borsh form of a record: a fixed head of 58 bytes and four
counted lists. `encode` writes it. Nothing here follows the parser, so the
theorems that relate the two compare independent definitions. Lengths and
counts are `u32`, and `Fits` says that they stay below `2 ^ 32`.
-/

namespace BioDidRegistry

open BinaryFormat

structure Method where
  fragment : Bytes
  methodType : UInt8
  flags : UInt16
  key : Bytes
  deriving DecidableEq

structure Service where
  fragment : Bytes
  serviceType : Bytes
  endpoint : Bytes
  deriving DecidableEq

/-- The four lists of a document. -/
structure Body where
  natives : List Address
  others : List Bytes
  methods : List Method
  services : List Service
  deriving DecidableEq

/-- Everything a `DidAccount` records. -/
structure Document where
  version : UInt64
  bump : UInt8
  subject : Address
  deactivated : UInt8
  updatedAt : Int64
  body : Body
  deriving DecidableEq

/-- A borsh vector: the count, then every element. -/
def vec {α : Type} (enc : α → Bytes) (xs : List α) : Bytes :=
  u32Bytes xs.length ++ xs.flatMap enc

/-- The entries an iterator returns for `xs`, when the first one begins at
`start` and each begins where the one before it ended. -/
def spans {α γ : Type} (enc : γ → Bytes) (ref : γ → ℕ → α) : ℕ → List γ → List α
  | _, [] => []
  | start, x :: xs => ref x start :: spans enc ref (start + (enc x).length) xs

namespace Method

def encode (m : Method) : Bytes :=
  Reader.lenPrefix m.fragment ++ [m.methodType] ++ u16Bytes m.flags ++ Reader.lenPrefix m.key

def Fits (m : Method) : Prop := m.fragment.length < 2 ^ 32 ∧ m.key.length < 2 ^ 32

instance (m : Method) : Decidable m.Fits := inferInstanceAs (Decidable (_ ∧ _))

@[simp] theorem length_encode (m : Method) :
    m.encode.length = 11 + m.fragment.length + m.key.length := by
  simp [encode]
  omega

/-- An Ed25519 method holding capabilityInvocation. -/
def isAuthority (m : Method) : Bool :=
  m.methodType == vmTypeEd25519 && hasFlag m.flags vmFlagCapabilityInvocation

/-- The method as the iterator returns it when its entry begins at `start`. -/
def ref (m : Method) (start : ℕ) : VmRef where
  fragment := m.fragment
  methodType := m.methodType
  flags := m.flags
  key := m.key
  start := start
  endPos := start + m.encode.length
  flagsPos := start + 5 + m.fragment.length

@[simp] theorem isAuthority_ref (m : Method) (start : ℕ) :
    (m.ref start).isAuthority = m.isAuthority := rfl

end Method

namespace Service

def encode (svc : Service) : Bytes :=
  Reader.lenPrefix svc.fragment ++ Reader.lenPrefix svc.serviceType ++
    Reader.lenPrefix svc.endpoint

def Fits (svc : Service) : Prop :=
  svc.fragment.length < 2 ^ 32 ∧ svc.serviceType.length < 2 ^ 32 ∧ svc.endpoint.length < 2 ^ 32

instance (svc : Service) : Decidable svc.Fits := inferInstanceAs (Decidable (_ ∧ _))

@[simp] theorem length_encode (svc : Service) : svc.encode.length =
    12 + svc.fragment.length + svc.serviceType.length + svc.endpoint.length := by
  simp [encode]
  omega

def ref (svc : Service) (start : ℕ) : SvcRef where
  fragment := svc.fragment
  start := start
  endPos := start + svc.encode.length

end Service

namespace Body

def nativesBytes (b : Body) : Bytes := vec Subtype.val b.natives
def othersBytes (b : Body) : Bytes := vec Reader.lenPrefix b.others
def methodsBytes (b : Body) : Bytes := vec Method.encode b.methods
def servicesBytes (b : Body) : Bytes := vec Service.encode b.services

def encode (b : Body) : Bytes :=
  b.nativesBytes ++ b.othersBytes ++ b.methodsBytes ++ b.servicesBytes

/-- No lists at all, which a tombstone holds. -/
def empty : Body := ⟨[], [], [], []⟩

/-- Counts and lengths are `u32` numbers. -/
structure Fits (b : Body) : Prop where
  natives : b.natives.length < 2 ^ 32
  others : b.others.length < 2 ^ 32 ∧ ∀ o ∈ b.others, o.length < 2 ^ 32
  methods : b.methods.length < 2 ^ 32 ∧ ∀ m ∈ b.methods, m.Fits
  services : b.services.length < 2 ^ 32 ∧ ∀ svc ∈ b.services, svc.Fits

theorem length_encode (b : Body) : b.encode.length =
    b.nativesBytes.length + b.othersBytes.length + b.methodsBytes.length +
      b.servicesBytes.length := by
  simp only [encode, List.length_append]

theorem length_nativesBytes (b : Body) : b.nativesBytes.length = 4 + 32 * b.natives.length := by
  have hflat : (b.natives.flatMap Subtype.val).length = 32 * b.natives.length := by
    induction b.natives with
    | nil => rfl
    | cons a as ih =>
      simp only [List.flatMap_cons, List.length_append, a.length_eq, ih, List.length_cons]
      omega
  simp only [nativesBytes, vec, List.length_append, length_u32Bytes, hflat]

theorem length_encode_eq (b : Body) : b.encode.length =
    16 + 32 * b.natives.length + (b.others.flatMap Reader.lenPrefix).length +
      (b.methods.flatMap Method.encode).length + (b.services.flatMap Service.encode).length := by
  rw [length_encode, length_nativesBytes]
  simp only [othersBytes, methodsBytes, servicesBytes, vec, List.length_append, length_u32Bytes]
  omega

theorem counts_le (b : Body) : 16 ≤ b.encode.length := by
  rw [length_encode_eq]
  omega

section Entries

variable {b : Body}

theorem length_addMethod (b : Body) (m : Method) :
    ({ b with methods := b.methods ++ [m] } : Body).encode.length =
      b.encode.length + m.encode.length := by
  simp only [length_encode_eq, List.flatMap_append, List.flatMap_singleton, List.length_append]
  omega

theorem length_addService (b : Body) (svc : Service) :
    ({ b with services := b.services ++ [svc] } : Body).encode.length =
      b.encode.length + svc.encode.length := by
  simp only [length_encode_eq, List.flatMap_append, List.flatMap_singleton, List.length_append]
  omega

theorem length_replaceMethod {before after : List Method} {m : Method}
    (h : b.methods = before ++ m :: after) (ms : List Method) :
    ({ b with methods := before ++ (ms ++ after) } : Body).encode.length + m.encode.length =
      b.encode.length + (ms.flatMap Method.encode).length := by
  simp only [length_encode_eq, h, List.flatMap_append, List.flatMap_cons, List.length_append]
  omega

theorem length_replaceService {before after : List Service} {svc : Service}
    (h : b.services = before ++ svc :: after) (svcs : List Service) :
    ({ b with services := before ++ (svcs ++ after) } : Body).encode.length + svc.encode.length =
      b.encode.length + (svcs.flatMap Service.encode).length := by
  simp only [length_encode_eq, h, List.flatMap_append, List.flatMap_cons, List.length_append]
  omega

theorem length_removeMethod {before after : List Method} {m : Method}
    (h : b.methods = before ++ m :: after) :
    ({ b with methods := before ++ after } : Body).encode.length + m.encode.length =
      b.encode.length :=
  length_replaceMethod h []

theorem length_removeService {before after : List Service} {svc : Service}
    (h : b.services = before ++ svc :: after) :
    ({ b with services := before ++ after } : Body).encode.length + svc.encode.length =
      b.encode.length :=
  length_replaceService h []

end Entries

/-- Offsets and counts of the sections after a head of 58 bytes. -/
def sections (b : Body) : Sections where
  ncCount := b.natives.length
  ncItems := offSections + 4
  ocCount := b.others.length
  ocCountPos := offSections + b.nativesBytes.length
  ocItems := offSections + b.nativesBytes.length + 4
  vmCount := b.methods.length
  vmCountPos := offSections + b.nativesBytes.length + b.othersBytes.length
  vmItems := offSections + b.nativesBytes.length + b.othersBytes.length + 4
  svcCount := b.services.length
  svcCountPos := offSections + b.nativesBytes.length + b.othersBytes.length +
    b.methodsBytes.length
  svcItems := offSections + b.nativesBytes.length + b.othersBytes.length +
    b.methodsBytes.length + 4
  endPos := offSections + b.encode.length

def vmRefs (b : Body) : List VmRef := spans Method.encode Method.ref b.sections.vmItems b.methods

def svcRefs (b : Body) : List SvcRef :=
  spans Service.encode Service.ref b.sections.svcItems b.services

/-- `signer` is the key of an Ed25519 method carrying capabilityInvocation. -/
def isAuthority (b : Body) (signer : Address) : Bool :=
  b.methods.any fun m => m.isAuthority && m.key == signer.val

/-- Number of Ed25519 methods carrying capabilityInvocation. -/
def authorityCount (b : Body) : ℕ := b.methods.countP Method.isAuthority

end Body

namespace Document

/-- The fixed head: discriminator, version, bump, subject, flag and time. -/
def head (d : Document) : Bytes :=
  accountDiscriminator ++ u64Bytes d.version ++ [d.bump] ++ d.subject.val ++ [d.deactivated] ++
    i64Bytes d.updatedAt

def encode (d : Document) : Bytes := d.head ++ d.body.encode

@[simp] theorem length_head (d : Document) : d.head.length = offSections := by
  simp [head, accountDiscriminator, offSections, d.subject.length_eq]

theorem length_encode (d : Document) : d.encode.length = offSections + d.body.encode.length := by
  simp [encode]

theorem take_head (d : Document) (rest : Bytes) :
    (d.head ++ rest).take 8 = accountDiscriminator := by
  simp [head, accountDiscriminator]

end Document

end BioDidRegistry
