import BioDidRegistry.Document.Sizes
import BioDidRegistry.Registry.Making
import BioDidRegistry.Registry.Reference

/-!
# The largest document

A key subject with one authority of its own, fifteen Dilithium5 keys and everything else at
its limit takes exactly the bytes the bound allows. The founder can make that document of
its first one.
-/

namespace BioDidRegistry

open Relation

namespace Largest

/-- A name of the greatest length. -/
def name (kind : UInt8) (i : ℕ) : Bytes := List.replicate 30 97 ++ [kind, 97 + UInt8.ofNat i]

/-- The one authority, which may do nothing but change the document. -/
def authority (subject : Address) : Method :=
  ⟨name 97 0, vmTypeEd25519, vmFlagCapabilityInvocation, subject.val⟩

/-- A method with the longest key. -/
def method (i : ℕ) : Method :=
  ⟨name 109 i, vmTypeDilithium5, vmFlagAuthentication, List.replicate 2592 0⟩

def service (i : ℕ) : Service :=
  ⟨name 115 i, List.replicate maxServiceTypeLen 97, List.replicate maxEndpointLen 97⟩

/-- `did:key:` and an identifier that fills the controller up. -/
def other (i : ℕ) : Bytes :=
  didPrefix ++ [107, 101, 121, 58] ++ List.replicate 119 97 ++ [97 + UInt8.ofNat i]

/-- Eight controllers besides the subject. -/
def natives (subject : Address) : List Address :=
  (((List.range 9).map fun i => Sample.address (UInt8.ofNat i)).erase subject).take 8

/-- The lists at every limit. -/
def body (subject : Address) : Body where
  natives := natives subject
  others := (List.range maxOtherControllers).map other
  methods := authority subject :: (List.range 15).map method
  services := (List.range maxServices).map service

variable {subject : Address}

theorem nodup_addresses :
    ((List.range 9).map fun i => Sample.address (UInt8.ofNat i)).Nodup := by
  decide +kernel

theorem natives_nodup : (natives subject).Nodup ∧ subject ∉ natives subject := by
  refine ⟨?_, ?_⟩
  · exact (nodup_addresses.erase subject).sublist (List.take_sublist ..)
  · intro h
    exact nodup_addresses.not_mem_erase (List.mem_of_mem_take h)

theorem length_natives : (natives subject).length = 8 := by
  have hlen : 8 ≤ (((List.range 9).map fun i => Sample.address (UInt8.ofNat i)).erase
      subject).length := by
    rw [List.length_erase]
    split_ifs <;> simp
  rw [natives, List.length_take]
  omega

theorem authority_wellFormed : (authority subject).WellFormed where
  fragment := validFragment_iff.mp (by decide : validFragment (name 97 0) = true)
  keyLen := Or.inl ⟨rfl, subject.length_eq⟩
  point := by
    intro h
    exact absurd h (by decide : vmTypeEd25519 ≠ vmTypeSecp256k1)
  flags :=
    (by decide : validateVmFlags vmTypeEd25519 vmFlagCapabilityInvocation = .ok ())

theorem isAuthority_authority : (authority subject).isAuthority = true := by
  have hflag : (vmTypeEd25519 == vmTypeEd25519 &&
      hasFlag vmFlagCapabilityInvocation vmFlagCapabilityInvocation) = true := by decide
  exact hflag

theorem validFragment_name {kind : UInt8} (hkind : kind = 109 ∨ kind = 115) {i : ℕ} (hi : i < 16) :
    validFragment (name kind i) = true := by
  rcases hkind with rfl | rfl <;> decide +revert +kernel

theorem method_wellFormed {i : ℕ} (hi : i < 16) : (method i).WellFormed where
  fragment := validFragment_iff.mp (validFragment_name (Or.inl rfl) hi)
  keyLen := Or.inr (Or.inr (Or.inr ⟨rfl, List.length_replicate⟩))
  point := by
    intro h
    exact absurd h (by decide : vmTypeDilithium5 ≠ vmTypeSecp256k1)
  flags := (by decide : validateVmFlags vmTypeDilithium5 vmFlagAuthentication = .ok ())

theorem service_wellFormed {i : ℕ} (hi : i < 16) : (service i).WellFormed where
  fragment := validFragment_iff.mp (validFragment_name (Or.inr rfl) hi)
  serviceType := by
    have hvalid : validUriAscii (List.replicate maxServiceTypeLen 97) maxServiceTypeLen = true := by
      decide +kernel
    exact validUriAscii_iff.mp hvalid
  endpoint := by
    have hvalid : validUriAscii (List.replicate maxEndpointLen 97) maxEndpointLen = true := by
      decide +kernel
    exact validUriAscii_iff.mp hvalid

theorem body_wellFormed : (body subject).WellFormed subject where
  natives_le := length_natives.le
  others_le := by simp [body]
  methods_le := by simp [body, maxVerificationMethods]
  services_le := by simp [body]
  fragments := by
    have hnames : (name 97 0 :: (List.range 15).map (name 109) ++
        (List.range maxServices).map (name 115)).Nodup := by decide +kernel
    simp only [Body.fragments, body, List.map_cons, List.map_map]
    exact hnames
  methods := by
    intro m hm
    rcases List.mem_cons.mp hm with rfl | hm
    · exact authority_wellFormed
    · obtain ⟨i, hi, rfl⟩ := List.mem_map.mp hm
      have hlt := List.mem_range.mp hi
      exact method_wellFormed (by omega)
  services := by
    intro svc hsvc
    obtain ⟨i, hi, rfl⟩ := List.mem_map.mp hsvc
    exact service_wellFormed (List.mem_range.mp hi)
  natives := natives_nodup
  others := by
    have hothers : ((List.range maxOtherControllers).map other).Nodup ∧
        ((List.range maxOtherControllers).map other).all validExternalController = true := by
      decide +kernel
    exact ⟨hothers.1, List.all_eq_true.mp hothers.2⟩

theorem length_flatMap_range {f : ℕ → Bytes} {k : ℕ} (h : ∀ i, (f i).length = k) (n : ℕ) :
    ((List.range n).flatMap f).length = n * k := by
  rw [List.length_flatMap, funext h, List.map_const', List.sum_replicate, List.length_range,
    smul_eq_mul]

theorem length_name (kind : UInt8) (i : ℕ) : (name kind i).length = 32 := by
  simp [name]

theorem length_method (i : ℕ) : (method i).encode.length = 2635 := by
  rw [Method.length_encode]
  simp only [method, length_name, List.length_replicate]

theorem length_authority : (authority subject).encode.length = 75 := by
  rw [Method.length_encode]
  simp only [authority, length_name, subject.length_eq]

theorem length_service (i : ℕ) : (service i).encode.length = 620 := by
  rw [Service.length_encode]
  simp only [service, length_name, List.length_replicate, maxServiceTypeLen, maxEndpointLen]

theorem length_other (i : ℕ) : (Reader.lenPrefix (other i)).length = 132 := by
  simp [other, didPrefix]

theorem length_body : (body subject).encode.length = 50848 := by
  have hothers := length_flatMap_range length_other maxOtherControllers
  have hmethods := length_flatMap_range length_method 15
  have hservices := length_flatMap_range length_service maxServices
  simp only [maxOtherControllers, maxServices] at hothers hservices
  rw [Body.length_encode_eq]
  simp only [body, List.flatMap_cons, List.flatMap_map, List.length_append, length_natives,
    length_authority, maxOtherControllers, maxServices, hothers, hmethods, hservices]

/-- Nobody has to own a Dilithium5 key. -/
theorem admitsKey_method {isCurvePoint : Bytes → Bool} (i : ℕ) :
    Body.admitsKey isCurvePoint subject (method i) = .ok () := by
  have hprotected : (method i).isProtected = false :=
    (by decide : hasFlag vmFlagAuthentication vmFlagProtected = false)
  have htype : (method i).methodType = vmTypeDilithium5 := rfl
  have hother : (vmTypeDilithium5 != vmTypeEd25519) = true ∧
      (vmTypeDilithium5 != vmTypeSecp256k1) = true := by decide
  refine Body.admitsKey_ok_iff.mpr ⟨?_, ?_⟩
  · intro h
    rw [hprotected] at h
    cases h
  · rw [Method.keyAllowed, htype, hother.1, hother.2, Bool.true_or, Bool.true_or, Bool.true_or,
      Bool.true_or, Bool.true_and]

/-- The founder makes them of its first document. -/
theorem made (isCurvePoint : Bytes → Bool) (subject : Address) :
    ReflTransGen (Body.Makes isCurvePoint subject subject) (Body.first subject) (body subject) := by
  apply Body.made_of_wellFormed body_wellFormed rfl isAuthority_authority rfl
  · have hnames : defaultFragment ∉ name 97 0 :: (List.range 15).map (name 109) ++
        (List.range maxServices).map (name 115) := by decide +kernel
    simp only [Body.fragments, body, List.map_cons, List.map_map]
    exact hnames
  · intro m hm
    obtain ⟨i, -, rfl⟩ := List.mem_map.mp hm
    exact admitsKey_method i

end Largest

end BioDidRegistry
