import BioDidRegistry.Document.Authority
import BioDidRegistry.Document.Edits
import BioDidRegistry.Document.WellFormed

/-!
# The sizes of documents

A document with an authority has one method with a short key, which takes 75 bytes at most.
With that, the limits on counts and values bound the lists to 50 848 bytes. An accepted
update adds one entry of at most 2 635 bytes, or it replaces values by others that are
longer by less.
-/

namespace BioDidRegistry

theorem Method.WellFormed.length_encode_le_of_authority {m : Method} (h : m.WellFormed)
    (hauthority : m.isAuthority = true) : m.encode.length ≤ 75 := by
  have hfragment := h.fragment.1.2
  have hkey := h.length_key (methodType_of_isAuthority hauthority)
  rw [Method.length_encode]
  omega

namespace Body

section Bounds

variable {subject : Address} {b : Body} (h : b.WellFormed subject)

include h

/-- Fifteen methods may have the longest key, but not the authority. -/
theorem WellFormed.length_methods_le (hpos : 0 < b.authorityCount) :
    (b.methods.flatMap Method.encode).length ≤ 15 * 2635 + 75 := by
  obtain ⟨m, hm, hauthority⟩ := List.countP_pos_iff.mp hpos
  obtain ⟨before, after, hsplit⟩ := List.append_of_mem hm
  have hcount := h.methods_le
  have hlong (ms : List Method) (hms : ∀ x ∈ ms, x ∈ b.methods) :
      (ms.flatMap Method.encode).length ≤ ms.length * 2635 := by
    apply length_flatMap_le
    intro x hx
    exact (h.methods x (hms x hx)).length_encode_le
  have hbefore := hlong before (by simp [hsplit]; tauto)
  have hafter := hlong after (by simp [hsplit]; tauto)
  have hshort := (h.methods m hm).length_encode_le_of_authority hauthority
  rw [hsplit] at hcount ⊢
  simp only [maxVerificationMethods, List.length_append, List.length_cons] at hcount
  rw [List.flatMap_append, List.flatMap_cons, List.length_append, List.length_append]
  omega

theorem WellFormed.length_le_of_authority (hpos : 0 < b.authorityCount) :
    b.encode.length ≤ 50848 := by
  have hnatives := h.natives_le
  have hothers := length_others_le h.others_le h.others.2
  have hmethods := h.length_methods_le hpos
  have hservices := h.length_services_le
  simp only [maxNativeControllers] at hnatives
  rw [length_encode_eq]
  omega

end Bounds

/-! ### Growth -/

variable {isCurvePoint : Bytes → Bool} {signer subject : Address} {b b' : Body} {op : Op}

/-- One case for each update. -/
theorem length_apply_le (h : b.apply isCurvePoint signer subject op = .ok b') :
    b'.encode.length ≤ b.encode.length + 2635 := by
  cases op with
  | addVm m =>
    obtain ⟨hm, hkey, rfl⟩ := addVm_ok_iff.mp h
    have hlen := (wellFormed_of_admits hm hkey).length_encode_le
    rw [length_addMethod]
    omega
  | removeVm fragment =>
    obtain ⟨before, m, after, hsplit, -, -, -, rfl⟩ := removeVm_ok h
    have hlen := length_removeMethod hsplit
    omega
  | setFlags fragment flags =>
    have hlen := length_setFlags h
    omega
  | addService svc =>
    obtain ⟨⟨-, hfragment, -, -, hvalues⟩, rfl⟩ := addService_ok_iff.mp h
    have hlen := (Service.wellFormed_of_values hfragment hvalues).length_encode_le
    rw [length_addService]
    omega
  | updateService svc =>
    obtain ⟨before, old, after, hsplit, hname, hvalues, rfl⟩ := updateService_ok h
    simp only [Service.valuesAllowed, Bool.and_eq_true] at hvalues
    have htype := (validUriAscii_iff.mp hvalues.1).1.2
    have hendpoint := (validUriAscii_iff.mp hvalues.2).1.2
    have hlen := length_replaceService hsplit [svc]
    simp only [maxServiceTypeLen, maxEndpointLen] at htype hendpoint
    simp only [List.flatMap_singleton, List.singleton_append, Service.length_encode, hname] at hlen
    omega
  | removeService fragment =>
    obtain ⟨before, svc, after, hsplit, -, rfl⟩ := removeService_ok h
    have hlen := length_removeService hsplit
    omega
  | setControllers natives others =>
    obtain ⟨⟨⟨hnatives, hcount⟩, -, -, hvalid⟩, rfl⟩ := setControllers_ok_iff.mp h
    have hothers := length_others_le hcount hvalid
    simp only [maxNativeControllers] at hnatives
    simp only [length_encode_eq]
    omega
  | deactivate =>
    cases h
    have hlen := b.counts_le
    have hempty : empty.encode.length = 16 := rfl
    omega

end Body

end BioDidRegistry
