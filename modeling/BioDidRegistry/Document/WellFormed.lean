import BioDidRegistry.Document.Verdicts

/-!
# Well-formed documents

The limits and value rules a stored document obeys as a whole. The initial
document is well formed, and every accepted update of a well-formed document
leaves one, so no update has to look at the parts it does not touch.
-/

namespace BioDidRegistry

theorem validateVmFlags_ok_iff {methodType : UInt8} {flags : UInt16} {u : Unit} :
    validateVmFlags methodType flags = .ok u ↔ flagsAllowed methodType flags = true := by
  rw [validateVmFlags_eq, require_eq_ok]

/-! ### Values -/

/-- One to 32 letters, digits, underscores and hyphens. -/
def IsFragment (fragment : Bytes) : Prop :=
  (1 ≤ fragment.length ∧ fragment.length ≤ 32) ∧ ∀ b ∈ fragment,
    (97 ≤ b ∧ b ≤ 122) ∨ (65 ≤ b ∧ b ≤ 90) ∨ (48 ≤ b ∧ b ≤ 57) ∨ b = 95 ∨ b = 45

/-- One to `n` characters from `!` to `~`. -/
def IsPrintable (n : ℕ) (value : Bytes) : Prop :=
  (1 ≤ value.length ∧ value.length ≤ n) ∧ ∀ b ∈ value, 33 ≤ b ∧ b ≤ 126

/-- `n` is the length of a key of the type: Ed25519, X25519, secp256k1, Dilithium5. -/
def IsKeyLen (methodType : UInt8) (n : ℕ) : Prop :=
  (methodType = 0 ∧ n = 32) ∨ (methodType = 1 ∧ n = 32) ∨ (methodType = 2 ∧ n = 33) ∨
    (methodType = 3 ∧ n = 2592)

instance (fragment : Bytes) : Decidable (IsFragment fragment) :=
  inferInstanceAs (Decidable (_ ∧ ∀ b ∈ fragment, _))

instance (n : ℕ) (value : Bytes) : Decidable (IsPrintable n value) :=
  inferInstanceAs (Decidable (_ ∧ ∀ b ∈ value, _))

instance (methodType : UInt8) (n : ℕ) : Decidable (IsKeyLen methodType n) :=
  inferInstanceAs (Decidable (_ ∨ _))

theorem validFragment_iff {fragment : Bytes} :
    validFragment fragment = true ↔ IsFragment fragment := by
  simp only [validFragment, isAsciiAlphanumeric, isAsciiLowercase,
    isAsciiUppercase, isAsciiDigit, IsFragment, Bool.and_eq_true, Bool.or_eq_true,
    Bool.not_eq_true', List.isEmpty_eq_false_iff_exists_mem, decide_eq_true_eq, List.all_eq_true,
    beq_iff_eq, List.length_pos_iff_exists_mem, Nat.succ_le_iff, or_assoc]
  exact Iff.rfl

theorem validUriAscii_iff {value : Bytes} {n : ℕ} :
    validUriAscii value n = true ↔ IsPrintable n value := by
  simp only [validUriAscii, IsPrintable, Bool.and_eq_true, Bool.not_eq_true',
    List.isEmpty_eq_false_iff_exists_mem, decide_eq_true_eq, List.all_eq_true,
    List.length_pos_iff_exists_mem, Nat.succ_le_iff]

theorem expectedKeyLen_eq_some_iff {methodType : UInt8} {n : ℕ} :
    expectedKeyLen methodType = some n ↔ IsKeyLen methodType n := by
  unfold expectedKeyLen IsKeyLen vmTypeEd25519 vmTypeX25519 vmTypeSecp256k1 vmTypeDilithium5
  grind

/-- What every stored method satisfies. -/
structure Method.WellFormed (m : Method) : Prop where
  fragment : IsFragment m.fragment
  keyLen : IsKeyLen m.methodType m.key.length
  /-- A compressed secp256k1 point begins with its parity. -/
  point : m.methodType = vmTypeSecp256k1 → m.key.head? = some 0x02 ∨ m.key.head? = some 0x03
  flags : validateVmFlags m.methodType m.flags = .ok ()

theorem Method.methodType_of_isAuthority {m : Method} (h : m.isAuthority = true) :
    m.methodType = vmTypeEd25519 := by
  simp only [isAuthority, Bool.and_eq_true, beq_iff_eq] at h
  exact h.1

theorem Method.WellFormed.length_key {m : Method} (h : m.WellFormed)
    (htype : m.methodType = vmTypeEd25519) : m.key.length = 32 := by
  have hlen := h.keyLen
  rw [htype] at hlen
  exact (Option.some.inj (expectedKeyLen_eq_some_iff.mpr hlen)).symm

/-- An Ed25519 key can sign. -/
theorem Method.WellFormed.exists_signer {m : Method} (h : m.WellFormed)
    (htype : m.methodType = vmTypeEd25519) : ∃ signer : Address, m.key = signer.val :=
  ⟨⟨m.key, h.length_key htype⟩, rfl⟩

/-- What every stored service satisfies. -/
structure Service.WellFormed (svc : Service) : Prop where
  fragment : IsFragment svc.fragment
  serviceType : IsPrintable 64 svc.serviceType
  endpoint : IsPrintable 512 svc.endpoint

namespace Body

/-- The fragments of methods and services together. -/
def fragments (b : Body) : List Bytes :=
  b.methods.map Method.fragment ++ b.services.map Service.fragment

/-- What the lists of the DID of `subject` satisfy. -/
structure WellFormed (subject : Address) (b : Body) : Prop where
  natives_le : b.natives.length ≤ maxNativeControllers
  others_le : b.others.length ≤ maxOtherControllers
  methods_le : b.methods.length ≤ maxVerificationMethods
  services_le : b.services.length ≤ maxServices
  fragments : b.fragments.Nodup
  methods : ∀ m ∈ b.methods, m.WellFormed
  services : ∀ svc ∈ b.services, svc.WellFormed
  natives : b.natives.Nodup ∧ subject ∉ b.natives
  others : b.others.Nodup ∧ ∀ o ∈ b.others, validExternalController o = true

end Body

/-- What every stored document satisfies. -/
structure Document.WellFormed (d : Document) : Prop where
  body : d.body.WellFormed d.subject
  deactivated : d.deactivated = 0 ∨ d.deactivated = 1 ∧ d.body = Body.empty

/-! ### Sizes -/

theorem length_le_of_validExternalController {value : Bytes}
    (h : validExternalController value = true) : value.length ≤ 128 := by
  unfold validExternalController at h
  split at h
  · cases h
  · rename_i huri
    have hprintable : IsPrintable maxControllerLen value :=
      validUriAscii_iff.mp (by simpa using huri)
    exact hprintable.1.2

/-- The longest key is that of Dilithium5. -/
theorem IsKeyLen.le {methodType : UInt8} {n : ℕ} (h : IsKeyLen methodType n) : n ≤ 2592 := by
  unfold IsKeyLen at h
  omega

theorem length_flatMap_le {γ : Type} {enc : γ → Bytes} {k : ℕ} {xs : List γ}
    (h : ∀ x ∈ xs, (enc x).length ≤ k) : (xs.flatMap enc).length ≤ xs.length * k := by
  induction xs with
  | nil => simp
  | cons x xs ih =>
    obtain ⟨hx, hxs⟩ := List.forall_mem_cons.mp h
    have hrest := ih hxs
    rw [List.flatMap_cons, List.length_append, List.length_cons, Nat.succ_mul]
    omega

theorem Method.WellFormed.length_encode_le {m : Method} (h : m.WellFormed) :
    m.encode.length ≤ 2635 := by
  have hfragment := h.fragment.1.2
  have hkey := h.keyLen.le
  rw [Method.length_encode]
  omega

theorem Service.WellFormed.length_encode_le {svc : Service} (h : svc.WellFormed) :
    svc.encode.length ≤ 620 := by
  have hfragment := h.fragment.1.2
  have htype := h.serviceType.1.2
  have hendpoint := h.endpoint.1.2
  rw [Service.length_encode]
  omega

theorem Body.length_others_le {others : List Bytes} (hlen : others.length ≤ maxOtherControllers)
    (hvalid : ∀ o ∈ others, validExternalController o = true) :
    (others.flatMap Reader.lenPrefix).length ≤ 1056 := by
  have heach : (others.flatMap Reader.lenPrefix).length ≤ others.length * 132 := by
    apply length_flatMap_le
    intro o ho
    have hle := length_le_of_validExternalController (hvalid o ho)
    rw [Reader.length_lenPrefix]
    omega
  simp only [maxOtherControllers] at hlen
  omega

namespace Body.WellFormed

variable {subject : Address} {b : Body} (h : b.WellFormed subject)

include h

theorem fits : b.Fits where
  natives := by
    have := h.natives_le
    simp only [maxNativeControllers] at this
    omega
  others := by
    have := h.others_le
    simp only [maxOtherControllers] at this
    refine ⟨by omega, fun o ho => ?_⟩
    have := length_le_of_validExternalController (h.others.2 o ho)
    omega
  methods := by
    have := h.methods_le
    simp only [maxVerificationMethods] at this
    refine ⟨by omega, fun m hm => ?_⟩
    have hlen := (h.methods m hm).length_encode_le
    rw [Method.length_encode] at hlen
    exact ⟨by omega, by omega⟩
  services := by
    have := h.services_le
    simp only [maxServices] at this
    refine ⟨by omega, fun svc hsvc => ?_⟩
    have hlen := (h.services svc hsvc).length_encode_le
    rw [Service.length_encode] at hlen
    exact ⟨by omega, by omega, by omega⟩

theorem length_services_le : (b.services.flatMap Service.encode).length ≤ 16 * 620 := by
  have heach : (b.services.flatMap Service.encode).length ≤ b.services.length * 620 :=
    length_flatMap_le fun svc hsvc => (h.services svc hsvc).length_encode_le
  exact heach.trans (Nat.mul_le_mul_right 620 h.services_le)

/-- The largest document there is takes 53 408 bytes after its head. -/
theorem length_encode_le : b.encode.length ≤ 53408 := by
  have hnatives := h.natives_le
  have hmethods := h.methods_le
  simp only [maxNativeControllers, maxVerificationMethods] at hnatives hmethods
  have ho := length_others_le h.others_le h.others.2
  have hm : (b.methods.flatMap Method.encode).length ≤ b.methods.length * 2635 :=
    length_flatMap_le fun m hm => (h.methods m hm).length_encode_le
  have hs := h.length_services_le
  rw [Body.length_encode_eq]
  omega

end Body.WellFormed

namespace Document.WellFormed

variable {d : Document} (h : d.WellFormed)

include h

theorem fits : d.body.Fits := h.body.fits

theorem length_encode_le : d.encode.length ≤ maxPermittedDataLength := by
  have := h.body.length_encode_le
  simp only [Document.length_encode, offSections, maxPermittedDataLength]
  omega

/-- No slice is ever as long as `isize::MAX`, and a document is far from it. -/
theorem length_lt : d.encode.length < 2 ^ 63 := h.length_encode_le.trans_lt (by decide)

end Document.WellFormed

/-! ### Updates keep documents well formed -/

theorem Service.wellFormed_of_values {svc : Service} (hfragment : validFragment svc.fragment = true)
    (hvalues : svc.valuesAllowed = true) : svc.WellFormed := by
  simp only [Service.valuesAllowed, Bool.and_eq_true] at hvalues
  exact ⟨validFragment_iff.mp hfragment, validUriAscii_iff.mp hvalues.1,
    validUriAscii_iff.mp hvalues.2⟩

theorem Body.empty_wellFormed (subject : Address) : Body.empty.WellFormed subject where
  natives_le := Nat.zero_le _
  others_le := Nat.zero_le _
  methods_le := Nat.zero_le _
  services_le := Nat.zero_le _
  fragments := List.nodup_nil
  methods := by simp [Body.empty]
  services := by simp [Body.empty]
  natives := by simp [Body.empty]
  others := by simp [Body.empty]

theorem Body.taken_eq_false_iff {b : Body} {fragment : Bytes} :
    b.taken fragment = false ↔ fragment ∉ b.fragments := by
  simp [Body.taken, Body.fragments]

namespace Body

variable {isCurvePoint : Bytes → Bool} {signer subject : Address} {b b' : Body}

theorem wellFormed_of_admits {m : Method} {u w : Unit} (hm : b.admits m.toNew = .ok u)
    (hkey : admitsKey isCurvePoint signer m = .ok w) : m.WellFormed := by
  obtain ⟨-, hfragment, -, -, hlen, hflags⟩ := admits_ok_iff.mp hm
  obtain ⟨-, hallowed⟩ := admitsKey_ok_iff.mp hkey
  refine ⟨validFragment_iff.mp hfragment, expectedKeyLen_eq_some_iff.mp hlen, fun htype => ?_,
    validateVmFlags_ok_iff.mpr hflags⟩
  simpa [Method.keyAllowed, htype, vmTypeSecp256k1, vmTypeEd25519] using hallowed

theorem WellFormed.addVm {m : Method} (h : b.WellFormed subject)
    (happly : addVm isCurvePoint signer m b = .ok b') : b'.WellFormed subject := by
  obtain ⟨hm, hkey, rfl⟩ := addVm_ok_iff.mp happly
  obtain ⟨hcount, -, htaken, -⟩ := admits_ok_iff.mp hm
  have hfresh : m.fragment ∉ b.fragments := taken_eq_false_iff.mp htaken
  refine { h with methods_le := ?_, fragments := ?_, methods := ?_ }
  · rw [List.length_append]
    exact hcount
  · have hperm : (m.fragment :: b.fragments).Perm
        ((b.methods ++ [m]).map Method.fragment ++ b.services.map Service.fragment) := by
      rw [List.map_append, List.append_assoc]
      exact List.perm_middle.symm
    exact hperm.nodup_iff.mp (List.nodup_cons.mpr ⟨hfresh, h.fragments⟩)
  · intro x hx
    rcases List.mem_append.mp hx with hx | hx
    · exact h.methods x hx
    · rw [List.mem_singleton.mp hx]
      exact wellFormed_of_admits hm hkey

theorem WellFormed.removeVm {fragment : Bytes} (h : b.WellFormed subject)
    (happly : removeVm signer fragment b = .ok b') : b'.WellFormed subject := by
  obtain ⟨before, m, after, hsplit, -, -, -, rfl⟩ := removeVm_ok happly
  have hsub : (before ++ after).Sublist b.methods := by
    rw [hsplit]
    exact (List.Sublist.refl before).append (List.sublist_cons_self m after)
  refine { h with methods_le := ?_, fragments := ?_, methods := ?_ }
  · exact hsub.length_le.trans h.methods_le
  · exact h.fragments.sublist ((hsub.map Method.fragment).append (List.Sublist.refl _))
  · intro x hx
    exact h.methods x (hsub.subset hx)

theorem WellFormed.setFlags {fragment : Bytes} {flags : UInt16} (h : b.WellFormed subject)
    (happly : setFlags signer fragment flags b = .ok b') : b'.WellFormed subject := by
  obtain ⟨before, m, after, hsplit, -, -, hflags, -, rfl⟩ := setFlags_ok happly
  have hm := h.methods m (by simp [hsplit])
  refine { h with methods_le := ?_, fragments := ?_, methods := ?_ }
  · simpa [hsplit] using h.methods_le
  · have hnodup := h.fragments
    simp only [Body.fragments, hsplit, List.map_append, List.map_cons] at hnodup ⊢
    exact hnodup
  · intro x hx
    rcases List.mem_append.mp hx with hx | hx
    · exact h.methods x (by simp [hsplit, hx])
    · rcases List.mem_cons.mp hx with rfl | hx
      · exact { hm with flags := validateVmFlags_ok_iff.mpr hflags }
      · exact h.methods x (by simp [hsplit, hx])

theorem WellFormed.addService {svc : Service} (h : b.WellFormed subject)
    (happly : addService svc b = .ok b') : b'.WellFormed subject := by
  obtain ⟨⟨hcount, hfragment, htaken, -, hvalues⟩, rfl⟩ := addService_ok_iff.mp happly
  have hfresh : svc.fragment ∉ b.fragments := taken_eq_false_iff.mp htaken
  have hsvc : svc.WellFormed := Service.wellFormed_of_values hfragment hvalues
  refine { h with services_le := ?_, fragments := ?_, services := ?_ }
  · rw [List.length_append]
    exact hcount
  · have hperm : (svc.fragment :: b.fragments).Perm
        (b.methods.map Method.fragment ++ (b.services ++ [svc]).map Service.fragment) := by
      rw [List.map_append, ← List.append_assoc]
      exact (List.perm_append_singleton _ _).symm
    exact hperm.nodup_iff.mp (List.nodup_cons.mpr ⟨hfresh, h.fragments⟩)
  · intro x hx
    rcases List.mem_append.mp hx with hx | hx
    · exact h.services x hx
    · rw [List.mem_singleton.mp hx]
      exact hsvc

theorem WellFormed.updateService {svc : Service} (h : b.WellFormed subject)
    (happly : updateService svc b = .ok b') : b'.WellFormed subject := by
  obtain ⟨before, old, after, hsplit, hname, hvalues, rfl⟩ := updateService_ok happly
  have hold := h.services old (by simp [hsplit])
  have hfragment := validFragment_iff.mpr hold.fragment
  rw [hname] at hfragment
  have hsvc : svc.WellFormed := Service.wellFormed_of_values hfragment hvalues
  refine { h with services_le := ?_, fragments := ?_, services := ?_ }
  · simpa [hsplit] using h.services_le
  · have hnodup := h.fragments
    simp only [Body.fragments, hsplit, List.map_append, List.map_cons, hname] at hnodup ⊢
    exact hnodup
  · intro x hx
    rcases List.mem_append.mp hx with hx | hx
    · exact h.services x (by simp [hsplit, hx])
    · rcases List.mem_cons.mp hx with rfl | hx
      · exact hsvc
      · exact h.services x (by simp [hsplit, hx])

theorem WellFormed.removeService {fragment : Bytes} (h : b.WellFormed subject)
    (happly : removeService fragment b = .ok b') : b'.WellFormed subject := by
  obtain ⟨before, svc, after, hsplit, -, rfl⟩ := removeService_ok happly
  have hsub : (before ++ after).Sublist b.services := by
    rw [hsplit]
    exact (List.Sublist.refl before).append (List.sublist_cons_self svc after)
  refine { h with services_le := ?_, fragments := ?_, services := ?_ }
  · exact hsub.length_le.trans h.services_le
  · exact h.fragments.sublist ((List.Sublist.refl _).append (hsub.map Service.fragment))
  · intro x hx
    exact h.services x (hsub.subset hx)

theorem WellFormed.setControllers {natives : List Address} {others : List Bytes}
    (h : b.WellFormed subject) (happly : setControllers subject natives others b = .ok b') :
    b'.WellFormed subject := by
  obtain ⟨⟨⟨hnatives, hothers⟩, hself, hvalid⟩, rfl⟩ := setControllers_ok_iff.mp happly
  exact { h with natives_le := hnatives, others_le := hothers, natives := hself, others := hvalid }

/-- One case for each update. -/
theorem WellFormed.apply {op : Op} (h : b.WellFormed subject)
    (happly : b.apply isCurvePoint signer subject op = .ok b') : b'.WellFormed subject := by
  cases op with
  | addVm m => exact h.addVm happly
  | removeVm fragment => exact h.removeVm happly
  | setFlags fragment flags => exact h.setFlags happly
  | addService svc => exact h.addService happly
  | updateService svc => exact h.updateService happly
  | removeService fragment => exact h.removeService happly
  | setControllers natives others => exact h.setControllers happly
  | deactivate =>
    cases happly
    exact empty_wellFormed subject

end Body

namespace Document

variable {isCurvePoint : Bytes → Bool} {signer : Address}

theorem initial_wellFormed (bump : UInt8) (subject key : Address) (now : Int64) :
    (initial bump subject key now).WellFormed where
  body :=
    { natives_le := Nat.zero_le _
      others_le := Nat.zero_le _
      methods_le := by simp [initial, maxVerificationMethods]
      services_le := Nat.zero_le _
      fragments := by simp [initial, Body.fragments]
      methods := by
        intro m hm
        rw [List.mem_singleton.mp hm]
        have hname : IsFragment defaultFragment := validFragment_iff.mp (by decide)
        have hflags : flagsAllowed vmTypeEd25519 vmFlagsDefault = true := by decide
        have htype : vmTypeEd25519 ≠ vmTypeSecp256k1 := by decide
        exact ⟨hname, Or.inl ⟨rfl, key.length_eq⟩, fun h => absurd h htype,
          validateVmFlags_ok_iff.mpr hflags⟩
      services := by simp [initial]
      natives := by simp [initial]
      others := by simp [initial] }
  deactivated := Or.inl rfl

/-- An accepted update of a live document. -/
theorem WellFormed.updated {d : Document} {op : Op} {b : Body} (h : d.WellFormed)
    (hlive : d.deactivated = 0)
    (happly : d.body.apply isCurvePoint signer d.subject op = .ok b) (now : Int64) :
    (d.updated op b now).WellFormed where
  body := h.body.apply happly
  deactivated := by
    by_cases hop : op = .deactivate
    · subst hop
      cases happly
      exact Or.inr ⟨by simp [Document.updated], rfl⟩
    · exact Or.inl (by simp [Document.updated, hop, hlive])

end Document

end BioDidRegistry
