import BioDidRegistry.Document.Model

/-!
# Keys, authorities and protection across updates

What an accepted update can do to the methods of a document: it never takes the
last authority unless it deactivates, it brings in no key but the signer's or one
on the curve, and it touches a protected method only for that method's own key.
-/

namespace BioDidRegistry

theorem hasFlag_or (a b mask : UInt16) :
    hasFlag (a ||| b) mask = (hasFlag a mask || hasFlag b mask) := by
  have hor : (a ||| b) &&& mask = 0 ↔ a &&& mask = 0 ∧ b &&& mask = 0 := by
    simp only [← UInt16.toBitVec_inj, UInt16.toBitVec_and, UInt16.toBitVec_or,
      BitVec.and_or_distrib_right]
    exact BitVec.or_eq_zero_iff
  rw [Bool.eq_iff_iff, Bool.or_eq_true]
  simp only [hasFlag, bne_iff_ne, ne_eq, hor]
  tauto

theorem hasFlag_comm (flags mask : UInt16) : hasFlag flags mask = hasFlag mask flags := by
  unfold hasFlag
  rw [UInt16.and_comm]

theorem hasFlag_protected_of_allowed {methodType : UInt8} {flags : UInt16}
    (h : flagsAllowed methodType flags = true) (htype : methodType ≠ vmTypeEd25519) :
    hasFlag flags vmFlagProtected = false := by
  simp only [flagsAllowed, Bool.and_eq_true] at h
  obtain ⟨⟨⟨⟨-, hed⟩, -⟩, -⟩, -⟩ := h
  rw [hasFlag_comm, hasFlag_or, beq_false_of_ne htype, Bool.or_false, Bool.not_eq_true',
    Bool.or_eq_false_iff] at hed
  rw [hasFlag_comm]
  exact hed.2

/-- The key of an Ed25519 method can be used to sign, or someone who signs put it there. -/
def Method.Signable (allowed : Bytes → Prop) (m : Method) : Prop :=
  m.methodType = vmTypeEd25519 → allowed m.key

namespace Body

/-- What a protected method is to the outside. -/
def protectedMethods (b : Body) : List (Bytes × UInt16 × Bytes) :=
  (b.methods.filter Method.isProtected).map fun m => (m.fragment, m.flags, m.key)

theorem mem_protectedMethods {b : Body} {t : Bytes × UInt16 × Bytes} :
    t ∈ b.protectedMethods ↔
      ∃ m ∈ b.methods, m.isProtected = true ∧ t = (m.fragment, m.flags, m.key) := by
  simp only [protectedMethods, List.mem_map, List.mem_filter, and_assoc, eq_comm]

variable {isCurvePoint : Bytes → Bool} {signer subject : Address} {b b' : Body}

/-! ### Authorities -/

theorem authorityCount_split {before after : List Method} {m : Method}
    (h : b.methods = before ++ m :: after) : b.authorityCount =
      before.countP Method.isAuthority + after.countP Method.isAuthority +
        if m.isAuthority then 1 else 0 := by
  rw [authorityCount, h, List.countP_append, List.countP_cons, Nat.add_assoc]

/-- No update but a deactivation takes the last authority. -/
theorem authorityCount_pos_of_apply {op : Op} (hop : op ≠ .deactivate)
    (h : b.apply isCurvePoint signer subject op = .ok b') (hpos : 0 < b.authorityCount) :
    0 < b'.authorityCount := by
  cases op with
  | addVm m =>
    obtain ⟨-, -, rfl⟩ := addVm_ok_iff.mp h
    rw [authorityCount, List.countP_append]
    exact Nat.add_pos_left hpos _
  | removeVm fragment =>
    obtain ⟨before, m, after, hsplit, -, -, hlast, rfl⟩ := removeVm_ok h
    rw [authorityCount_split hsplit] at hlast hpos
    rw [authorityCount, List.countP_append]
    by_cases hm : m.isAuthority = true
    · have := hlast hm
      rw [if_pos hm] at this
      omega
    · rw [if_neg hm] at hpos
      exact hpos
  | setFlags fragment flags =>
    obtain ⟨before, m, after, hsplit, -, -, -, hlast, rfl⟩ := setFlags_ok h
    rw [authorityCount_split hsplit] at hlast hpos
    rw [authorityCount_split rfl]
    by_cases hm : m.isAuthority = true
    · cases hflag : hasFlag flags vmFlagCapabilityInvocation with
      | true =>
        have hkeeps : ({ m with flags } : Method).isAuthority = true := by
          simp only [Method.isAuthority, Bool.and_eq_true] at hm ⊢
          exact ⟨hm.1, hflag⟩
        rw [if_pos hkeeps]
        omega
      | false =>
        have := hlast hm hflag
        rw [if_pos hm] at this
        omega
    · rw [if_neg hm] at hpos
      omega
  | addService svc =>
    obtain ⟨-, rfl⟩ := addService_ok_iff.mp h
    exact hpos
  | updateService svc =>
    obtain ⟨before, old, after, -, -, -, rfl⟩ := updateService_ok h
    exact hpos
  | removeService fragment =>
    obtain ⟨before, svc, after, -, -, rfl⟩ := removeService_ok h
    exact hpos
  | setControllers natives others =>
    obtain ⟨-, rfl⟩ := setControllers_ok_iff.mp h
    exact hpos
  | deactivate => exact absurd rfl hop

/-! ### Keys -/

theorem signable_of_apply {op : Op} {allowed : Bytes → Prop}
    (h : b.apply isCurvePoint signer subject op = .ok b') (hsigner : allowed signer.val)
    (hcurve : ∀ key, isCurvePoint key = true → allowed key)
    (hb : ∀ m ∈ b.methods, m.Signable allowed) : ∀ m ∈ b'.methods, m.Signable allowed := by
  cases op with
  | addVm m =>
    obtain ⟨-, hkey, rfl⟩ := addVm_ok_iff.mp h
    obtain ⟨-, hallowed⟩ := admitsKey_ok_iff.mp hkey
    intro x hx
    rcases List.mem_append.mp hx with hx | hx
    · exact hb x hx
    · rw [List.mem_singleton.mp hx]
      intro htype
      simp only [Method.keyAllowed, htype, bne_self_eq_false, Bool.false_or, Bool.and_eq_true,
        Bool.or_eq_true, beq_iff_eq] at hallowed
      rcases hallowed.1 with hown | hon
      · rw [hown]
        exact hsigner
      · exact hcurve _ hon
  | removeVm fragment =>
    obtain ⟨before, m, after, hsplit, -, -, -, rfl⟩ := removeVm_ok h
    intro x hx
    apply hb x
    rw [hsplit]
    rcases List.mem_append.mp hx with hx | hx <;> simp [hx]
  | setFlags fragment flags =>
    obtain ⟨before, m, after, hsplit, -, -, -, -, rfl⟩ := setFlags_ok h
    intro x hx
    rcases List.mem_append.mp hx with hx | hx
    · exact hb x (by simp [hsplit, hx])
    · rcases List.mem_cons.mp hx with rfl | hx
      · exact hb m (by simp [hsplit])
      · exact hb x (by simp [hsplit, hx])
  | addService svc =>
    obtain ⟨-, rfl⟩ := addService_ok_iff.mp h
    exact hb
  | updateService svc =>
    obtain ⟨before, old, after, -, -, -, rfl⟩ := updateService_ok h
    exact hb
  | removeService fragment =>
    obtain ⟨before, svc, after, -, -, rfl⟩ := removeService_ok h
    exact hb
  | setControllers natives others =>
    obtain ⟨-, rfl⟩ := setControllers_ok_iff.mp h
    exact hb
  | deactivate =>
    cases h
    simp [empty]

/-! ### Protection -/

theorem protectedMethods_of_replaced (before olds news after : List Method)
    {t : Bytes × UInt16 × Bytes} (hb : b.methods = before ++ olds ++ after)
    (hb' : b'.methods = before ++ news ++ after)
    (hdiff : ¬(t ∈ b.protectedMethods ↔ t ∈ b'.protectedMethods)) :
    ∃ m, (m ∈ olds ∨ m ∈ news) ∧ m.isProtected = true ∧ t = (m.fragment, m.flags, m.key) := by
  simp only [mem_protectedMethods, hb, hb', List.mem_append] at hdiff
  by_contra hnone
  push Not at hnone
  apply hdiff
  constructor
  · rintro ⟨m, (hm | hm) | hm, hp, ht⟩
    · exact ⟨m, Or.inl (Or.inl hm), hp, ht⟩
    · exact absurd ht (hnone m (Or.inl hm) hp)
    · exact ⟨m, Or.inr hm, hp, ht⟩
  · rintro ⟨m, (hm | hm) | hm, hp, ht⟩
    · exact ⟨m, Or.inl (Or.inl hm), hp, ht⟩
    · exact absurd ht (hnone m (Or.inr hm) hp)
    · exact ⟨m, Or.inr hm, hp, ht⟩

/-- Only its own key adds, removes or re-flags a protected method. -/
theorem key_of_protectedMethods_changed {op : Op} (hop : op ≠ .deactivate)
    (h : b.apply isCurvePoint signer subject op = .ok b') {t : Bytes × UInt16 × Bytes}
    (hdiff : ¬(t ∈ b.protectedMethods ↔ t ∈ b'.protectedMethods)) : t.2.2 = signer.val := by
  have same (hm : b'.methods = b.methods) : False := by
    apply hdiff
    rw [protectedMethods, protectedMethods, hm]
  cases op with
  | addVm m =>
    obtain ⟨-, hkey, rfl⟩ := addVm_ok_iff.mp h
    obtain ⟨hown, -⟩ := admitsKey_ok_iff.mp hkey
    obtain ⟨x, hx, hp, rfl⟩ := protectedMethods_of_replaced b.methods [] [m] []
      (by simp) (by simp) hdiff
    rcases hx with hx | hx
    · cases hx
    · rw [List.mem_singleton.mp hx] at hp ⊢
      exact hown hp
  | removeVm fragment =>
    obtain ⟨before, m, after, hsplit, -, hown, -, rfl⟩ := removeVm_ok h
    obtain ⟨x, hx, hp, rfl⟩ := protectedMethods_of_replaced before [m] [] after
      (by simp [hsplit]) (by simp) hdiff
    rcases hx with hx | hx
    · rw [List.mem_singleton.mp hx] at hp ⊢
      exact hown hp
    · cases hx
  | setFlags fragment flags =>
    obtain ⟨before, m, after, hsplit, -, hown, -, -, rfl⟩ := setFlags_ok h
    rw [hasFlag_or, Bool.or_eq_true] at hown
    obtain ⟨x, hx, hp, rfl⟩ := protectedMethods_of_replaced before [m]
      [{ m with flags }] after (by simp [hsplit]) (by simp) hdiff
    rcases hx with hx | hx
    · rw [List.mem_singleton.mp hx] at hp ⊢
      exact hown (Or.inl hp)
    · rw [List.mem_singleton.mp hx] at hp ⊢
      exact hown (Or.inr hp)
  | addService svc =>
    obtain ⟨-, rfl⟩ := addService_ok_iff.mp h
    exact (same rfl).elim
  | updateService svc =>
    obtain ⟨before, old, after, -, -, -, rfl⟩ := updateService_ok h
    exact (same rfl).elim
  | removeService fragment =>
    obtain ⟨before, svc, after, -, -, rfl⟩ := removeService_ok h
    exact (same rfl).elim
  | setControllers natives others =>
    obtain ⟨-, rfl⟩ := setControllers_ok_iff.mp h
    exact (same rfl).elim
  | deactivate => exact absurd rfl hop

/-! ### The founding method's name -/

/-- Nothing but an Ed25519 method with the founding key has the name of the founding method. -/
def DefaultOnly (key : Address) (b : Body) : Prop :=
  (∀ svc ∈ b.services, svc.fragment ≠ defaultFragment) ∧
    ∀ m ∈ b.methods, m.fragment = defaultFragment →
      m.methodType = vmTypeEd25519 ∧ m.key = key.val

/-- A method is new, and not named as the founding one, or has the name, the type and the key
of an earlier one. -/
theorem method_origin {op : Op} (h : b.apply isCurvePoint signer subject op = .ok b') :
    ∀ m' ∈ b'.methods, m'.fragment ≠ defaultFragment ∨ ∃ m ∈ b.methods,
      m.fragment = m'.fragment ∧ m.methodType = m'.methodType ∧ m.key = m'.key := by
  have hold {m : Method} (hm : m ∈ b.methods) : m.fragment ≠ defaultFragment ∨ ∃ m₀ ∈ b.methods,
      m₀.fragment = m.fragment ∧ m₀.methodType = m.methodType ∧ m₀.key = m.key :=
    Or.inr ⟨m, hm, rfl, rfl, rfl⟩
  intro m' hm'
  cases op with
  | addVm m =>
    obtain ⟨hm, -, rfl⟩ := addVm_ok_iff.mp h
    obtain ⟨-, -, -, hname, -⟩ := admits_ok_iff.mp hm
    rcases List.mem_append.mp hm' with hmem | hnew
    · exact hold hmem
    · rw [List.mem_singleton.mp hnew]
      exact Or.inl hname
  | removeVm fragment =>
    obtain ⟨before, m, after, hsplit, -, -, -, rfl⟩ := removeVm_ok h
    apply hold
    rw [hsplit]
    rcases List.mem_append.mp hm' with hmem | hmem <;> simp [hmem]
  | setFlags fragment flags =>
    obtain ⟨before, m, after, hsplit, -, -, -, -, rfl⟩ := setFlags_ok h
    rcases List.mem_append.mp hm' with hmem | hmem
    · exact hold (by simp [hsplit, hmem])
    · rcases List.mem_cons.mp hmem with rfl | hmem
      · exact Or.inr ⟨m, by simp [hsplit], rfl, rfl, rfl⟩
      · exact hold (by simp [hsplit, hmem])
  | addService svc =>
    obtain ⟨-, rfl⟩ := addService_ok_iff.mp h
    exact hold hm'
  | updateService svc =>
    obtain ⟨before, old, after, -, -, -, rfl⟩ := updateService_ok h
    exact hold hm'
  | removeService fragment =>
    obtain ⟨before, svc, after, -, -, rfl⟩ := removeService_ok h
    exact hold hm'
  | setControllers natives others =>
    obtain ⟨-, rfl⟩ := setControllers_ok_iff.mp h
    exact hold hm'
  | deactivate =>
    cases h
    cases hm'

theorem service_origin {op : Op} (h : b.apply isCurvePoint signer subject op = .ok b') :
    ∀ svc' ∈ b'.services, svc'.fragment ≠ defaultFragment ∨
      ∃ svc ∈ b.services, svc.fragment = svc'.fragment := by
  have hold {svc : Service} (hsvc : svc ∈ b.services) : svc.fragment ≠ defaultFragment ∨
      ∃ svc₀ ∈ b.services, svc₀.fragment = svc.fragment :=
    Or.inr ⟨svc, hsvc, rfl⟩
  intro svc' hsvc'
  cases op with
  | addVm m =>
    obtain ⟨-, -, rfl⟩ := addVm_ok_iff.mp h
    exact hold hsvc'
  | removeVm fragment =>
    obtain ⟨before, m, after, -, -, -, -, rfl⟩ := removeVm_ok h
    exact hold hsvc'
  | setFlags fragment flags =>
    obtain ⟨before, m, after, -, -, -, -, -, rfl⟩ := setFlags_ok h
    exact hold hsvc'
  | addService svc =>
    obtain ⟨⟨-, -, -, hname, -⟩, rfl⟩ := addService_ok_iff.mp h
    rcases List.mem_append.mp hsvc' with hmem | hnew
    · exact hold hmem
    · rw [List.mem_singleton.mp hnew]
      exact Or.inl hname
  | updateService svc =>
    -- The new values come under the old name.
    obtain ⟨before, old, after, hsplit, hname, -, rfl⟩ := updateService_ok h
    rcases List.mem_append.mp hsvc' with hmem | hmem
    · exact hold (by simp [hsplit, hmem])
    · rcases List.mem_cons.mp hmem with rfl | hmem
      · exact Or.inr ⟨old, by simp [hsplit], hname⟩
      · exact hold (by simp [hsplit, hmem])
  | removeService fragment =>
    obtain ⟨before, svc, after, hsplit, -, rfl⟩ := removeService_ok h
    apply hold
    rw [hsplit]
    rcases List.mem_append.mp hsvc' with hmem | hmem <;> simp [hmem]
  | setControllers natives others =>
    obtain ⟨-, rfl⟩ := setControllers_ok_iff.mp h
    exact hold hsvc'
  | deactivate =>
    cases h
    cases hsvc'

theorem DefaultOnly.apply {key : Address} {op : Op} (hb : b.DefaultOnly key)
    (h : b.apply isCurvePoint signer subject op = .ok b') : b'.DefaultOnly key := by
  refine ⟨?_, ?_⟩
  · intro svc' hsvc'
    rcases service_origin h svc' hsvc' with hname | ⟨svc, hsvc, hsame⟩
    · exact hname
    · rw [← hsame]
      exact hb.1 svc hsvc
  · intro m' hm' hdefault
    rcases method_origin h m' hm' with hname | ⟨m, hm, hsame, htype, hkey⟩
    · exact absurd hdefault hname
    · rw [← htype, ← hkey]
      exact hb.2 m hm (hsame.trans hdefault)

/-- A name that no method has is not given to one again, if it is the founding method's. -/
theorem default_free_of_apply {op : Op} (h : b.apply isCurvePoint signer subject op = .ok b')
    (hfree : ∀ m ∈ b.methods, m.fragment ≠ defaultFragment) :
    ∀ m ∈ b'.methods, m.fragment ≠ defaultFragment := by
  intro m' hm'
  rcases method_origin h m' hm' with hname | ⟨m, hm, hsame, -⟩
  · exact hname
  · rw [← hsame]
    exact hfree m hm

/-! ### Keys that a new method may have -/

theorem exists_key_of_admits (isCurvePoint : Bytes → Bool) (signer : Address) {nm : NewMethod}
    (h : b.admits nm = .ok ()) : ∃ key : Bytes, key.length = nm.keyLen ∧
      admitsKey isCurvePoint signer ⟨nm.fragment, nm.methodType, nm.flags, key⟩ = .ok () := by
  obtain ⟨-, -, -, -, hlen, hflags⟩ := admits_ok_iff.mp h
  by_cases htype : nm.methodType = vmTypeEd25519
  · have h32 : nm.keyLen = 32 := by
      rw [htype] at hlen
      exact (Option.some.inj hlen).symm
    refine ⟨signer.val, by rw [h32, signer.length_eq], admitsKey_ok_iff.mpr ⟨fun _ => rfl, ?_⟩⟩
    simp [Method.keyAllowed, htype, vmTypeEd25519, vmTypeSecp256k1]
  · have hpos : 0 < nm.keyLen := by
      unfold expectedKeyLen at hlen
      split_ifs at hlen
      all_goals
        rw [← Option.some.inj hlen]
        decide
    refine ⟨0x02 :: List.replicate (nm.keyLen - 1) 0, ?_, admitsKey_ok_iff.mpr ⟨fun hp => ?_, ?_⟩⟩
    · rw [List.length_cons, List.length_replicate]
      omega
    · rw [Method.isProtected, hasFlag_protected_of_allowed hflags htype] at hp
      cases hp
    · simp [Method.keyAllowed, htype]

end Body

end BioDidRegistry
