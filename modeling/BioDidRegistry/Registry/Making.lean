import BioDidRegistry.Document.Authority
import BioDidRegistry.Document.WellFormed
import BioDidRegistry.Registry.Arguments
import Mathlib.Logic.Relation

/-!
# Documents that can be made

The founder of a key subject can give its document any well-formed lists: it adds an
authority of its own, removes the founding method, and then adds the other methods and the
services one by one and sets the controllers. Only the name of the founding method is not
given out again.
-/

namespace BioDidRegistry

open Reader Relation

/-! ### Well-formed values have encodings -/

theorem IsPrintable.isStr {value : Bytes} {n : ℕ} (h : IsPrintable n value) (hmax : n < 2 ^ 32) :
    IsStr value := by
  obtain ⟨⟨-, hlen⟩, hchars⟩ := h
  refine ⟨by omega, ?_⟩
  apply validUtf8_of_ascii
  intro b hb
  have hchar := (hchars b hb).2
  rw [UInt8.le_iff_toNat_le] at hchar
  rw [UInt8.lt_iff_toNat_lt]
  simp only [UInt8.reduceToNat] at hchar ⊢
  omega

theorem isStr_of_validExternalController {value : Bytes}
    (h : validExternalController value = true) : IsStr value := by
  have huri : validUriAscii value maxControllerLen = true := by
    unfold validExternalController at h
    split_ifs at h with huri
    simpa using huri
  exact (validUriAscii_iff.mp huri).isStr (by decide)

theorem Method.WellFormed.encodable {m : Method} (h : m.WellFormed) :
    (Op.addVm m).Encodable ∧ (Op.addVm m).KnownType := by
  have hlen := h.keyLen.le
  refine ⟨⟨h.fragment.isStr, by omega⟩, ?_⟩
  rw [Op.KnownType, expectedKeyLen_eq_some_iff.mpr h.keyLen]
  rfl

theorem Service.WellFormed.isText {svc : Service} (h : svc.WellFormed) : svc.IsText :=
  ⟨h.fragment.isStr, h.serviceType.isStr (by decide), h.endpoint.isStr (by decide)⟩

namespace Body

/-! ### One update after the other -/

variable {isCurvePoint : Bytes → Bool} {signer subject : Address} {b b' : Body}

/-- What the rules allow can be sent. -/
theorem WellFormed.encodable_of_apply {op : Op} (h : b.WellFormed subject)
    (happly : b.apply isCurvePoint signer subject op = .ok b') : op.Encodable ∧ op.KnownType := by
  cases op with
  | addVm m =>
    obtain ⟨hm, hkey, -⟩ := addVm_ok_iff.mp happly
    exact (wellFormed_of_admits hm hkey).encodable
  | removeVm fragment =>
    obtain ⟨before, m, after, hsplit, rfl, -⟩ := removeVm_ok happly
    have hm := h.methods m (by simp [hsplit])
    exact ⟨hm.fragment.isStr, trivial⟩
  | setFlags fragment flags =>
    obtain ⟨before, m, after, hsplit, rfl, -⟩ := setFlags_ok happly
    have hm := h.methods m (by simp [hsplit])
    exact ⟨hm.fragment.isStr, trivial⟩
  | addService svc =>
    obtain ⟨⟨-, hfragment, -, -, hvalues⟩, -⟩ := addService_ok_iff.mp happly
    exact ⟨(Service.wellFormed_of_values hfragment hvalues).isText, trivial⟩
  | updateService svc =>
    obtain ⟨before, old, after, hsplit, hname, hvalues, -⟩ := updateService_ok happly
    have hold := h.services old (by simp [hsplit])
    have hfragment := validFragment_iff.mpr hold.fragment
    rw [hname] at hfragment
    exact ⟨(Service.wellFormed_of_values hfragment hvalues).isText, trivial⟩
  | removeService fragment =>
    obtain ⟨before, svc, after, hsplit, rfl, -⟩ := removeService_ok happly
    have hsvc := h.services svc (by simp [hsplit])
    exact ⟨hsvc.fragment.isStr, trivial⟩
  | setControllers natives others =>
    obtain ⟨⟨⟨hnatives, hcount⟩, -, -, hvalid⟩, -⟩ := setControllers_ok_iff.mp happly
    simp only [maxNativeControllers, maxOtherControllers] at hnatives hcount
    refine ⟨⟨by omega, by omega, ?_⟩, trivial⟩
    intro o ho
    exact isStr_of_validExternalController (hvalid o ho)
  | deactivate => exact ⟨trivial, trivial⟩

/-- An update by `signer`, which is an authority, makes `b'` of `b`. -/
structure MadeBy (isCurvePoint : Bytes → Bool) (signer subject : Address) (op : Op)
    (b b' : Body) : Prop where
  keeps : op ≠ .deactivate
  authority : b.isAuthority signer = true
  applied : b.apply isCurvePoint signer subject op = .ok b'

def Makes (isCurvePoint : Bytes → Bool) (signer subject : Address) (b b' : Body) : Prop :=
  ∃ op, MadeBy isCurvePoint signer subject op b b'

/-- Some authority makes `b'` of `b`. -/
def Evolves (isCurvePoint : Bytes → Bool) (subject : Address) (b b' : Body) : Prop :=
  ∃ signer, Makes isCurvePoint signer subject b b'

theorem Evolves.of_makes (h : ReflTransGen (Makes isCurvePoint signer subject) b b') :
    ReflTransGen (Evolves isCurvePoint subject) b b' :=
  ReflTransGen.mono (fun _ _ h => ⟨signer, h⟩) _ _ h

theorem isAuthority_append {ms : List Method} (h : b.isAuthority signer = true) :
    ({ b with methods := b.methods ++ ms } : Body).isAuthority signer = true := by
  rw [isAuthority] at h ⊢
  rw [List.any_append, h, Bool.true_or]

theorem makes_methods {ms : List Method} (hsigner : b.isAuthority signer = true)
    (h : ({ b with methods := b.methods ++ ms } : Body).WellFormed subject)
    (hnames : ∀ m ∈ ms, m.fragment ≠ defaultFragment)
    (hkeys : ∀ m ∈ ms, admitsKey isCurvePoint signer m = .ok ()) :
    ReflTransGen (Makes isCurvePoint signer subject) b
      { b with methods := b.methods ++ ms } := by
  induction ms generalizing b with
  | nil =>
    rw [List.append_nil]
  | cons m ms ih =>
    obtain ⟨hname, hnames⟩ := List.forall_mem_cons.mp hnames
    obtain ⟨hkey, hkeys⟩ := List.forall_mem_cons.mp hkeys
    have hm : m.WellFormed := h.methods m (by simp)
    have hroom : b.methods.length < maxVerificationMethods := by
      have hcount := h.methods_le
      simp only [List.length_append, List.length_cons] at hcount
      omega
    have hfree : b.taken m.fragment = false := by
      have hnodup := h.fragments
      rw [fragments, List.map_append, List.map_cons, List.append_assoc, List.cons_append] at hnodup
      obtain ⟨hrest, -⟩ := List.nodup_cons.mp (List.nodup_middle.mp hnodup)
      rw [taken_eq_false_iff, fragments]
      simp only [List.mem_append, not_or] at hrest ⊢
      exact ⟨hrest.1, hrest.2.2⟩
    have happly : b.apply isCurvePoint signer subject (.addVm m) =
        .ok { b with methods := b.methods ++ [m] } :=
      addVm_ok_iff.mpr ⟨admits_ok_iff.mpr ⟨hroom, validFragment_iff.mpr hm.fragment, hfree, hname,
        expectedKeyLen_eq_some_iff.mpr hm.keyLen, validateVmFlags_ok_iff.mp hm.flags⟩, hkey, rfl⟩
    have hstep : Makes isCurvePoint signer subject b { b with methods := b.methods ++ [m] } :=
      ⟨.addVm m, by simp, hsigner, happly⟩
    have hsame : b.methods ++ m :: ms = (b.methods ++ [m]) ++ ms := by simp
    rw [hsame] at h ⊢
    have hrest := ih (isAuthority_append hsigner) h hnames hkeys
    exact hrest.head hstep

theorem makes_services {svcs : List Service} (hsigner : b.isAuthority signer = true)
    (h : ({ b with services := b.services ++ svcs } : Body).WellFormed subject)
    (hnames : ∀ svc ∈ svcs, svc.fragment ≠ defaultFragment) :
    ReflTransGen (Makes isCurvePoint signer subject) b
      { b with services := b.services ++ svcs } := by
  induction svcs generalizing b with
  | nil =>
    rw [List.append_nil]
  | cons svc svcs ih =>
    obtain ⟨hname, hnames⟩ := List.forall_mem_cons.mp hnames
    have hsvc : svc.WellFormed := h.services svc (by simp)
    have hroom : b.services.length < maxServices := by
      have hcount := h.services_le
      simp only [List.length_append, List.length_cons] at hcount
      omega
    have hfree : b.taken svc.fragment = false := by
      have hnodup := h.fragments
      rw [fragments, List.map_append, List.map_cons, ← List.append_assoc] at hnodup
      obtain ⟨hrest, -⟩ := List.nodup_cons.mp (List.nodup_middle.mp hnodup)
      rw [taken_eq_false_iff, fragments]
      simp only [List.mem_append, not_or] at hrest ⊢
      exact hrest.1
    have hvalues : svc.valuesAllowed = true := by
      rw [Service.valuesAllowed, Bool.and_eq_true]
      exact ⟨validUriAscii_iff.mpr hsvc.serviceType, validUriAscii_iff.mpr hsvc.endpoint⟩
    have happly : b.apply isCurvePoint signer subject (.addService svc) =
        .ok { b with services := b.services ++ [svc] } :=
      addService_ok_iff.mpr ⟨⟨hroom, validFragment_iff.mpr hsvc.fragment, hfree, hname, hvalues⟩,
        rfl⟩
    have hstep : Makes isCurvePoint signer subject b { b with services := b.services ++ [svc] } :=
      ⟨.addService svc, by simp, hsigner, happly⟩
    have hsame : b.services ++ svc :: svcs = (b.services ++ [svc]) ++ svcs := by simp
    rw [hsame] at h ⊢
    have hrest := ih (b := { b with services := b.services ++ [svc] }) hsigner h hnames
    exact hrest.head hstep

theorem makes_controllers (hsigner : b.isAuthority signer = true) {natives : List Address}
    {others : List Bytes} (h : ({ b with natives, others } : Body).WellFormed subject) :
    Makes isCurvePoint signer subject b { b with natives, others } := by
  refine ⟨.setControllers natives others, by simp, hsigner, ?_⟩
  exact setControllers_ok_iff.mpr ⟨⟨⟨h.natives_le, h.others_le⟩, h.natives, h.others⟩, rfl⟩

def founding (signer : Address) : Method :=
  ⟨defaultFragment, vmTypeEd25519, vmFlagsDefault, signer.val⟩

/-- The lists of the founder's first document. -/
def first (signer : Address) : Body := ⟨[], [], [founding signer], []⟩

theorem isAuthority_founding (signer : Address) : (founding signer).isAuthority = true := by
  have hflag : (vmTypeEd25519 == vmTypeEd25519 &&
      hasFlag vmFlagsDefault vmFlagCapabilityInvocation) = true := by decide
  exact hflag

theorem isAuthority_of_mem {m : Method} (hm : m ∈ b.methods) (hauthority : m.isAuthority = true)
    (hkey : m.key = signer.val) : b.isAuthority signer = true := by
  rw [isAuthority, List.any_eq_true]
  refine ⟨m, hm, ?_⟩
  rw [hauthority, hkey, Bool.true_and, beq_self_eq_true]

theorem admitsKey_own {m : Method} (hauthority : m.isAuthority = true) (hkey : m.key = signer.val) :
    admitsKey isCurvePoint signer m = .ok () := by
  have htype : m.methodType = vmTypeEd25519 := by
    simp only [Method.isAuthority, Bool.and_eq_true, beq_iff_eq] at hauthority
    exact hauthority.1
  have hother : (vmTypeEd25519 != vmTypeSecp256k1) = true := by decide
  refine admitsKey_ok_iff.mpr ⟨fun _ => hkey, ?_⟩
  rw [Method.keyAllowed, htype, hkey, beq_self_eq_true, hother]
  simp

/-- The founding method gives way to an authority of another name. -/
theorem makes_authority {m : Method} (hm : m.WellFormed) (hauthority : m.isAuthority = true)
    (hkey : m.key = signer.val) (hname : m.fragment ≠ defaultFragment) :
    ReflTransGen (Makes isCurvePoint signer subject) (first signer) ⟨[], [], [m], []⟩ := by
  have hfirst : (first signer).WellFormed subject :=
    (Document.initial_wellFormed 0 subject signer 0).body
  have hboth : ({ first signer with methods := (first signer).methods ++ [m] } : Body).WellFormed
      subject := by
    refine { hfirst with
      methods_le := by simp [first, maxVerificationMethods], fragments := ?_, methods := ?_ }
    · simp [fragments, first, founding, hname.symm]
    · intro x hx
      rcases List.mem_append.mp hx with hx | hx
      · exact hfirst.methods x hx
      · rw [List.mem_singleton.mp hx]
        exact hm
  have hadded : ReflTransGen (Makes isCurvePoint signer subject) (first signer)
      { first signer with methods := (first signer).methods ++ [m] } :=
    makes_methods (isAuthority_of_mem (List.mem_singleton_self _) (isAuthority_founding signer) rfl)
      hboth (by simpa using hname) (by simpa using admitsKey_own hauthority hkey)
  have hremoved : removeVm signer defaultFragment
      { first signer with methods := (first signer).methods ++ [m] } = .ok ⟨[], [], [m], []⟩ := by
    have hidx : ({ first signer with methods := (first signer).methods ++ [m] } : Body).methodIdx
        defaultFragment = 0 := rfl
    have hcount : ({ first signer with methods := (first signer).methods ++ [m] } :
        Body).authorityCount = 2 := by
      simp [authorityCount, first, isAuthority_founding, hauthority]
    unfold removeVm
    rw [hidx, hcount]
    simp [first, founding, demand]
  refine hadded.tail ⟨.removeVm defaultFragment, by simp, ?_, hremoved⟩
  exact isAuthority_of_mem (List.mem_append_right _ (List.mem_singleton_self m)) hauthority hkey

theorem WellFormed.bare {svcs : List Service} (h : b.WellFormed subject)
    (hsub : svcs.Sublist b.services) : WellFormed subject ⟨[], [], b.methods, svcs⟩ where
  natives_le := Nat.zero_le _
  others_le := Nat.zero_le _
  methods_le := h.methods_le
  services_le := hsub.length_le.trans h.services_le
  fragments := h.fragments.sublist ((List.Sublist.refl _).append (hsub.map Service.fragment))
  methods := h.methods
  services := fun svc hsvc => h.services svc (hsub.subset hsvc)
  natives := by simp
  others := by simp

/-- Every well-formed document that begins with an authority of the founder's own is made
of the first one, unless a name in it is that of the founding method. -/
theorem made_of_wellFormed {m : Method} {ms : List Method} (h : b.WellFormed subject)
    (hsplit : b.methods = m :: ms) (hauthority : m.isAuthority = true)
    (hkey : m.key = signer.val) (hnames : defaultFragment ∉ b.fragments)
    (hkeys : ∀ m ∈ ms, admitsKey isCurvePoint signer m = .ok ()) :
    ReflTransGen (Makes isCurvePoint signer subject) (first signer) b := by
  obtain ⟨natives, others, methods, services⟩ := b
  obtain rfl : methods = m :: ms := hsplit
  have hmethodNames (x : Method) (hx : x ∈ m :: ms) : x.fragment ≠ defaultFragment := by
    rintro hx'
    exact hnames (List.mem_append_left _ (hx' ▸ List.mem_map_of_mem hx))
  have hserviceNames (svc : Service) (hsvc : svc ∈ services) : svc.fragment ≠ defaultFragment := by
    rintro hsvc'
    exact hnames (List.mem_append_right _ (hsvc' ▸ List.mem_map_of_mem hsvc))
  have hm : m ∈ m :: ms := List.mem_cons_self ..
  have hfounded : ReflTransGen (Makes isCurvePoint signer subject) (first signer)
      ⟨[], [], [m], []⟩ :=
    makes_authority (h.methods m hm) hauthority hkey (hmethodNames m hm)
  have hmethods : ReflTransGen (Makes isCurvePoint signer subject) ⟨[], [], [m], []⟩
      ⟨[], [], m :: ms, []⟩ :=
    makes_methods (isAuthority_of_mem (List.mem_singleton_self m) hauthority hkey)
      (h.bare (List.nil_sublist _)) (fun x hx => hmethodNames x (List.mem_cons_of_mem m hx)) hkeys
  have hservices : ReflTransGen (Makes isCurvePoint signer subject) ⟨[], [], m :: ms, []⟩
      ⟨[], [], m :: ms, services⟩ :=
    makes_services (isAuthority_of_mem hm hauthority hkey) (h.bare (List.Sublist.refl _))
      hserviceNames
  have hcontrollers : Makes isCurvePoint signer subject ⟨[], [], m :: ms, services⟩
      ⟨natives, others, m :: ms, services⟩ :=
    makes_controllers (isAuthority_of_mem hm hauthority hkey) h
  exact ((hfounded.trans hmethods).trans hservices).tail hcontrollers

end Body

end BioDidRegistry
