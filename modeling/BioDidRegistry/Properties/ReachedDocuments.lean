import BioDidRegistry.Document.Attainable
import BioDidRegistry.Properties.Containment
import BioDidRegistry.Registry.Reach

/-!
# The documents that are reached

Which lists a live DID can have is known exactly. They are well formed and have an
authority, the founding method comes first or is gone, and a sixteenth method was added by
an authority among the other fifteen. Whatever is so can be made: the founder adds every
method with flags that let it do nothing but change the document, and gives way if the
founding method is not among them. Then each authority sets the flags of its own method.
-/

namespace BioDidRegistry

open Transition Relation

/-! ### Methods before their flags are set -/

namespace Method

variable {m : Method}

def opened (m : Method) : Method :=
  { m with flags := if m.methodType = vmTypeEd25519 then vmFlagCapabilityInvocation else m.flags }

theorem isAuthority_opened (h : m.methodType = vmTypeEd25519) : m.opened.isAuthority = true := by
  have hflag : (vmTypeEd25519 == vmTypeEd25519 &&
      hasFlag vmFlagCapabilityInvocation vmFlagCapabilityInvocation) = true := by decide
  rw [isAuthority, opened, if_pos h, h]
  exact hflag

theorem WellFormed.opened (h : m.WellFormed) : m.opened.WellFormed where
  fragment := h.fragment
  keyLen := h.keyLen
  point := h.point
  flags := by
    rw [Method.opened]
    split_ifs with htype
    · rw [htype]
      exact (by decide : validateVmFlags vmTypeEd25519 vmFlagCapabilityInvocation = .ok ())
    · exact h.flags

theorem WellFormed.isProtected_opened (h : m.WellFormed) : m.opened.isProtected = false := by
  rw [isProtected, Method.opened]
  split_ifs with htype
  · exact (by decide : hasFlag vmFlagCapabilityInvocation vmFlagProtected = false)
  · exact hasFlag_protected_of_allowed (validateVmFlags_ok_iff.mp h.flags) htype

theorem WellFormed.admitsKey_opened {isCurvePoint : Bytes → Bool} {signer : Address}
    (h : m.WellFormed) (hkey : m.methodType = vmTypeEd25519 → isCurvePoint m.key = true) :
    Body.admitsKey isCurvePoint signer m.opened = .ok () := by
  refine Body.admitsKey_ok_iff.mpr ⟨?_, ?_⟩
  · intro hprotected
    rw [h.isProtected_opened] at hprotected
    cases hprotected
  · simp only [keyAllowed, Method.opened, Bool.and_eq_true, Bool.or_eq_true, bne_iff_ne, beq_iff_eq]
    have hpoint := h.point
    tauto

end Method

namespace Body

variable {isCurvePoint : Bytes → Bool} {subject key : Address} {b b' : Body}

theorem evolves_flag {before after : List Method} {m₀ m : Method} (hm : m.WellFormed)
    (hfirst : ∀ x ∈ before, x.fragment ≠ m.fragment) (hauthority : m₀.isAuthority = true)
    (hflags : { m₀ with flags := m.flags } = m)
    (hstays : ∃ x ∈ before ++ m :: after, x.isAuthority = true) :
    Evolves isCurvePoint subject { b with methods := before ++ m₀ :: after }
      { b with methods := before ++ m :: after } := by
  have hfragment : m₀.fragment = m.fragment := by rw [← hflags]
  have htype : m.methodType = vmTypeEd25519 ∧ m₀.methodType = vmTypeEd25519 := by
    have hboth : m.methodType = m₀.methodType := by rw [← hflags]
    simp only [Method.isAuthority, Bool.and_eq_true, beq_iff_eq] at hauthority
    exact ⟨hboth.trans hauthority.1, hauthority.1⟩
  have hlen : m₀.key.length = 32 := by
    have hkeyLen := hm.length_key htype.1
    rw [← hflags] at hkeyLen
    exact hkeyLen
  refine ⟨⟨m₀.key, hlen⟩, .setFlags m.fragment m.flags, by simp, ?_, ?_⟩
  · exact isAuthority_of_mem (List.mem_append_right _ (List.mem_cons_self ..)) hauthority rfl
  have hidx : ({ b with methods := before ++ m₀ :: after } : Body).methodIdx m.fragment =
      before.length := by
    have hnone : before.findIdx (fun x => x.fragment == m.fragment) = before.length :=
      List.findIdx_eq_length.mpr fun x hx => beq_eq_false_iff_ne.mpr (hfirst x hx)
    rw [methodIdx, List.findIdx_append, hnone]
    simp [List.findIdx_cons, hfragment]
  have hallowed : flagsAllowed m₀.methodType m.flags = true := by
    rw [htype.2, ← htype.1]
    exact validateVmFlags_ok_iff.mp hm.flags
  have hcount (hgives : hasFlag m.flags vmFlagCapabilityInvocation = false) :
      1 < ({ b with methods := before ++ m₀ :: after } : Body).authorityCount := by
    obtain ⟨x, hx, hxauthority⟩ := hstays
    have hnot : m.isAuthority = false := by rw [Method.isAuthority, hgives, Bool.and_false]
    have hothers : 0 < (before ++ m :: after).countP Method.isAuthority :=
      List.countP_pos_iff.mpr ⟨x, hx, hxauthority⟩
    rw [List.countP_append, List.countP_cons, hnot] at hothers
    rw [authorityCount_split rfl, if_pos hauthority]
    simpa using hothers
  change Body.setFlags _ _ _ _ = _
  unfold Body.setFlags
  rw [hidx]
  cases hgives : hasFlag m.flags vmFlagCapabilityInvocation with
  | true => simp [demand, hallowed, hflags]
  | false => simp [demand, hallowed, hflags, hcount hgives]

/-- One after the other the authorities set the flags of their own methods. -/
theorem evolves_flags (before : List Method) {ms : List Method}
    (h : ({ b with methods := before ++ ms } : Body).WellFormed subject)
    (hstays : ∃ x ∈ before ++ ms, x.isAuthority = true) :
    ReflTransGen (Evolves isCurvePoint subject)
      { b with methods := before ++ ms.map Method.opened } { b with methods := before ++ ms } := by
  induction ms generalizing before with
  | nil => exact ReflTransGen.refl
  | cons m ms ih =>
    have hsame (after : List Method) : before ++ m :: after = (before ++ [m]) ++ after := by simp
    have hrest : ReflTransGen (Evolves isCurvePoint subject)
        { b with methods := before ++ m :: ms.map Method.opened }
        { b with methods := before ++ m :: ms } := by
      rw [hsame ms] at h hstays ⊢
      rw [hsame]
      exact ih _ h hstays
    rw [List.map_cons]
    by_cases htype : m.methodType = vmTypeEd25519
    · have hfirst (x : Method) (hx : x ∈ before) : x.fragment ≠ m.fragment := by
        have hnodup := (List.nodup_append.mp h.fragments).1
        rw [List.map_append, List.map_cons] at hnodup
        exact (List.nodup_append.mp hnodup).2.2 _ (List.mem_map_of_mem hx) _
          (List.mem_cons_self ..)
      have hstays₀ : ∃ x ∈ before ++ m :: ms.map Method.opened, x.isAuthority = true := by
        obtain ⟨x, hx, hauthority⟩ := hstays
        rw [hsame ms] at hx
        rw [hsame]
        rcases List.mem_append.mp hx with hx | hx
        · exact ⟨x, List.mem_append_left _ hx, hauthority⟩
        · exact ⟨x.opened, List.mem_append_right _ (List.mem_map_of_mem hx),
            Method.isAuthority_opened (Method.methodType_of_isAuthority hauthority)⟩
      exact hrest.head (evolves_flag (h.methods m (by simp)) hfirst
        (Method.isAuthority_opened htype) rfl hstays₀)
    · rw [Method.opened, if_neg htype]
      exact hrest

/-! ### From the first document -/

theorem WellFormed.with_methods {ms : List Method} (h : b.WellFormed subject)
    (hcount : ms.length ≤ maxVerificationMethods) (hms : ∀ m ∈ ms, m.WellFormed)
    (hnames : (ms.map Method.fragment ++ b.services.map Service.fragment).Nodup) :
    ({ b with methods := ms } : Body).WellFormed subject :=
  { h with methods_le := hcount, fragments := hnames, methods := hms }

theorem fragment_opened (ms : List Method) :
    (ms.map Method.opened).map Method.fragment = ms.map Method.fragment := by
  rw [List.map_map]
  rfl

theorem founding_wellFormed (key : Address) : (founding key).WellFormed :=
  (Document.initial_wellFormed 0 key key 0).body.methods _ (List.mem_singleton_self _)

/-- The founding method can stand before methods with the names of some of the document's. -/
theorem Attainable.with_founding {ms ms' : List Method} (h : b.Attainable subject key)
    (hsub : ms.Sublist b.methods) (hcount : ms.length ≤ 15)
    (hnames : ∀ m ∈ ms, m.fragment ≠ defaultFragment)
    (hsame : ms'.map Method.fragment = ms.map Method.fragment) (hms' : ∀ m ∈ ms', m.WellFormed) :
    ({ b with methods := [Body.founding key] ++ ms' } : Body).WellFormed subject := by
  have hlen : ms'.length = ms.length := by
    simpa only [List.length_map] using congrArg List.length hsame
  apply h.wellFormed.with_methods
  · simp only [List.length_append, List.length_singleton, maxVerificationMethods]
    omega
  · intro m hm
    rcases List.mem_append.mp hm with hm | hm
    · rw [List.mem_singleton.mp hm]
      exact founding_wellFormed key
    · exact hms' m hm
  · have hnodup : (ms.map Method.fragment ++ b.services.map Service.fragment).Nodup :=
      h.wellFormed.fragments.sublist ((hsub.map _).append (List.Sublist.refl _))
    rw [List.map_append, hsame, List.map_singleton, List.append_assoc, List.singleton_append,
      List.nodup_cons]
    refine ⟨?_, hnodup⟩
    intro hmem
    rcases List.mem_append.mp hmem with hmem | hmem
    · obtain ⟨m, hm, hname⟩ := List.mem_map.mp hmem
      exact hnames m hm hname
    · obtain ⟨svc, hsvc, hname⟩ := List.mem_map.mp hmem
      exact h.names.1 svc hsvc hname

theorem WellFormed.forall_opened {ms : List Method} (h : b.WellFormed subject)
    (hsub : ms.Sublist b.methods) : ∀ m ∈ ms.map Method.opened, m.WellFormed :=
  List.forall_mem_map.mpr fun m hm => (h.methods m (hsub.subset hm)).opened

/-- The founder adds the services, sets the controllers and adds methods. -/
theorem Attainable.founded {ms : List Method} (h : b.Attainable subject key)
    (hkeys : ∀ m ∈ ms, m.methodType = vmTypeEd25519 → isCurvePoint m.key = true)
    (hsub : ms.Sublist b.methods) (hcount : ms.length ≤ 15)
    (hnames : ∀ m ∈ ms, m.fragment ≠ defaultFragment) :
    ReflTransGen (Evolves isCurvePoint subject) (first key)
      { b with methods := [Body.founding key] ++ ms.map Method.opened } := by
  have hfounder (b : Body) (hb : Body.founding key ∈ b.methods) : b.isAuthority key = true :=
    isAuthority_of_mem hb (isAuthority_founding key) rfl
  have hbare : ({ b with methods := [Body.founding key] } : Body).WellFormed subject :=
    h.with_founding (List.nil_sublist _) (Nat.zero_le _) (by simp) rfl (by simp)
  have hall : ({ b with methods := [Body.founding key] ++ ms.map Method.opened } :
      Body).WellFormed subject :=
    h.with_founding hsub hcount hnames (fragment_opened ms) (h.wellFormed.forall_opened hsub)
  have hservices : ReflTransGen (Makes isCurvePoint key subject) (first key)
      ⟨[], [], [Body.founding key], b.services⟩ :=
    makes_services (hfounder _ (List.mem_singleton_self _))
      (hbare.bare (List.Sublist.refl _)) h.names.1
  have hcontrollers : Makes isCurvePoint key subject ⟨[], [], [Body.founding key], b.services⟩
      { b with methods := [Body.founding key] } :=
    makes_controllers (hfounder _ (List.mem_singleton_self _)) hbare
  have hmethods : ReflTransGen (Makes isCurvePoint key subject)
      { b with methods := [Body.founding key] }
      { b with methods := [Body.founding key] ++ ms.map Method.opened } := by
    apply makes_methods (hfounder _ (List.mem_singleton_self _)) hall
    · exact List.forall_mem_map.mpr hnames
    · refine List.forall_mem_map.mpr fun m hm => ?_
      exact (h.wellFormed.methods m (hsub.subset hm)).admitsKey_opened (hkeys m hm)
  exact Evolves.of_makes ((hservices.tail hcontrollers).trans hmethods)

theorem makes_removal {ms : List Method} (hother : ∃ m ∈ ms, m.isAuthority = true) :
    Makes isCurvePoint key subject { b with methods := [founding key] ++ ms }
      { b with methods := ms } := by
  have hcount : 1 < ({ b with methods := [founding key] ++ ms } : Body).authorityCount := by
    have hpos := List.countP_pos_iff.mpr hother
    rw [authorityCount, List.countP_append, List.countP_singleton,
      if_pos (isAuthority_founding key)]
    omega
  have hidx : ({ b with methods := [founding key] ++ ms } : Body).methodIdx defaultFragment = 0 :=
    rfl
  have hremoved : removeVm key defaultFragment { b with methods := [founding key] ++ ms } =
      .ok { b with methods := ms } := by
    unfold removeVm
    rw [hidx, decide_eq_true hcount]
    simp [demand, founding]
  refine ⟨.removeVm defaultFragment, by simp, ?_, hremoved⟩
  exact isAuthority_of_mem (List.mem_append_left _ (List.mem_singleton_self _))
    (isAuthority_founding key) rfl

theorem Attainable.made_with {m : Method} {ms : List Method} (h : b.Attainable subject key)
    (hkeys : ∀ m ∈ ms, m.methodType = vmTypeEd25519 → isCurvePoint m.key = true)
    (hsplit : b.methods = m :: ms) (hname : m.fragment = defaultFragment) :
    ReflTransGen (Evolves isCurvePoint subject) (first key) b := by
  obtain ⟨natives, others, methods, services⟩ := b
  obtain rfl : methods = m :: ms := hsplit
  have hnames : ∀ x ∈ ms, x.fragment ≠ defaultFragment := h.founding
  have hcount : ms.length ≤ 15 := by
    have hle := h.wellFormed.methods_le
    simp only [List.length_cons, maxVerificationMethods] at hle
    omega
  have hfounded := h.founded hkeys (List.sublist_cons_self m ms) hcount hnames
  have hfounder : (Body.founding key).isAuthority = true := isAuthority_founding key
  have hclosed : ReflTransGen (Evolves isCurvePoint subject)
      ⟨natives, others, [Body.founding key] ++ ms.map Method.opened, services⟩
      ⟨natives, others, [Body.founding key] ++ ms, services⟩ := by
    refine evolves_flags (b := ⟨natives, others, [], services⟩) _ ?_ ⟨_, by simp, hfounder⟩
    exact h.with_founding (List.sublist_cons_self m ms) hcount hnames rfl fun x hx =>
      h.wellFormed.methods x (List.mem_cons_of_mem m hx)
  have hlast : Evolves isCurvePoint subject
      ⟨natives, others, [] ++ Body.founding key :: ms, services⟩
      ⟨natives, others, [] ++ m :: ms, services⟩ := by
    have hm : m ∈ m :: ms := List.mem_cons_self ..
    obtain ⟨htype, hkey⟩ := h.names.2 m hm hname
    refine evolves_flag (b := ⟨natives, others, [], services⟩) (h.wellFormed.methods m hm) (by simp)
      hfounder ?_ (List.countP_pos_iff.mp h.authority)
    simp only [Body.founding, ← hname, ← htype, ← hkey]
  exact (hfounded.trans hclosed).tail hlast

/-- The founding method is removed once an authority among the first fifteen can add the last
one. -/
theorem Attainable.made_without (h : b.Attainable subject key)
    (hkeys : ∀ m ∈ b.methods, m.methodType = vmTypeEd25519 → isCurvePoint m.key = true)
    (hnames : ∀ m ∈ b.methods, m.fragment ≠ defaultFragment) :
    ReflTransGen (Evolves isCurvePoint subject) (first key) b := by
  have hsub : (b.methods.take 15).Sublist b.methods := List.take_sublist ..
  have hcount : (b.methods.take 15).length ≤ 15 := List.length_take_le ..
  obtain ⟨m, hm, htype⟩ : ∃ m ∈ b.methods.take 15, m.methodType = vmTypeEd25519 := by
    by_cases hfull : b.methods.length = maxVerificationMethods
    · exact h.room hfull
    · have hle := h.wellFormed.methods_le
      simp only [maxVerificationMethods] at hle hfull
      obtain ⟨m, hm, hauthority⟩ := List.countP_pos_iff.mp h.authority
      rw [List.take_of_length_le (by omega)]
      exact ⟨m, hm, Method.methodType_of_isAuthority hauthority⟩
  have hopened : m.opened ∈ (b.methods.take 15).map Method.opened := List.mem_map_of_mem hm
  have hauthority : m.opened.isAuthority = true := Method.isAuthority_opened htype
  obtain ⟨signer, hsigner⟩ := (h.wellFormed.methods m (hsub.subset hm)).exists_signer htype
  have hfounded := h.founded (fun x hx => hkeys x (hsub.subset hx)) hsub hcount
    fun x hx => hnames x (hsub.subset hx)
  have hremoved : Makes isCurvePoint key subject
      { b with methods := [Body.founding key] ++ (b.methods.take 15).map Method.opened }
      { b with methods := (b.methods.take 15).map Method.opened } :=
    makes_removal ⟨_, hopened, hauthority⟩
  have hadded : ReflTransGen (Makes isCurvePoint signer subject)
      { b with methods := (b.methods.take 15).map Method.opened }
      { b with methods := b.methods.map Method.opened } := by
    have hsame : b.methods.map Method.opened =
        (b.methods.take 15).map Method.opened ++ (b.methods.drop 15).map Method.opened := by
      rw [← List.map_append, List.take_append_drop]
    have hdrop : (b.methods.drop 15).Sublist b.methods := List.drop_sublist ..
    have hall : ({ b with methods := b.methods.map Method.opened } : Body).WellFormed subject := by
      apply h.wellFormed.with_methods
      · rw [List.length_map]
        exact h.wellFormed.methods_le
      · exact h.wellFormed.forall_opened (List.Sublist.refl _)
      · rw [fragment_opened]
        exact h.wellFormed.fragments
    rw [hsame] at hall ⊢
    apply makes_methods (isAuthority_of_mem hopened hauthority hsigner) hall
    · exact List.forall_mem_map.mpr fun x hx => hnames x (hdrop.subset hx)
    · refine List.forall_mem_map.mpr fun x hx => ?_
      exact (h.wellFormed.methods x (hdrop.subset hx)).admitsKey_opened (hkeys x (hdrop.subset hx))
  have hclosed : ReflTransGen (Evolves isCurvePoint subject)
      { b with methods := b.methods.map Method.opened } b :=
    evolves_flags [] h.wellFormed (List.countP_pos_iff.mp h.authority)
  exact ((hfounded.tail ⟨key, hremoved⟩).trans (Evolves.of_makes hadded)).trans hclosed

/-- Every attainable document whose other Ed25519 keys are points of the curve can be made. -/
theorem Attainable.made (h : b.Attainable subject key)
    (hkeys : ∀ m ∈ b.methods, m.methodType = vmTypeEd25519 → m.fragment ≠ defaultFragment →
      isCurvePoint m.key = true) : ReflTransGen (Evolves isCurvePoint subject) (first key) b := by
  by_cases hnames : ∀ m ∈ b.methods, m.fragment ≠ defaultFragment
  · exact h.made_without (fun m hm htype => hkeys m hm htype (hnames m hm)) hnames
  · push Not at hnames
    obtain ⟨x, hx, hname⟩ := hnames
    obtain ⟨m, ms, hsplit⟩ := List.exists_cons_of_ne_nil (List.ne_nil_of_mem hx)
    have hothers : ∀ x ∈ ms, x.fragment ≠ defaultFragment := by
      have hfounding := h.founding
      rwa [hsplit] at hfounding
    rw [hsplit] at hx hkeys
    rcases List.mem_cons.mp hx with rfl | hx
    · refine h.made_with ?_ hsplit hname
      exact fun y hy htype => hkeys y (List.mem_cons_of_mem x hy) htype (hothers y hy)
    · exact absurd hname (hothers x hx)

end Body

variable {P : Platform} {L L₀ : Ledger} {turns : List Turn}

/-- In every run the lists of a live document are attainable from its founding key. -/
theorem attainable_of_run (hP : P.Lawful) (h₀ : Fresh L₀) (hrun : Run (Step P) L₀ turns L) :
    ∀ a d, Registered P L a d → ∃ key, P.Founder d.subject key ∧
      (d.deactivated = 0 → d.body.Attainable d.subject key) := by
  refine documents_of_run hP (Q := fun _ _ d => ∃ key, P.Founder d.subject key ∧
    (d.deactivated = 0 → d.body.Attainable d.subject key)) h₀ hrun (fun _ _ _ _ h => h) ?_ ?_
  · intro turns c L₁ L₂ log a d h
    obtain ⟨-, -, bump, subject, key, now, hfounds, rfl⟩ := h.created hP
    exact ⟨key, hfounds.founder, fun _ => Body.Attainable.initial⟩
  · intro turns c L₁ L₂ a d op d' signer body hamended ⟨key, hfounder, hattainable⟩
    obtain ⟨now, -, rfl⟩ := hamended.updated
    refine ⟨key, hfounder, fun hlive => ?_⟩
    have hop : op ≠ .deactivate := by
      rintro rfl
      simp [Document.updated] at hlive
    exact (hattainable hamended.authorized.1).apply hop hamended.applied

theorem Held.founded (hP : P.Lawful) {sv : Sysvars} {subject key payer did : Address} {funds : ℕ}
    (hA : Answers P sv funds) (hfounder : P.Founder subject key) {bump : UInt8}
    (hfind : P.deriveProgramAddress [didSeed, subject.val] = some (did, bump))
    (hne : payer ≠ did) :
    ∃ c L, Step P (Ledger.funded payer funds) (.accepted c) L ∧
      Held P subject payer did funds L (Body.first key) := by
  rcases hfounder with ⟨rfl, hcurve⟩ | ⟨nonce, ownedBump, howned⟩
  · exact created hP hA hcurve hfind hne
  · exact created_owned hP hA howned hfind hne

/-- A live DID has exactly the lists that are attainable from its founding key, as far as its
other Ed25519 keys are points of the curve. -/
theorem reached_documents (hP : P.Lawful) {subject did : Address} {bump : UInt8} {b : Body}
    (hfind : P.deriveProgramAddress [didSeed, subject.val] = some (did, bump))
    (hkeys : ∀ m ∈ b.methods, m.methodType = vmTypeEd25519 → m.fragment ≠ defaultFragment →
      P.isCurvePoint m.key = true) :
    (∃ L₀ turns L d, Fresh L₀ ∧ Run (Step P) L₀ turns L ∧ L.DidAt P did d ∧
      d.subject = subject ∧ d.deactivated = 0 ∧ d.body = b) ↔
    ∃ key, P.Founder subject key ∧ b.Attainable subject key := by
  constructor
  · rintro ⟨L₀, turns, L, d, h₀, hrun, hd, rfl, hlive, rfl⟩
    have hreg : Registered P L did d := (sound_of_run hP h₀ hrun).registered_of_didAt hd
    obtain ⟨key, hfounder, hattainable⟩ := attainable_of_run hP h₀ hrun did d hreg
    exact ⟨key, hfounder, hattainable hlive⟩
  · rintro ⟨key, hfounder, hattainable⟩
    obtain ⟨payer, hne⟩ := exists_payer did
    have hA : Answers P Sample.sysvars (10 ^ 9) := Sample.answers P
    obtain ⟨c, L₁, hstep, hheld⟩ := Held.founded hP hA hfounder hfind hne
    obtain ⟨turns, L, hrun, hheld'⟩ := hheld.run hP hA (hattainable.made hkeys)
    obtain ⟨d, hd, hsubject, hlive, hbody⟩ := hheld'.registered
    have hfirst : Run (Step P) (Ledger.funded payer (10 ^ 9)) ([] ++ [.accepted c]) L₁ :=
      Run.start.snoc hstep
    exact ⟨_, _, L, d, Ledger.funded_fresh payer _, hfirst.trans hrun, hd.didAt, hsubject, hlive,
      hbody⟩

namespace Sample

def handedOver : Body :=
  ⟨[], [], [⟨[112], vmTypeEd25519, vmFlagsDefault, controller.val⟩], []⟩

theorem handedOver_attainable : handedOver.Attainable subject subject where
  wellFormed :=
    { natives_le := by decide
      others_le := by decide
      methods_le := by decide
      services_le := by decide
      fragments := by decide
      methods := by
        intro m hm
        rw [List.mem_singleton.mp hm]
        exact ⟨validFragment_iff.mp (by decide), Or.inl ⟨rfl, controller.length_eq⟩, by decide,
          by decide⟩
      services := by simp [handedOver]
      natives := by simp [handedOver]
      others := by simp [handedOver] }
  authority := by decide
  names := by
    refine ⟨by simp [handedOver], ?_⟩
    intro m hm hname
    rw [List.mem_singleton.mp hm] at hname
    exact absurd hname (by decide)
  founding := by simp [handedOver]
  room := by simp [handedOver, maxVerificationMethods]

end Sample

theorem reached_documents_sample :
    ∃ L₀ turns L d, Fresh L₀ ∧ Run (Step Sample.platform) L₀ turns L ∧
      L.DidAt Sample.platform Sample.did d ∧ d.subject = Sample.subject ∧ d.deactivated = 0 ∧
      d.body = Sample.handedOver := by
  have hfind : Sample.platform.deriveProgramAddress [didSeed, Sample.subject.val] =
      some (Sample.did, 255) := by decide
  refine (reached_documents Sample.platform_lawful hfind ?_).mpr
    ⟨Sample.subject, Or.inl ⟨rfl, by decide⟩, Sample.handedOver_attainable⟩
  intro m hm _ _
  rw [List.mem_singleton.mp hm]
  decide

end BioDidRegistry
