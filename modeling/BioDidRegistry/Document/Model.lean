import BioDidRegistry.Document.Format
import BioDidRegistry.Program.Memory

/-!
# The rules of an update

A plain rendering of what each update does to the lists of a document, with its
refusals in the order they are reported. Nothing here knows of bytes, spans or
accounts.
-/

namespace BioDidRegistry

/-- Refuses with `err` unless `cond` holds. -/
def demand (cond : Bool) (err : DidError) : Except DidError Unit :=
  if cond then .ok () else .error err

@[simp] theorem demand_eq_ok {cond : Bool} {err : DidError} {u : Unit} :
    demand cond err = .ok u ↔ cond = true := by
  cases cond <;> simp [demand]

/-- An update of a document, with its arguments. -/
inductive Op
  | addVm (m : Method)
  | removeVm (fragment : Bytes)
  | setFlags (fragment : Bytes) (flags : UInt16)
  | addService (svc : Service)
  | updateService (svc : Service)
  | removeService (fragment : Bytes)
  | setControllers (natives : List Address) (others : List Bytes)
  | deactivate
  deriving DecidableEq

/-- The flags a method of the type may carry. -/
def flagsAllowed (methodType : UInt8) (flags : UInt16) : Bool :=
  flags &&& ~~~vmValidMask == 0 &&
    (!hasFlag flags (vmFlagCapabilityInvocation ||| vmFlagProtected) ||
      methodType == vmTypeEd25519) &&
    (!hasFlag flags vmFlagProtected || hasFlag flags vmFlagCapabilityInvocation) &&
    (methodType != vmTypeX25519 ||
      flags &&& vmRelationshipMask &&& ~~~vmFlagKeyAgreement == 0) &&
    (methodType != vmTypeDilithium5 || flags &&& vmFlagKeyAgreement == 0)

namespace Method

def isProtected (m : Method) : Bool := hasFlag m.flags vmFlagProtected

def toNew (m : Method) : NewMethod := ⟨m.fragment, m.methodType, m.flags, m.key.length⟩

def keyAllowed (isCurvePoint : Bytes → Bool) (signer : Address) (m : Method) : Bool :=
  (m.methodType != vmTypeEd25519 || m.key == signer.val || isCurvePoint m.key) &&
    (m.methodType != vmTypeSecp256k1 || m.key.head? == some 0x02 || m.key.head? == some 0x03)

end Method

def Service.valuesAllowed (svc : Service) : Bool :=
  validUriAscii svc.serviceType maxServiceTypeLen && validUriAscii svc.endpoint maxEndpointLen

/-- Every entry is acceptable and no two are the same. -/
def entriesAllowed {α : Type} [DecidableEq α] (ok : α → Bool) (xs : List α) : Bool :=
  xs.all ok && decide xs.Nodup

namespace Body

def taken (b : Body) (fragment : Bytes) : Bool :=
  b.methods.any (fun m => m.fragment == fragment) ||
    b.services.any fun svc => svc.fragment == fragment

def methodIdx (b : Body) (fragment : Bytes) : ℕ :=
  b.methods.findIdx fun m => m.fragment == fragment

def serviceIdx (b : Body) (fragment : Bytes) : ℕ :=
  b.services.findIdx fun svc => svc.fragment == fragment

/-- The rules a new method passes before its key bytes are looked at. -/
def admits (b : Body) (m : NewMethod) : Except DidError Unit := do
  demand (b.methods.length < maxVerificationMethods) .tooManyVerificationMethods
  demand (validFragment m.fragment) .invalidFragment
  demand (!b.taken m.fragment) .fragmentAlreadyInUse
  demand (m.fragment != defaultFragment) .invalidFragment
  demand (expectedKeyLen m.methodType == some m.keyLen) .invalidKeyLength
  demand (flagsAllowed m.methodType m.flags) .invalidFlags

variable (isCurvePoint : Bytes → Bool) (signer subject : Address)

/-- The rules of the key bytes. -/
def admitsKey (m : Method) : Except DidError Unit := do
  demand (!m.isProtected || m.key == signer.val) .protectedVerificationMethod
  demand (m.keyAllowed isCurvePoint signer) .invalidKey

def addVm (m : Method) (b : Body) : Except DidError Body := do
  b.admits m.toNew
  admitsKey isCurvePoint signer m
  pure { b with methods := b.methods ++ [m] }

def removeVm (fragment : Bytes) (b : Body) : Except DidError Body :=
  match b.methods[b.methodIdx fragment]? with
  | none => .error .verificationMethodNotFound
  | some m => do
    demand (!m.isProtected || m.key == signer.val) .protectedVerificationMethod
    demand (!m.isAuthority || 1 < b.authorityCount) .lastAuthority
    pure { b with methods := b.methods.eraseIdx (b.methodIdx fragment) }

def setFlags (fragment : Bytes) (flags : UInt16) (b : Body) : Except DidError Body :=
  match b.methods[b.methodIdx fragment]? with
  | none => .error .verificationMethodNotFound
  | some m => do
    demand (!hasFlag (m.flags ||| flags) vmFlagProtected || m.key == signer.val)
      .protectedVerificationMethod
    demand (flagsAllowed m.methodType flags) .invalidFlags
    demand (!(m.isAuthority && !hasFlag flags vmFlagCapabilityInvocation) ||
      1 < b.authorityCount) .lastAuthority
    pure { b with methods := b.methods.set (b.methodIdx fragment) { m with flags } }

def addService (svc : Service) (b : Body) : Except DidError Body := do
  demand (b.services.length < maxServices) .tooManyServices
  demand (validFragment svc.fragment) .invalidFragment
  demand (!b.taken svc.fragment) .fragmentAlreadyInUse
  demand (svc.fragment != defaultFragment) .invalidFragment
  demand svc.valuesAllowed .invalidServiceValue
  pure { b with services := b.services ++ [svc] }

def updateService (svc : Service) (b : Body) : Except DidError Body :=
  match b.services[b.serviceIdx svc.fragment]? with
  | none => .error .serviceNotFound
  | some _ => do
    demand svc.valuesAllowed .invalidServiceValue
    pure { b with services := b.services.set (b.serviceIdx svc.fragment) svc }

def removeService (fragment : Bytes) (b : Body) : Except DidError Body :=
  match b.services[b.serviceIdx fragment]? with
  | none => .error .serviceNotFound
  | some _ => pure { b with services := b.services.eraseIdx (b.serviceIdx fragment) }

def setControllers (natives : List Address) (others : List Bytes) (b : Body) :
    Except DidError Body := do
  demand (natives.length ≤ maxNativeControllers && others.length ≤ maxOtherControllers)
    .tooManyControllers
  demand (entriesAllowed (fun key => key != subject) natives) .invalidController
  demand (entriesAllowed validExternalController others) .invalidController
  pure { b with natives, others }

/-- What an update does to the lists, when `signer` may make it. -/
def apply : Op → Body → Except DidError Body
  | .addVm m => addVm isCurvePoint signer m
  | .removeVm fragment => removeVm signer fragment
  | .setFlags fragment flags => setFlags signer fragment flags
  | .addService svc => addService svc
  | .updateService svc => updateService svc
  | .removeService fragment => removeService fragment
  | .setControllers natives others => setControllers subject natives others
  | .deactivate => fun _ => pure empty

end Body

/-! ### What an accepted update did -/

theorem exists_split {γ : Type} {xs : List γ} {i : ℕ} {x : γ} (h : xs[i]? = some x) :
    ∃ before after, xs = before ++ x :: after ∧ xs.take i = before ∧
      xs.eraseIdx i = before ++ after ∧ ∀ y, xs.set i y = before ++ y :: after := by
  obtain ⟨hi, rfl⟩ := List.getElem?_eq_some_iff.mp h
  refine ⟨xs.take i, xs.drop (i + 1), ?_, rfl, List.eraseIdx_eq_take_drop_succ _ _, fun y => ?_⟩
  · rw [List.cons_getElem_drop_succ, List.take_append_drop]
  · exact List.set_eq_take_append_cons_drop.trans (if_pos hi)

theorem findIdx_accepts {γ : Type} {xs : List γ} {p : γ → Bool} {x : γ}
    (h : xs[xs.findIdx p]? = some x) : p x = true := by
  obtain ⟨hlt, rfl⟩ := List.getElem?_eq_some_iff.mp h
  exact List.findIdx_getElem

namespace Body

variable {isCurvePoint : Bytes → Bool} {signer subject : Address} {b b' : Body}

theorem admits_ok_iff {m : NewMethod} {u : Unit} : b.admits m = .ok u ↔
    b.methods.length < maxVerificationMethods ∧ validFragment m.fragment = true ∧
      b.taken m.fragment = false ∧ m.fragment ≠ defaultFragment ∧
        expectedKeyLen m.methodType = some m.keyLen ∧ flagsAllowed m.methodType m.flags = true := by
  simp [admits, except_bind_ok_iff]

theorem admitsKey_ok_iff {m : Method} {u : Unit} : admitsKey isCurvePoint signer m = .ok u ↔
    (m.isProtected = true → m.key = signer.val) ∧ m.keyAllowed isCurvePoint signer = true := by
  simp [admitsKey, except_bind_ok_iff, imp_iff_not_or]

theorem addVm_ok_iff {m : Method} : addVm isCurvePoint signer m b = .ok b' ↔
    b.admits m.toNew = .ok () ∧ admitsKey isCurvePoint signer m = .ok () ∧
      b' = { b with methods := b.methods ++ [m] } := by
  simp only [addVm, except_bind_ok_iff, except_pure, Except.ok.injEq]
  constructor
  · rintro ⟨_, hm, _, hkey, rfl⟩
    exact ⟨hm, hkey, rfl⟩
  · rintro ⟨hm, hkey, rfl⟩
    exact ⟨(), hm, (), hkey, rfl⟩

theorem removeVm_ok {fragment : Bytes} (h : removeVm signer fragment b = .ok b') :
    ∃ before m after, b.methods = before ++ m :: after ∧ m.fragment = fragment ∧
      (m.isProtected = true → m.key = signer.val) ∧
      (m.isAuthority = true → 1 < b.authorityCount) ∧
      b' = { b with methods := before ++ after } := by
  unfold removeVm at h
  split at h
  · cases h
  · rename_i m hm
    obtain ⟨before, after, hsplit, -, herase, -⟩ := exists_split hm
    have hfound := findIdx_accepts hm
    simp only [except_bind_ok_iff, demand_eq_ok, Bool.or_eq_true, Bool.not_eq_true',
      beq_iff_eq, decide_eq_true_eq, except_pure, Except.ok.injEq] at h hfound
    obtain ⟨-, hprot, -, hauth, rfl⟩ := h
    refine ⟨before, m, after, hsplit, hfound, ?_, ?_, by rw [herase]⟩
    · intro hp
      simpa [hp] using hprot
    · intro ha
      simpa [ha] using hauth

theorem setFlags_ok {fragment : Bytes} {flags : UInt16}
    (h : setFlags signer fragment flags b = .ok b') :
    ∃ before m after, b.methods = before ++ m :: after ∧ m.fragment = fragment ∧
      (hasFlag (m.flags ||| flags) vmFlagProtected = true → m.key = signer.val) ∧
      flagsAllowed m.methodType flags = true ∧
      (m.isAuthority = true → hasFlag flags vmFlagCapabilityInvocation = false →
        1 < b.authorityCount) ∧
      b' = { b with methods := before ++ { m with flags } :: after } := by
  unfold setFlags at h
  split at h
  · cases h
  · rename_i m hm
    obtain ⟨before, after, hsplit, -, -, hset⟩ := exists_split hm
    have hfound := findIdx_accepts hm
    simp only [except_bind_ok_iff, demand_eq_ok, Bool.or_eq_true, Bool.not_eq_true',
      beq_iff_eq, decide_eq_true_eq, except_pure, Except.ok.injEq] at h hfound
    obtain ⟨-, hprot, -, hflags, -, hauth, rfl⟩ := h
    refine ⟨before, m, after, hsplit, hfound, ?_, hflags, ?_, by rw [hset]⟩
    · intro hp
      simpa [hp] using hprot
    · intro ha hf
      simpa [ha, hf] using hauth

theorem addService_ok_iff {svc : Service} : addService svc b = .ok b' ↔
    (b.services.length < maxServices ∧ validFragment svc.fragment = true ∧
      b.taken svc.fragment = false ∧ svc.fragment ≠ defaultFragment ∧
        svc.valuesAllowed = true) ∧ b' = { b with services := b.services ++ [svc] } := by
  simp only [addService, except_bind_ok_iff, demand_eq_ok, decide_eq_true_eq,
    Bool.not_eq_true', bne_iff_ne, except_pure, Except.ok.injEq]
  constructor
  · rintro ⟨-, hcount, -, hfrag, -, hfree, -, hdefault, -, hvalues, rfl⟩
    exact ⟨⟨hcount, hfrag, hfree, hdefault, hvalues⟩, rfl⟩
  · rintro ⟨⟨hcount, hfrag, hfree, hdefault, hvalues⟩, rfl⟩
    exact ⟨(), hcount, (), hfrag, (), hfree, (), hdefault, (), hvalues, rfl⟩

theorem updateService_ok {svc : Service} (h : updateService svc b = .ok b') :
    ∃ before old after, b.services = before ++ old :: after ∧ old.fragment = svc.fragment ∧
      svc.valuesAllowed = true ∧ b' = { b with services := before ++ svc :: after } := by
  unfold updateService at h
  split at h
  · cases h
  · rename_i old hold
    obtain ⟨before, after, hsplit, -, -, hset⟩ := exists_split hold
    have hfound := findIdx_accepts hold
    simp only [except_bind_ok_iff, demand_eq_ok, except_pure, Except.ok.injEq, beq_iff_eq]
      at h hfound
    obtain ⟨-, hvalues, rfl⟩ := h
    exact ⟨before, old, after, hsplit, hfound, hvalues, by rw [hset]⟩

theorem removeService_ok {fragment : Bytes} (h : removeService fragment b = .ok b') :
    ∃ before svc after, b.services = before ++ svc :: after ∧ svc.fragment = fragment ∧
      b' = { b with services := before ++ after } := by
  unfold removeService at h
  split at h
  · cases h
  · rename_i svc hsvc
    obtain ⟨before, after, hsplit, -, herase, -⟩ := exists_split hsvc
    have hfound := findIdx_accepts hsvc
    simp only [except_pure, Except.ok.injEq, beq_iff_eq] at h hfound
    exact ⟨before, svc, after, hsplit, hfound, by rw [← h, herase]⟩

theorem setControllers_ok_iff {natives : List Address} {others : List Bytes} :
    setControllers subject natives others b = .ok b' ↔
      ((natives.length ≤ maxNativeControllers ∧ others.length ≤ maxOtherControllers) ∧
        (natives.Nodup ∧ subject ∉ natives) ∧
          others.Nodup ∧ ∀ o ∈ others, validExternalController o = true) ∧
        b' = { b with natives, others } := by
  have hsubject : (∀ x ∈ natives, x ≠ subject) ↔ subject ∉ natives := by
    constructor
    · intro h hmem
      exact h subject hmem rfl
    · rintro h x hx rfl
      exact h hx
  simp only [setControllers, except_bind_ok_iff, demand_eq_ok, entriesAllowed, Bool.and_eq_true,
    decide_eq_true_eq, List.all_eq_true, bne_iff_ne, hsubject, except_pure, Except.ok.injEq]
  constructor
  · rintro ⟨-, hcounts, -, ⟨hself, hnatives⟩, -, ⟨hvalid, hothers⟩, rfl⟩
    exact ⟨⟨hcounts, ⟨hnatives, hself⟩, hothers, hvalid⟩, rfl⟩
  · rintro ⟨⟨hcounts, ⟨hnatives, hself⟩, hothers, hvalid⟩, rfl⟩
    exact ⟨(), hcounts, (), ⟨hself, hnatives⟩, (), ⟨hvalid, hothers⟩, rfl⟩

end Body

namespace Document

/-- The initial document, with one protected `#default` Ed25519 method. -/
def initial (bump : UInt8) (subject key : Address) (now : Int64) : Document where
  version := 1
  bump := bump
  subject := subject
  deactivated := 0
  updatedAt := now
  body :=
    { natives := []
      others := []
      methods := [⟨defaultFragment, vmTypeEd25519, vmFlagsDefault, key.val⟩]
      services := [] }

/-- The document after an update that left it the lists `body`. -/
def updated (d : Document) (op : Op) (body : Body) (now : Int64) : Document where
  version := saturatingSucc d.version
  bump := d.bump
  subject := d.subject
  deactivated := if op = .deactivate then 1 else d.deactivated
  updatedAt := now
  body := body

/-- `signer` may update `d`, where `parent` is the document of the registry account
named after the instruction's own. -/
def authorize (d : Document) (signer : Address) (parent : Option Document) :
    Except DidError Unit := do
  demand (d.deactivated == 0) .didDeactivated
  if d.body.isAuthority signer then pure ()
  else match parent with
    | none => .error .unauthorized
    | some parent =>
      demand (decide (parent.subject ∈ d.body.natives) && parent.deactivated == 0 &&
        parent.body.isAuthority signer) .unauthorized

theorem authorize_ok_iff {d : Document} {signer : Address} {parent : Option Document} {u : Unit} :
    d.authorize signer parent = .ok u ↔ d.deactivated = 0 ∧ (d.body.isAuthority signer = true ∨
      ∃ p ∈ parent, p.subject ∈ d.body.natives ∧ p.deactivated = 0 ∧
        p.body.isAuthority signer = true) := by
  unfold authorize
  by_cases hdirect : d.body.isAuthority signer = true
  · simp [except_bind_ok_iff, hdirect]
  · cases parent with
    | none => simp [except_bind_ok_iff, hdirect]
    | some p => simp [except_bind_ok_iff, hdirect, and_assoc]

/-- An update under the rules: the signer's authority, then the update's own. -/
def apply (isCurvePoint : Bytes → Bool) (d : Document) (signer : Address)
    (parent : Option Document) (op : Op) (now : Int64) : Except DidError Document := do
  d.authorize signer parent
  let body ← d.body.apply isCurvePoint signer d.subject op
  pure (d.updated op body now)

/-- Stamping the result refuses nothing. -/
theorem refused_of_apply {isCurvePoint : Bytes → Bool} {d : Document} {signer : Address}
    {parent : Option Document} {op : Op} {now : Int64} {e : DidError}
    (h : d.apply isCurvePoint signer parent op now = .error e) : (do
      d.authorize signer parent
      d.body.apply isCurvePoint signer d.subject op) = .error e := by
  unfold apply at h
  cases hauth : d.authorize signer parent with
  | error e' =>
    rw [hauth] at h
    cases h
    rfl
  | ok u =>
    rw [hauth, except_bind_ok] at h
    rw [except_bind_ok]
    cases hbody : d.body.apply isCurvePoint signer d.subject op with
    | error e' =>
      rw [hbody] at h
      cases h
      rfl
    | ok body =>
      rw [hbody] at h
      cases h

end Document

end BioDidRegistry
