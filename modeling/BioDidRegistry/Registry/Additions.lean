import BioDidRegistry.Registry.Requests

/-!
# Adding a method, directly and through a buffer

Both ways ask the same questions. `admission` is what is asked before the key bytes are
looked at. A direct addition then looks at the key. The opening of a buffer stops there,
and the finish asks again before it looks at the key.
-/

namespace BioDidRegistry

open BinaryFormat Verdict Reader

variable {P : Platform} {sv : Sysvars} {L L' : Ledger}

/-- What is asked of a new method before its key bytes. -/
def admission (P : Platform) (L : Ledger) (did signer : Address) (controller : Option AccountView)
    (nm : NewMethod) : Except Fault Unit := do
  ensure (expectedKeyLen nm.methodType).isSome .invalidInstructionData
  let doc ← DidView.parse (L did).data
  authorize P L doc signer controller
  doc.checkNewMethod nm

section Admission

variable {did signer : Address} {controller : Option AccountView} {nm : NewMethod} {d : Document}
  {e : Fault}

theorem admission_ok_iff (hd : IsDid P L did d) : admission P L did signer controller nm = .ok () ↔
    Authorized P L d signer controller ∧ d.body.admits nm = .ok () := by
  obtain ⟨view, hview, hshows⟩ := hd.exists_view
  unfold admission
  simp only [except_bind_ok_iff, ensure_eq_ok, hview, Except.ok.injEq, exists_eq_left',
    authorize_ok_iff hshows]
  constructor
  · rintro ⟨_, -, _, hauth, hcheck⟩
    obtain ⟨_, hadmits, -⟩ := (hcheck ▸ hshows.checkNewMethod_agrees nm).of_ok
    exact ⟨hauth, hadmits⟩
  · rintro ⟨hauth, hadmits⟩
    obtain ⟨_, hcheck, -⟩ := (hadmits ▸ hshows.checkNewMethod_agrees nm).ok_of
    obtain ⟨-, -, -, -, hknown, -⟩ := Body.admits_ok_iff.mp hadmits
    exact ⟨(), by rw [hknown]; rfl, (), hauth, hcheck⟩

theorem admission_unknown (hknown : (expectedKeyLen nm.methodType).isSome = false) :
    admission P L did signer controller nm = .error (.program .invalidInstructionData) := by
  unfold admission
  rw [hknown]
  rfl

/-- The questions a known type leaves. -/
theorem admission_known (hknown : (expectedKeyLen nm.methodType).isSome = true) :
    admission P L did signer controller nm = (do
      let doc ← DidView.parse (L did).data
      authorize P L doc signer controller
      doc.checkNewMethod nm) := by
  unfold admission
  rw [hknown]
  rfl

end Admission

/-! ### The direct addition -/

theorem addVerificationMethod_refused {u : Update} {m : Method} {mach : Machine} {e : Fault}
    (hm : (Op.addVm m).Encodable) (h : (do
      admission P mach.ledger u.didAccount.address u.authority.address u.controller m.toNew
      checkNewKey P.isCurvePoint m.toNew m.key u.authority.address) = .error e) :
    Op.run P sv u (Op.addVm m).args .addVerificationMethod mach = .error e mach := by
  by_cases hknown : (expectedKeyLen m.methodType).isSome = true
  · have hparse := AddVerificationMethod.parse_ok_iff.mpr ⟨m, rfl, hm, hknown, rfl⟩
    rw [admission_known hknown] at h
    refine (updateDocument_eq hparse).trans ?_
    have hplan : (do
        let doc ← DidView.parse (mach.ledger u.didAccount.address).data
        authorize P mach.ledger doc u.authority.address u.controller
        AddVerificationMethod.check P u doc (m.toNew, m.key)) = .error e := by
      simpa [AddVerificationMethod.check, except_bind_error_iff] using h
    rw [hplan]
    rfl
  · have hunknown : (expectedKeyLen m.methodType).isSome = false := Bool.eq_false_iff.mpr hknown
    rw [admission_unknown hunknown] at h
    cases h
    exact updateDocument_error (AddVerificationMethod.parse_unknown hm hknown)

/-! ### The addition through a buffer -/

theorem lift_bind_error {α β : Type} {x : Except Fault α} {e : Fault} (h : x = .error e)
    (f : α → Exec β) (m : Machine) : ((liftM x : Exec α) >>= f) m = .error e m := by
  subst h
  rfl

theorem CreateKeyBuffer.parse_unknown {nm : NewMethod} (hnm : nm.Encodable)
    (h : (expectedKeyLen nm.methodType).isSome = false) :
    eval parse (new .args nm.args) = .error (.program .invalidInstructionData) := by
  rw [parse_eq, eval_whole readNewMethod_reads _ hnm, h]
  rfl

section Buffer

variable {payer authority did buffer system : AccountView} {rest : List AccountView}
  {m : Machine} {d : Document} {e : Fault}

theorem createKeyBuffer_refused {nm : NewMethod}
    (hroles : payer.isSigner = true ∧ payer.isWritable = true ∧ authority.isSigner = true ∧
      system.address = systemProgram ∧ buffer.isWritable = true)
    (hd : IsDid P m.ledger did.address d) (hnm : nm.Encodable)
    (h : admission P m.ledger did.address authority.address rest.head? nm = .error e) :
    CreateKeyBuffer.process P sv (payer :: authority :: did :: buffer :: system :: rest) nm.args
      m = .error e m := by
  obtain ⟨hsigner, hwritable, hauthority, hsystem, hbuffer⟩ := hroles
  have hpayer : checkPayer payer = .ok () := by simp [checkPayer, hsigner, hwritable]
  have hsigned : checkAuthoritySigner authority = .ok () := by
    simp [checkAuthoritySigner, hauthority]
  have hprogram : checkSystemProgram system = .ok () := by simp [checkSystemProgram, hsystem]
  unfold CreateKeyBuffer.process
  simp only [Exec.ledger_bind]
  rw [lift_bind_run hpayer, lift_bind_run hsigned, lift_bind_run hprogram,
    lift_bind_run (hd.loadDidAccount rfl), lift_bind_run ((ensure_eq_ok (u := ())).mpr hbuffer)]
  by_cases hknown : (expectedKeyLen nm.methodType).isSome = true
  · rw [lift_bind_run (CreateKeyBuffer.parse_ok_iff.mpr ⟨rfl, hnm, hknown⟩)]
    rw [admission_known hknown] at h
    rcases except_bind_error_iff.mp h with hview | ⟨view, hview, h⟩
    · exact lift_bind_error hview _ _
    · rw [lift_bind_run hview]
      rcases except_bind_error_iff.mp h with hauth | ⟨_, hauth, h⟩
      · exact lift_bind_error hauth _ _
      · rw [lift_bind_run hauth]
        exact lift_bind_error h _ _
  · have hunknown : (expectedKeyLen nm.methodType).isSome = false := Bool.eq_false_iff.mpr hknown
    rw [admission_unknown hunknown] at h
    cases h
    exact lift_bind_error (CreateKeyBuffer.parse_unknown hnm hunknown) _ _

/-- What refuses the method or its key refuses the finish of a complete buffer. -/
theorem finish_refused_of {kb : KeyBuffer}
    (hroles : payer.isSigner = true ∧ payer.isWritable = true ∧ authority.isSigner = true ∧
      system.address = systemProgram ∧ did.isWritable = true ∧ buffer.isWritable = true)
    (hd : IsDid P m.ledger did.address d) (hkb : IsBuffer P m.ledger buffer.address kb)
    (hbound : kb.authority = authority.address ∧ kb.didAccount = did.address)
    (hcomplete : kb.received.length = kb.method.keyLen)
    (hrefused : (do
      admission P m.ledger did.address authority.address rest.head? kb.method
      checkNewKey P.isCurvePoint kb.method kb.received authority.address) = .error e) :
    AddVerificationMethodFromBuffer.process P sv
      (payer :: authority :: did :: buffer :: system :: rest) [] m = .error e m := by
  obtain ⟨hsigner, hwritable, hauthority, hsystem, hdid, hbuffer⟩ := hroles
  have hpayer : checkPayer payer = .ok () := by simp [checkPayer, hsigner, hwritable]
  have hsigned : checkAuthoritySigner authority = .ok () := by
    simp [checkAuthoritySigner, hauthority]
  have hprogram : checkSystemProgram system = .ok () := by simp [checkSystemProgram, hsystem]
  have hverify : verifyDidAccount P m.ledger did = .ok d.subject := by
    rw [verifyDidAccount, hdid, hd.loadDidAccount rfl]
    rfl
  have hown : verifyKeyBuffer P m.ledger buffer authority.address (some did.address) = .ok () :=
    (verifyKeyBuffer_ok_iff hkb).mpr ⟨hbuffer, hbound.1, fun x hx =>
      hbound.2.trans (Option.some.inj hx)⟩
  have hcheck : AddVerificationMethodFromBuffer.check P m.ledger authority did buffer rest.head? =
      .error e := by
    rw [AddVerificationMethodFromBuffer.check_eq hkb,
      (require_eq_ok (u := ())).mpr (beq_iff_eq.mpr hcomplete), except_bind_ok]
    unfold admission at hrefused
    simp only [bind_assoc] at hrefused ⊢
    simp only [except_bind_error_iff] at hrefused ⊢
    rcases hrefused with hknown | ⟨_, hknown, hview | ⟨view, hview, hauth | ⟨_, hauth, hnew |
      ⟨_, hnew, hkey⟩⟩⟩⟩
    · exact Or.inl hknown
    · exact Or.inr ⟨_, hknown, Or.inl hview⟩
    · exact Or.inr ⟨_, hknown, Or.inr ⟨view, hview, Or.inl hauth⟩⟩
    · exact Or.inr ⟨_, hknown, Or.inr ⟨view, hview, Or.inr ⟨_, hauth, Or.inl hnew⟩⟩⟩
    · exact Or.inr ⟨_, hknown, Or.inr ⟨view, hview, Or.inr ⟨_, hauth,
        Or.inr ⟨_, hnew, Or.inl hkey⟩⟩⟩⟩
  unfold AddVerificationMethodFromBuffer.process
  simp only [Exec.ledger_bind]
  rw [lift_bind_run ((eval_finish_ok_iff (u := ())).mpr rfl), lift_bind_run hpayer,
    lift_bind_run hsigned, lift_bind_run hprogram, lift_bind_run hverify, lift_bind_run hown]
  exact lift_bind_error hcheck _ _

theorem finish_refused {kb : KeyBuffer}
    (hroles : payer.isSigner = true ∧ payer.isWritable = true ∧ authority.isSigner = true ∧
      system.address = systemProgram ∧ did.isWritable = true ∧ buffer.isWritable = true)
    (hd : IsDid P m.ledger did.address d) (hkb : IsBuffer P m.ledger buffer.address kb)
    (hbound : kb.authority = authority.address ∧ kb.didAccount = did.address)
    (hcomplete : kb.received.length = kb.method.keyLen)
    (hadmitted : admission P m.ledger did.address authority.address rest.head? kb.method = .ok ())
    (hkey : checkNewKey P.isCurvePoint kb.method kb.received authority.address = .error e) :
    AddVerificationMethodFromBuffer.process P sv
      (payer :: authority :: did :: buffer :: system :: rest) [] m = .error e m := by
  refine finish_refused_of hroles hd hkb hbound hcomplete ?_
  rw [hadmitted, except_bind_ok, hkey]

end Buffer

end BioDidRegistry
