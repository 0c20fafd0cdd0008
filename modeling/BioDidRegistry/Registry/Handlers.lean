import BioDidRegistry.Document.Sizes
import BioDidRegistry.Registry.Arguments
import BioDidRegistry.Registry.Updates

/-!
# The updates follow the model

Every handler of an update, on the account of a document, succeeds exactly when the
model accepts the update and the rent can be settled, and refuses with the model's own
complaint otherwise. `Renders` says this of one computation.
-/

namespace BioDidRegistry

open BinaryFormat Verdict Reader Outcome

variable {P : Platform} {sv : Sysvars}

/-- On the account of `d` the computation `x` is the update `op`. -/
structure Renders (P : Platform) (sv : Sysvars) (u : Update) (d : Document) (op : Op)
    (event : Bytes) (m : Machine) (x : Exec Unit) : Prop where
  ok_iff : ∀ m', x m = .ok () m' ↔
    Authorized P m.ledger d u.authority.address u.controller ∧
      ∃ body, d.body.apply P.isCurvePoint u.authority.address d.subject op = .ok body ∧
        ∃ v m₁, Commits P sv u.didAccount u.payer d op body m v m₁ ∧
          m' = ⟨m₁.ledger, m₁.log ++ [eventBytes event u.didAccount.address u.subject v]⟩
  refused : ∀ parent e, NamedBy P m.ledger u.controller parent →
    (do d.authorize u.authority.address parent
        d.body.apply P.isCurvePoint u.authority.address d.subject op) = .error e →
    x m = .error e.fault m
  refuses : Refuses m.ledger (Orderly P sv m.ledger u.didAccount u.payer) (x m)

section Document

variable {α β : Type} {t : Target} {args event : Bytes} {parse : Read .args α}
  {check : DidView → α → Except Fault β} {commit : α → β → Exec UInt64} {a : α} {m : Machine}

/-- The parts of an update in the order they run, once its arguments are read. -/
theorem updateDocument_eq (hparse : eval parse (new .args args) = .ok a) :
    updateDocument P t args parse check commit event m =
      (liftM (do
        let doc ← DidView.parse (m.ledger t.didAccount.address).data
        authorize P m.ledger doc t.authority.address t.controller
        check doc a) >>= fun plan => commit a plan >>= fun v =>
          emit event t.didAccount.address t.subject v) m := by
  unfold updateDocument
  rw [lift_bind_run hparse, Exec.ledger_bind]
  cases DidView.parse (m.ledger t.didAccount.address).data with
  | error e => rfl
  | ok doc =>
    rw [lift_bind_run rfl, except_bind_ok]
    cases authorize P m.ledger doc t.authority.address t.controller with
    | error e => rfl
    | ok _ => rfl

theorem updateDocument_error {e : Fault} (hparse : eval parse (new .args args) = .error e) :
    updateDocument P t args parse check commit event m = .error e m := by
  unfold updateDocument
  rw [hparse]
  rfl

end Document

theorem Authorized.length_encode {L : Ledger} {d : Document} {signer : Address}
    {controller : Option AccountView} (h : Authorized P L d signer controller) :
    Body.empty.encode.length < d.body.encode.length := by
  have hempty : Body.empty.encode.length = 16 := rfl
  rw [hempty, Body.length_encode_eq]
  rcases h.2 with hdirect | ⟨c, p, -, -, hmem, -, -⟩
  · simp only [Body.isAuthority, List.any_eq_true] at hdirect
    obtain ⟨method, hmethod, -⟩ := hdirect
    have hpos : 0 < (d.body.methods.flatMap Method.encode).length := by
      rw [List.length_flatMap]
      refine (show 0 < method.encode.length by simp).trans_le ?_
      exact List.single_le_sum (by simp) _ (List.mem_map_of_mem hmethod)
    omega
  · have hpos : 0 < d.body.natives.length := List.length_pos_of_mem hmem
    omega

/-- An update whose check follows the model and whose commit does what the check
planned. -/
theorem renders_of {α β : Type} {u : Update} {args event : Bytes} {parse : Read .args α}
    {check : DidView → α → Except Fault β} {commit : α → β → Exec UInt64} {a : α} {m : Machine}
    {d : Document} {op : Op} {R : β → Body → Prop}
    (hd : IsDid P m.ledger u.didAccount.address d)
    (hparse : eval parse (new .args args) = .ok a)
    (hcheck : ∀ v : DidView, v.Shows d.head d.body → Agrees DidError.fault R (check v a)
      (d.body.apply P.isCurvePoint u.authority.address d.subject op))
    (hcommit : ∀ plan body, Authorized P m.ledger d u.authority.address u.controller →
      d.body.apply P.isCurvePoint u.authority.address d.subject op = .ok body → R plan body →
      Edits P sv u.didAccount u.payer d op body m (commit a plan m)) :
    Renders P sv u d op event m (updateDocument P u.toTarget args parse check commit event) := by
  obtain ⟨view, hview, hshows⟩ := hd.exists_view
  have hrun : updateDocument P u.toTarget args parse check commit event m =
      (liftM (authorize P m.ledger view u.authority.address u.controller >>= fun _ =>
        check view a) >>= fun plan => commit a plan >>= fun v =>
          emit event u.didAccount.address u.subject v) m := by
    rw [updateDocument_eq hparse, hview]
    rfl
  constructor
  · intro m'
    rw [hrun, lift_bind_ok_iff]
    simp only [except_bind_ok_iff, authorize_ok_iff hshows]
    constructor
    · rintro ⟨plan, ⟨-, hauth, hplan⟩, hrest⟩
      obtain ⟨body, happly, hR⟩ := (hplan ▸ hcheck view hshows).of_ok
      obtain ⟨v, m₁, hc, hemit⟩ := bind_ok_iff.mp hrest
      cases hemit
      exact ⟨hauth, body, happly, v, m₁, ((hcommit plan body hauth happly hR).ok_iff v m₁).mp hc,
        rfl⟩
    · rintro ⟨hauth, body, happly, v, m₁, hc, rfl⟩
      obtain ⟨plan, hplan, hR⟩ := (happly ▸ hcheck view hshows).ok_of
      refine ⟨plan, ⟨(), hauth, hplan⟩, ?_⟩
      rw [bind_of_ok (((hcommit plan body hauth happly hR).ok_iff v m₁).mpr hc)]
      rfl
  · intro parent e hparent hmodel
    have hsigner : Agrees DidError.fault (fun _ _ => True)
        (authorize P m.ledger view u.authority.address u.controller)
        (d.authorize u.authority.address parent) := authorize_agrees hshows hparent
    have hverdict := hsigner.bind fun _ _ _ => hcheck view hshows
    rw [hmodel] at hverdict
    rw [hrun, hverdict.error_of]
    rfl
  · rw [hrun]
    apply Refuses.lift_bind
    · exact .bind (authorize_total hshows) fun _ _ => total_of_agrees (hcheck view hshows)
    · intro plan hplan
      simp only [except_bind_ok_iff, authorize_ok_iff hshows] at hplan
      obtain ⟨-, hauth, hplan⟩ := hplan
      obtain ⟨body, happly, hR⟩ := (hplan ▸ hcheck view hshows).of_ok
      exact .bind (hcommit plan body hauth happly hR).refuses fun _ _ _ => .ok _ _

/-! ### The eight updates -/

namespace Op

def event : Op → Bytes
  | deactivate => didDeactivated
  | _ => didModified

def run (P : Platform) (sv : Sysvars) (u : Update) (args : Bytes) : Ix → Exec Unit
  | .addVerificationMethod => updateDocument P u.toTarget args AddVerificationMethod.parse
      (AddVerificationMethod.check P u) (AddVerificationMethod.commit P sv u) didModified
  | .removeVerificationMethod => updateDocument P u.toTarget args parseFragment
      (RemoveVerificationMethod.check u) (fun _ => removeEntry P sv u) didModified
  | .setVerificationMethodFlags => updateDocument P u.toTarget args
      SetVerificationMethodFlags.parse (SetVerificationMethodFlags.check u.toTarget)
      (SetVerificationMethodFlags.commit sv u.toTarget) didModified
  | .addService => updateDocument P u.toTarget args AddService.parse AddService.check
      (AddService.commit P sv u) didModified
  | .updateService => updateDocument P u.toTarget args parseService UpdateService.check
      (UpdateService.commit P sv u) didModified
  | .removeService => updateDocument P u.toTarget args parseFragment RemoveService.check
      (fun _ => removeEntry P sv u) didModified
  | .setControllers => updateDocument P u.toTarget args SetControllers.parse
      (SetControllers.check u.subject) (SetControllers.commit P sv u args) didModified
  | .deactivate => updateDocument P u.toTarget args Reader.finish (fun _ _ => pure ())
      (fun _ _ => Deactivate.commit P sv u) didDeactivated
  | _ => throw (.program .invalidInstructionData)

end Op

theorem length_controllers_le {natives : List Address} {others : List Bytes}
    (hn : natives.length ≤ maxNativeControllers) (ho : others.length ≤ maxOtherControllers)
    (hvalid : ∀ o ∈ others, validExternalController o = true) :
    (vec Subtype.val natives ++ vec lenPrefix others).length ≤ 1320 := by
  have hothers := Body.length_others_le ho hvalid
  rw [maxNativeControllers] at hn
  have hnatives : (natives.flatMap Subtype.val).length ≤ natives.length * 32 :=
    length_flatMap_le fun a _ => (Block.length_eq a).le
  simp only [vec, List.length_append, length_u32Bytes]
  omega

variable {u : Update} {d : Document} {m : Machine}

/-- Each update, on the account of a document of any length an account can have. -/
theorem Op.run_renders (hP : P.Lawful) {op : Op} (hop : op.Encodable) (hknown : op.KnownType)
    (hd : IsDid P m.ledger u.didAccount.address d) (hsmall : d.encode.length < 2 ^ 63)
    (hsubject : u.subject = d.subject) :
    Renders P sv u d op op.event m (Op.run P sv u op.args op.ix) := by
  cases op with
  | addVm method =>
    refine renders_of hd (AddVerificationMethod.parse_ok_iff.mpr
      ⟨method, rfl, hop, hknown, rfl⟩) (fun v hv => addVerificationMethod_agrees hv P u method) ?_
    rintro plan body - happly ⟨rfl, rfl⟩
    obtain ⟨hm, hkey, -⟩ := Body.addVm_ok_iff.mp happly
    have hbound := (Body.wellFormed_of_admits hm hkey).length_encode_le
    exact addVerificationMethod_edits hP hd.data_eq hd.fits hsmall ⟨hop.1.1, hop.2⟩
      (by rw [maxPermittedDataIncrease]; omega)
  | removeVm fragment =>
    refine renders_of hd (parseFragment_ok_iff.mpr ⟨rfl, hop⟩)
      (fun v hv => removeVerificationMethod_agrees hv u fragment) ?_
    intro plan body hauth happly hcut
    exact cutMethod_edits hP hd.owner hd.data_eq (by simp) hcut
  | setFlags fragment flags =>
    refine renders_of hd (a := (fragment, flags))
      (SetVerificationMethodFlags.parse_ok_iff.mpr ⟨rfl, hop⟩)
      (fun v hv => setVerificationMethodFlags_agrees hv u.toTarget fragment flags) ?_
    intro plan body hauth happly hpatch
    exact setVerificationMethodFlags_edits hd.data_eq (by simp) hpatch
  | addService svc =>
    refine renders_of hd (AddService.parse_ok_iff.mpr ⟨svc, rfl, hop, rfl⟩)
      (fun v hv => addService_agrees hv svc.toArgs svc.encode.length) ?_
    rintro plan body - happly ⟨rfl, rfl⟩
    obtain ⟨⟨-, hfragment, -, -, hvalues⟩, -⟩ := Body.addService_ok_iff.mp happly
    have hbound := (Service.wellFormed_of_values hfragment hvalues).length_encode_le
    exact addService_edits hP hd.data_eq hd.fits hsmall
      (by rw [maxPermittedDataIncrease]; omega)
  | updateService svc =>
    refine renders_of hd (parseService_ok_iff.mpr ⟨svc, rfl, hop, rfl⟩)
      (fun v hv => updateService_agrees hv svc.toArgs) ?_
    intro plan body hauth happly hr
    have hgrow := Body.length_apply_le happly
    exact updateService_edits hP hd.owner hd.data_eq hsmall hop.fits
      (by rw [maxPermittedDataIncrease]; omega) (by simp) hr
  | removeService fragment =>
    refine renders_of hd (parseFragment_ok_iff.mpr ⟨rfl, hop⟩)
      (fun v hv => removeService_agrees hv fragment) ?_
    intro plan body hauth happly hcut
    exact cutService_edits hP hd.owner hd.data_eq (by simp) hcut
  | setControllers natives others =>
    have hparse : eval SetControllers.parse (new .args (Op.setControllers natives others).args) =
        .ok (.ofLists natives others (Op.setControllers natives others).args.length) :=
      SetControllers.parse_ok_iff.mpr ⟨natives, others, rfl, hop, rfl⟩
    refine renders_of hd hparse (R := fun tail body =>
      tail = ⟨d.body.sections.endPos, d.body.sections.vmCountPos⟩ ∧
        body = { d.body with natives, others }) (fun v hv => ?_) ?_
    · rw [hsubject]
      exact setControllers_agrees hv d.subject natives others _
    rintro plan body - happly ⟨rfl, rfl⟩
    obtain ⟨⟨⟨hn, ho⟩, -, -, hvalid⟩, -⟩ := Body.setControllers_ok_iff.mp happly
    refine setControllers_edits hP hd.owner hd.data_eq hsmall rfl rfl ?_ (by simp)
    exact (length_controllers_le hn ho hvalid).trans (by decide)
  | deactivate =>
    refine renders_of hd (a := ()) (eval_finish_ok_iff.mpr rfl)
      (R := fun _ body => body = Body.empty) (fun v hv => .ok rfl) ?_
    rintro plan body hauth - rfl
    exact deactivate_edits hP hd.owner hd.data_eq hauth.length_encode

/-! ### Loading the accounts -/

def Ix.isUpdate : Ix → Bool
  | .addVerificationMethod | .removeVerificationMethod | .setVerificationMethodFlags
  | .addService | .updateService | .removeService | .setControllers | .deactivate => true
  | _ => false

theorem Op.isUpdate_ix (op : Op) : op.ix.isUpdate = true := by cases op <;> rfl

/-- The accounts of an update. The one update without a payer, which never settles
rent, has its authority in that place. -/
def Ix.load (P : Platform) (L : Ledger) (accounts : List AccountView) : Ix → Except Fault Update
  | .setVerificationMethodFlags => do
    let t ← SetVerificationMethodFlags.target P L accounts
    pure { t with payer := t.authority }
  | _ => Update.tryFrom P L accounts

theorem Update.tryFrom_ok_iff {L : Ledger} {accounts : List AccountView} {u : Update} :
    Update.tryFrom P L accounts = .ok u ↔ ∃ system rest,
      accounts = u.payer :: u.authority :: u.didAccount :: system :: rest ∧
      u.payer.isSigner = true ∧ u.payer.isWritable = true ∧ u.authority.isSigner = true ∧
      system.address = systemProgram ∧ u.didAccount.isWritable = true ∧
      loadDidAccount P L u.didAccount = .ok u.subject ∧ u.controller = rest.head? := by
  match accounts with
  | [] => simp [Update.tryFrom]
  | [_] => simp [Update.tryFrom]
  | [_, _] => simp [Update.tryFrom]
  | [_, _, _] => simp [Update.tryFrom]
  | payer :: authority :: didAccount :: system :: rest =>
    simp only [Update.tryFrom, checkPayer, checkAuthoritySigner, checkSystemProgram,
      verifyDidAccount, except_bind_ok_iff, ensure_eq_ok, beq_iff_eq, except_pure,
      Except.ok.injEq, List.cons.injEq]
    constructor
    · rintro ⟨_, ⟨_, h1, h2⟩, _, h3, _, h4, subject, ⟨_, h5, h6⟩, rfl⟩
      exact ⟨system, rest, ⟨rfl, rfl, rfl, rfl, rfl⟩, h1, h2, h3, h4, h5, h6, rfl⟩
    · rintro ⟨system, rest, ⟨rfl, rfl, rfl, rfl, rfl⟩, h1, h2, h3, h4, h5, h6, h7⟩
      exact ⟨(), ⟨(), h1, h2⟩, (), h3, (), h4, u.subject, ⟨(), h5, h6⟩, by rw [← h7]⟩

theorem SetVerificationMethodFlags.target_ok_iff {L : Ledger} {accounts : List AccountView}
    {t : Target} : target P L accounts = .ok t ↔ ∃ rest,
      accounts = t.authority :: t.didAccount :: rest ∧ t.authority.isSigner = true ∧
      t.didAccount.isWritable = true ∧ loadDidAccount P L t.didAccount = .ok t.subject ∧
      t.controller = rest.head? := by
  match accounts with
  | [] => simp [target]
  | [_] => simp [target]
  | authority :: didAccount :: rest =>
    simp only [target, checkAuthoritySigner, verifyDidAccount, except_bind_ok_iff, ensure_eq_ok,
      except_pure, Except.ok.injEq, List.cons.injEq]
    constructor
    · rintro ⟨_, h1, subject, ⟨_, h2, h3⟩, rfl⟩
      exact ⟨rest, ⟨rfl, rfl, rfl⟩, h1, h2, h3, rfl⟩
    · rintro ⟨rest, ⟨rfl, rfl, rfl⟩, h1, h2, h3, h4⟩
      exact ⟨(), h1, t.subject, ⟨(), h2, h3⟩, by rw [← h4]⟩

theorem handler_update_eq {ix : Ix} (hix : ix.isUpdate = true) (accounts : List AccountView)
    (args : Bytes) (m : Machine) : handler P sv ix accounts args m =
      (liftM (ix.load P m.ledger accounts) >>= fun u => Op.run P sv u args ix) m := by
  cases ix with
  | setVerificationMethodFlags =>
    change SetVerificationMethodFlags.process P sv accounts args m = _
    unfold SetVerificationMethodFlags.process Ix.load
    rw [Exec.ledger_bind]
    cases SetVerificationMethodFlags.target P m.ledger accounts <;> rfl
  | addVerificationMethod | removeVerificationMethod | addService | updateService
  | removeService | setControllers | deactivate => rfl
  | initializeDid | initializeOwned | createKeyBuffer | writeKeyBuffer
  | addVerificationMethodFromBuffer | closeKeyBuffer => cases hix

/-- The arguments are those of one update, or the handler refuses them as they are. -/
theorem Op.understood_or_refused (P : Platform) (sv : Sysvars) (ix : Ix) (args : Bytes) :
    (∃ op : Op, op.ix = ix ∧ args = op.args ∧ op.Encodable ∧ op.KnownType) ∨
      ∃ e, e ≠ .panic ∧ ∀ u m, Op.run P sv u args ix m = .error e m := by
  have hparsed {α : Type} {parse : Read .args α} (hsafe : Safe parse)
      (hargs : ∀ a, eval parse (new .args args) = .ok a →
        ∃ op : Op, op.ix = ix ∧ args = op.args ∧ op.Encodable ∧ op.KnownType) :
      (∃ op : Op, op.ix = ix ∧ args = op.args ∧ op.Encodable ∧ op.KnownType) ∨
        ∃ e, e ≠ .panic ∧ eval parse (new .args args) = .error e := by
    cases heval : eval parse (new .args args) with
    | ok a => exact Or.inl (hargs a heval)
    | error e => exact Or.inr ⟨e, (eval_total hsafe _).ne_panic heval, rfl⟩
  cases ix with
  | addVerificationMethod =>
    refine (hparsed AddVerificationMethod.parse_safe fun a ha => ?_).imp_right ?_
    · obtain ⟨method, hargs, hop, hknown, -⟩ := AddVerificationMethod.parse_ok_iff.mp ha
      exact ⟨.addVm method, rfl, hargs, hop, hknown⟩
    · exact fun ⟨e, he, heval⟩ => ⟨e, he, fun u m => updateDocument_error heval⟩
  | removeVerificationMethod =>
    refine (hparsed parseFragment_safe fun a ha => ?_).imp_right ?_
    · obtain ⟨hargs, hop⟩ := parseFragment_ok_iff.mp ha
      exact ⟨.removeVm a, rfl, hargs, hop, trivial⟩
    · exact fun ⟨e, he, heval⟩ => ⟨e, he, fun u m => updateDocument_error heval⟩
  | setVerificationMethodFlags =>
    refine (hparsed SetVerificationMethodFlags.parse_safe fun a ha => ?_).imp_right ?_
    · obtain ⟨hargs, hop⟩ := SetVerificationMethodFlags.parse_ok_iff.mp ha
      exact ⟨.setFlags a.1 a.2, rfl, hargs, hop, trivial⟩
    · exact fun ⟨e, he, heval⟩ => ⟨e, he, fun u m => updateDocument_error heval⟩
  | addService =>
    refine (hparsed AddService.parse_safe fun a ha => ?_).imp_right ?_
    · obtain ⟨svc, hargs, hop, -⟩ := AddService.parse_ok_iff.mp ha
      exact ⟨.addService svc, rfl, hargs, hop, trivial⟩
    · exact fun ⟨e, he, heval⟩ => ⟨e, he, fun u m => updateDocument_error heval⟩
  | updateService =>
    refine (hparsed parseService_safe fun a ha => ?_).imp_right ?_
    · obtain ⟨svc, hargs, hop, -⟩ := parseService_ok_iff.mp ha
      exact ⟨.updateService svc, rfl, hargs, hop, trivial⟩
    · exact fun ⟨e, he, heval⟩ => ⟨e, he, fun u m => updateDocument_error heval⟩
  | removeService =>
    refine (hparsed parseFragment_safe fun a ha => ?_).imp_right ?_
    · obtain ⟨hargs, hop⟩ := parseFragment_ok_iff.mp ha
      exact ⟨.removeService a, rfl, hargs, hop, trivial⟩
    · exact fun ⟨e, he, heval⟩ => ⟨e, he, fun u m => updateDocument_error heval⟩
  | setControllers =>
    refine (hparsed SetControllers.parse_safe fun a ha => ?_).imp_right ?_
    · obtain ⟨natives, others, hargs, hop, -⟩ := SetControllers.parse_ok_iff.mp ha
      exact ⟨.setControllers natives others, rfl, hargs, hop, trivial⟩
    · exact fun ⟨e, he, heval⟩ => ⟨e, he, fun u m => updateDocument_error heval⟩
  | deactivate =>
    refine (hparsed finish_safe fun a ha => ?_).imp_right ?_
    · exact ⟨.deactivate, rfl, eval_finish_ok_iff.mp ha, trivial, trivial⟩
    · exact fun ⟨e, he, heval⟩ => ⟨e, he, fun u m => updateDocument_error heval⟩
  | initializeDid | initializeOwned | createKeyBuffer | writeKeyBuffer
  | addVerificationMethodFromBuffer | closeKeyBuffer =>
    exact Or.inr ⟨.program .invalidInstructionData, nofun, fun u m => rfl⟩

theorem Op.exists_of_run {ix : Ix} {args : Bytes} {m' : Machine}
    (h : Op.run P sv u args ix m = .ok () m') :
    ∃ op : Op, op.ix = ix ∧ args = op.args ∧ op.Encodable ∧ op.KnownType := by
  rcases Op.understood_or_refused P sv ix args with hop | ⟨e, -, hrun⟩
  · exact hop
  · rw [hrun u m] at h
    cases h

end BioDidRegistry
