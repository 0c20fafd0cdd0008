import BioDidRegistry.Registry.Effects

/-!
# The accounts after the instruction's own

The program looks at the first of them only, and only while it asks for the
signer's authority. A direct authority is accepted before that, so what its call
does never depends on the accounts that follow.
-/

namespace BioDidRegistry

open BinaryFormat Verdict Reader

variable {P : Platform} {sv : Sysvars}

theorem lift_bind_congr {α β : Type} {x : Except Fault α} {f g : α → Exec β} {m : Machine}
    (h : ∀ a, x = .ok a → f a m = g a m) :
    ((liftM x : Exec α) >>= f) m = ((liftM x : Exec α) >>= g) m := by
  cases x with
  | ok a => exact h a rfl
  | error e => rfl

/-- The controllers `x` and `y` make no difference to the authority of `signer` over the
document at `did`. -/
def SameAuthority (P : Platform) (L : Ledger) (did signer : Address)
    (x y : Option AccountView) : Prop :=
  ∀ v, DidView.parse (L did).data = .ok v → authorize P L v signer x = authorize P L v signer y

theorem IsDid.sameAuthority {L : Ledger} {a signer : Address} {d : Document} (hd : IsDid P L a d)
    (hdirect : d.body.isAuthority signer = true) (x y : Option AccountView) :
    SameAuthority P L a signer x y := by
  intro v hv
  have hshows := hd.shows_of_parse hv
  simp only [authorize_eq hshows, if_pos hdirect]

/-- The authority check is the only part of an update that looks at the controller. -/
theorem updateDocument_congr {α β : Type} {t : Target} {args event : Bytes}
    {parse : Read .args α} {check : DidView → α → Except Fault β} {commit : α → β → Exec UInt64}
    {m : Machine} {x : Option AccountView}
    (h : SameAuthority P m.ledger t.didAccount.address t.authority.address x t.controller) :
    updateDocument P { t with controller := x } args parse check commit event m =
      updateDocument P t args parse check commit event m := by
  unfold updateDocument
  refine lift_bind_congr fun a _ => ?_
  simp only [Exec.ledger_bind]
  refine lift_bind_congr fun v hv => ?_
  rw [h v hv]

theorem Op.run_congr {u : Update} {args : Bytes} {ix : Ix} {m : Machine}
    {x : Option AccountView}
    (h : SameAuthority P m.ledger u.didAccount.address u.authority.address x u.controller) :
    Op.run P sv { u with controller := x } args ix m = Op.run P sv u args ix m := by
  cases ix with
  | addVerificationMethod | removeVerificationMethod | setVerificationMethodFlags | addService
  | updateService | removeService | setControllers | deactivate => exact updateDocument_congr h
  | initializeDid | initializeOwned | createKeyBuffer | writeKeyBuffer
  | addVerificationMethodFromBuffer | closeKeyBuffer => rfl

section Handlers

variable {payer authority did system : AccountView} {rest rest' : List AccountView} {args : Bytes}
  {m : Machine}
  (h : SameAuthority P m.ledger did.address authority.address rest'.head? rest.head?)

include h

theorem update_congr {ix : Ix} (hix : ix.isUpdate = true)
    (hflags : ix ≠ .setVerificationMethodFlags) :
    handler P sv ix (payer :: authority :: did :: system :: rest') args m =
      handler P sv ix (payer :: authority :: did :: system :: rest) args m := by
  have hload (rest : List AccountView) :
      ix.load P m.ledger (payer :: authority :: did :: system :: rest) = (do
        let subject ← (do
          checkPayer payer
          checkAuthoritySigner authority
          checkSystemProgram system
          verifyDidAccount P m.ledger did)
        pure ⟨⟨authority, did, rest.head?, subject⟩, payer⟩) := by
    have htry : ix.load P m.ledger (payer :: authority :: did :: system :: rest) =
        Update.tryFrom P m.ledger (payer :: authority :: did :: system :: rest) := by
      cases ix <;> first | rfl | exact absurd rfl hflags
    rw [htry, Update.tryFrom]
    simp only [bind_assoc]
  rw [handler_update_eq hix, handler_update_eq hix, hload, hload]
  cases (do
    checkPayer payer
    checkAuthoritySigner authority
    checkSystemProgram system
    verifyDidAccount P m.ledger did : Except Fault Address) with
  | error e => rfl
  | ok subject => exact Op.run_congr (u := ⟨⟨authority, did, rest.head?, subject⟩, payer⟩) h

theorem setFlags_congr :
    handler P sv .setVerificationMethodFlags (authority :: did :: rest') args m =
    handler P sv .setVerificationMethodFlags (authority :: did :: rest) args m := by
  have hload (rest : List AccountView) :
      Ix.load P m.ledger (authority :: did :: rest) .setVerificationMethodFlags = (do
        let subject ← (do
          checkAuthoritySigner authority
          verifyDidAccount P m.ledger did)
        pure ⟨⟨authority, did, rest.head?, subject⟩, authority⟩) := by
    simp only [Ix.load, SetVerificationMethodFlags.target, bind_assoc, pure_bind]
  rw [handler_update_eq rfl, handler_update_eq rfl, hload, hload]
  cases (do
    checkAuthoritySigner authority
    verifyDidAccount P m.ledger did : Except Fault Address) with
  | error e => rfl
  | ok subject =>
    have hcongr : Op.run P sv ⟨⟨authority, did, rest'.head?, subject⟩, authority⟩ args
        .setVerificationMethodFlags m =
        Op.run P sv ⟨⟨authority, did, rest.head?, subject⟩, authority⟩ args
          .setVerificationMethodFlags m :=
      Op.run_congr (u := ⟨⟨authority, did, rest.head?, subject⟩, authority⟩) h
    exact hcongr

variable {buffer : AccountView}

theorem createKeyBuffer_congr :
    CreateKeyBuffer.process P sv (payer :: authority :: did :: buffer :: system :: rest') args m =
      CreateKeyBuffer.process P sv (payer :: authority :: did :: buffer :: system :: rest) args
        m := by
  unfold CreateKeyBuffer.process
  simp only [Exec.ledger_bind]
  refine lift_bind_congr fun _ _ => lift_bind_congr fun _ _ => lift_bind_congr fun _ _ =>
    lift_bind_congr fun _ _ => lift_bind_congr fun _ _ => lift_bind_congr fun nm _ =>
    lift_bind_congr fun v hv => ?_
  rw [h v hv]

theorem finish_congr :
    AddVerificationMethodFromBuffer.process P sv
        (payer :: authority :: did :: buffer :: system :: rest') args m =
      AddVerificationMethodFromBuffer.process P sv
        (payer :: authority :: did :: buffer :: system :: rest) args m := by
  have hcheck : AddVerificationMethodFromBuffer.check P m.ledger authority did buffer rest'.head? =
      AddVerificationMethodFromBuffer.check P m.ledger authority did buffer rest.head? := by
    unfold AddVerificationMethodFromBuffer.check
    refine bind_congr_ok fun kb _ => bind_congr_ok fun _ _ => bind_congr_ok fun _ _ =>
      bind_congr_ok fun v hv => ?_
    rw [h v hv]
  unfold AddVerificationMethodFromBuffer.process
  simp only [Exec.ledger_bind, hcheck]

end Handlers

theorem exists_four {xs : List AccountView} (h : xs.length = 4) :
    ∃ a b c d, xs = [a, b, c, d] := by
  match xs, h with
  | [a, b, c, d], _ => exact ⟨a, b, c, d, rfl⟩

theorem exists_five {xs : List AccountView} (h : xs.length = 5) :
    ∃ a b c d e, xs = [a, b, c, d, e] := by
  match xs, h with
  | [a, b, c, d, e], _ => exact ⟨a, b, c, d, e, rfl⟩

/-- What a direct authority does is the same whatever accounts follow the instruction's
own. -/
theorem invoke_congr {L : Ledger} {c : Call} {ix : Ix} {did authority : AccountView} {d : Document}
    {own rest rest' : List AccountView} (hix : c.ix = some ix) (hown : own.length = ix.arity)
    (hdid : c.didAccount = some did) (hauthority : c.authority = some authority)
    (hd : IsDid P L did.address d) (hdirect : d.body.isAuthority authority.address = true)
    (haccounts : c.accounts = own ++ rest) :
    invoke P { c with accounts := own ++ rest' } L = invoke P c L := by
  have hsame := hd.sameAuthority hdirect rest'.head? rest.head?
  rw [Call.didAccount, Call.account_eq hix, haccounts] at hdid
  rw [Call.authority, Call.account_eq hix, haccounts] at hauthority
  have hhandler : handler P c.sysvars ix (own ++ rest') c.args ⟨L, []⟩ =
      handler P c.sysvars ix (own ++ rest) c.args ⟨L, []⟩ := by
    cases ix with
    | setVerificationMethodFlags =>
      obtain ⟨a, b, rfl⟩ := List.length_eq_two.mp hown
      cases hdid
      cases hauthority
      exact setFlags_congr hsame
    | createKeyBuffer =>
      obtain ⟨payer, a, b, buffer, system, rfl⟩ := exists_five hown
      cases hdid
      cases hauthority
      exact createKeyBuffer_congr hsame
    | addVerificationMethodFromBuffer =>
      obtain ⟨payer, a, b, buffer, system, rfl⟩ := exists_five hown
      cases hdid
      cases hauthority
      exact finish_congr hsame
    | addVerificationMethod | removeVerificationMethod | addService | updateService
    | removeService | setControllers | deactivate =>
      obtain ⟨payer, a, b, system, rfl⟩ := exists_four hown
      cases hdid
      cases hauthority
      exact update_congr hsame rfl (by decide)
    | initializeOwned =>
      obtain ⟨payer, a, b, system, rfl⟩ := exists_four hown
      rfl
    | initializeDid => cases hauthority
    | writeKeyBuffer | closeKeyBuffer => cases hdid
  have hinvoke (accounts : List AccountView) : invoke P { c with accounts } L =
      outcome (handler P c.sysvars ix accounts c.args ⟨L, []⟩) := by
    rw [invoke_eq, show Call.ix { c with accounts } = some ix from hix]
    rfl
  rw [hinvoke, hhandler, ← hinvoke, ← haccounts]

end BioDidRegistry
