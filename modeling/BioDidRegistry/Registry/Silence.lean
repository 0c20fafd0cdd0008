import BioDidRegistry.Foundation.Outcomes
import BioDidRegistry.Registry.Effects

/-!
# What is logged
-/

namespace BioDidRegistry

open BinaryFormat Outcome

variable {P : Platform} {sv : Sysvars}

/-- The computation logs nothing. -/
abbrev Silent {α : Type} (x : Exec α) : Prop := Keeps Machine.log x

namespace Silent

variable {α β : Type} {x : Exec α} {f : α → Exec β} {account payer did : AccountView}

@[simp] theorem lift (y : Except Fault α) : Silent (liftM y : Exec α) := by
  intro m
  cases y <;> rfl

@[simp] theorem ledger : Silent Exec.ledger := fun _ => rfl

@[simp] theorem borrow : Silent (Exec.borrow account) := fun _ => rfl

@[simp] theorem store (data : Bytes) : Silent (Exec.store account data) := fun _ => rfl

@[simp] theorem lamports : Silent (Exec.lamports account) := fun _ => rfl

@[simp] theorem setLamports (n : ℕ) : Silent (Exec.setLamports account n) := fun _ => rfl

/-- The runtime moves lamports and resizes accounts, but writes no record of the program. -/
@[simp] theorem call (f : Ledger → Except ProgramError Ledger) : Silent (Exec.call f) := by
  intro m
  unfold Exec.call
  cases f m.ledger <;> rfl

@[simp] theorem settleRent (n : ℕ) : Silent (settleRent P sv did payer n) := by
  refine .bind (by simp) fun newMin => .bind (by simp) fun current => ?_
  refine .ite (by simp) (.ite ?_ (by simp))
  exact .bind (by simp) fun _ => .bind (by simp) fun paid => .bind (by simp) (by simp)

@[simp] theorem grow (n : ℕ) : Silent (grow P sv did payer n) :=
  .bind (by simp) (by simp)

@[simp] theorem shrink (n : ℕ) : Silent (shrink P sv did payer n) :=
  .bind (by simp) (by simp)

@[simp] theorem closeTo : Silent (closeTo P account payer) := by
  refine .bind (by simp) fun paid => .bind (by simp) fun held => .bind (by simp) fun credited => ?_
  exact .bind (by simp) fun _ => .bind (by simp) (by simp)

@[simp] theorem createProgramAccount (need space : ℕ) (seeds : List Bytes) (bump : UInt8) :
    Silent (createProgramAccount P payer account need space seeds bump) := by
  refine .bind (by simp) fun current => .ite (by simp) ?_
  refine .ite ?_ ?_
  · exact .bind (by simp) fun _ => .bind (by simp) (by simp)
  · exact .bind (by simp) (by simp)

@[simp] theorem storeTouched (data : Bytes) (now : Int64) :
    Silent (storeTouched account data now) :=
  .bind (by simp) fun _ => .bind (by simp) (by simp)

end Silent

/-! ### The handlers -/

/-- A computation that logs only when it returns. -/
abbrev Reports {α : Type} (x : Exec α) : Prop := KeepsOnError Machine.log x

/-- The one computation that logs does not fail. -/
theorem emit_reports (event : Bytes) (a subject : Address) (v : UInt64) :
    Reports (emit event a subject v) := by
  intro m e m' h
  cases h

section Updates

variable (u : Update)

theorem addVerificationMethod_silent (a : NewMethod × Bytes) (s : Sections) :
    Silent (AddVerificationMethod.commit P sv u a s) := by
  refine .bind (by simp) fun entryLen => .bind (by simp) fun newLen => .bind (by simp) fun _ => ?_
  refine .bind (by simp) fun now => .bind (by simp) fun data => .bind (by simp) (by simp)

theorem removeEntry_silent (r : Removal) : Silent (removeEntry P sv u r) := by
  refine .bind (by simp) fun entryLen => .bind (by simp) fun now => .bind (by simp) fun data => ?_
  refine .bind (by simp) fun data => .bind (by simp) fun count => .bind (by simp) fun data => ?_
  exact .bind (by simp) fun v => .bind (by simp) fun newLen => .bind (by simp) (by simp)

theorem setVerificationMethodFlags_silent (t : Target) (a : Bytes × UInt16) (pos : ℕ) :
    Silent (SetVerificationMethodFlags.commit sv t a pos) :=
  .bind (by simp) fun now => .bind (by simp) fun data => .bind (by simp) (by simp)

theorem addService_silent (a : ServiceArgs × ℕ) (s : Sections) :
    Silent (AddService.commit P sv u a s) := by
  refine .bind (by simp) fun newLen => .bind (by simp) fun _ => .bind (by simp) fun now => ?_
  refine .bind (by simp) fun data => .bind (by simp) fun data => .bind (by simp) fun count => ?_
  exact .bind (by simp) (by simp)

theorem updateService_silent (a : ServiceArgs) (r : UpdateService.Replacement) :
    Silent (UpdateService.commit P sv u a r) := by
  refine .bind (by simp) fun entryLen => .bind (by simp) fun entryEnd => .bind (by simp) fun n => ?_
  refine .bind (by simp) fun newLen => ?_
  refine .ite (.bind (by simp) fun _ => ?_) ?_
  all_goals
    refine .bind (by simp) fun now => .bind (by simp) fun data => .bind (by simp) fun data => ?_
    refine .bind (by simp) fun data => .bind (by simp) fun v => ?_
    exact .ite (.bind (by simp) (by simp)) (by simp)

theorem setControllers_silent (args : Bytes) (a : SetControllers.Args)
    (tail : SetControllers.Tail) : Silent (SetControllers.commit P sv u args a tail) := by
  have hedit (now : Int64) : Silent (SetControllers.edit u args a tail now) := by
    refine .bind (by simp) fun data => .bind (by simp) fun dest => .bind (by simp) fun data => ?_
    exact .bind (by simp) fun sections => .bind (by simp) (by simp)
  refine .bind (by simp) fun oldLen => .bind (by simp) fun n => .bind (by simp) fun newLen => ?_
  refine .bind (by simp) fun now => .ite (.bind (by simp) fun _ => hedit now) ?_
  exact .bind (hedit now) fun v => .ite (.bind (by simp) (by simp)) (by simp)

theorem deactivate_silent : Silent (Deactivate.commit P sv u) := by
  refine .bind (by simp) fun now => .bind (by simp) fun data => .bind (by simp) fun data => ?_
  exact .bind (by simp) fun data => .bind (by simp) fun v => .bind (by simp) (by simp)

/-- The event of an update is the last thing its handler does. -/
theorem updateDocument_reports {α β : Type} {t : Target} {args event : Bytes} {parse : Read .args α}
    {check : DidView → α → Except Fault β} {commit : α → β → Exec UInt64}
    (hcommit : ∀ a plan, Silent (commit a plan)) :
    Reports (updateDocument P t args parse check commit event) := by
  refine .bind (by simp) fun a => .bind (by simp) fun L => .bind (by simp) fun doc => ?_
  refine .bind (by simp) fun _ => .bind (by simp) fun plan => .bind (hcommit a plan) fun v => ?_
  exact emit_reports _ _ _ _

theorem Op.run_reports (args : Bytes) (ix : Ix) : Reports (Op.run P sv u args ix) := by
  cases ix with
  | addVerificationMethod => exact updateDocument_reports (addVerificationMethod_silent u)
  | removeVerificationMethod => exact updateDocument_reports fun _ => removeEntry_silent u
  | setVerificationMethodFlags =>
    exact updateDocument_reports (setVerificationMethodFlags_silent u.toTarget)
  | addService => exact updateDocument_reports (addService_silent u)
  | updateService => exact updateDocument_reports (updateService_silent u)
  | removeService => exact updateDocument_reports fun _ => removeEntry_silent u
  | setControllers => exact updateDocument_reports (setControllers_silent u args)
  | deactivate => exact updateDocument_reports fun _ _ => deactivate_silent u
  | initializeDid | initializeOwned | createKeyBuffer | writeKeyBuffer
  | addVerificationMethodFromBuffer | closeKeyBuffer => exact (Keeps.throw _).onError

end Updates

section Others

variable (accounts : List AccountView) (args : Bytes)

/-- So is the event of a creation. -/
theorem materialize_reports (payer did system : AccountView) (subject key : Address) :
    Reports (Initialize.materialize P sv payer did system subject key) := by
  refine .bind (by simp) fun L => .bind (by simp) fun _ => .bind (by simp) fun _ => ?_
  refine .bind (by simp) fun _ => .bind (by simp) fun found => .bind (by simp) fun _ => ?_
  refine .bind (by simp) fun _ => .bind (by simp) fun need => .bind (by simp) fun _ => ?_
  refine .bind (by simp) fun now => .bind (by simp) fun data => .bind (by simp) fun _ => ?_
  exact .bind (by simp) fun data => .bind (by simp) fun _ => emit_reports _ _ _ _

theorem initialize_reports : Reports (Initialize.process P sv accounts args) := by
  unfold Initialize.process
  split
  · refine .bind (by simp) fun _ => .bind (by simp) fun _ => ?_
    apply materialize_reports
  · exact (Keeps.throw _).onError

theorem initializeOwned_reports : Reports (InitializeOwned.process P sv accounts args) := by
  unfold InitializeOwned.process
  split
  · refine .bind (by simp) fun _ => .bind (by simp) fun nonce => .bind (by simp) fun found => ?_
    apply materialize_reports
  · exact (Keeps.throw _).onError

/-- Opening a buffer says nothing of any document. -/
theorem createKeyBuffer_silent : Silent (CreateKeyBuffer.process P sv accounts args) := by
  unfold CreateKeyBuffer.process
  split
  · refine .bind (by simp) fun L => .bind (by simp) fun _ => .bind (by simp) fun _ => ?_
    refine .bind (by simp) fun _ => .bind (by simp) fun _ => .bind (by simp) fun _ => ?_
    refine .bind (by simp) fun nm => .bind (by simp) fun doc => .bind (by simp) fun _ => ?_
    refine .bind (by simp) fun _ => .bind (by simp) fun found => .bind (by simp) fun _ => ?_
    refine .bind (by simp) fun _ => .bind (by simp) fun space => .bind (by simp) fun need => ?_
    refine .bind (by simp) fun _ => .bind (by simp) fun data => .bind (by simp) fun _ => ?_
    exact .bind (by simp) (by simp)
  · exact Keeps.throw _

theorem writeKeyBuffer_silent : Silent (WriteKeyBuffer.process P accounts args) := by
  unfold WriteKeyBuffer.process
  split
  · refine .bind (by simp) fun L => .bind (by simp) fun _ => .bind (by simp) fun found => ?_
    refine .bind (by simp) fun a => .bind (by simp) fun data => .bind (by simp) (by simp)
  · exact Keeps.throw _

/-- The buffer is closed before the event is emitted. -/
theorem finish_reports : Reports (AddVerificationMethodFromBuffer.process P sv accounts args) := by
  unfold AddVerificationMethodFromBuffer.process
  split
  · refine .bind (by simp) fun L => .bind (by simp) fun _ => .bind (by simp) fun _ => ?_
    refine .bind (by simp) fun _ => .bind (by simp) fun _ => .bind (by simp) fun subject => ?_
    refine .bind (by simp) fun _ => .bind (by simp) fun staged => .bind ?_ fun v => ?_
    · refine .bind (by simp) fun len => .bind (by simp) fun newLen => .bind (by simp) fun _ => ?_
      refine .bind (by simp) fun now => .bind (by simp) fun data => .bind (by simp) fun _ => ?_
      refine .bind (by simp) fun buf => .bind (by simp) fun last => .bind (by simp) fun key => ?_
      exact .bind (by simp) (by simp)
    · exact .bind (by simp) fun _ => emit_reports _ _ _ _
  · exact (Keeps.throw _).onError

theorem closeKeyBuffer_silent : Silent (CloseKeyBuffer.process P accounts args) := by
  unfold CloseKeyBuffer.process
  split
  · refine .bind (by simp) fun L => .bind (by simp) fun _ => .bind (by simp) fun _ => ?_
    exact .bind (by simp) fun _ => .bind (by simp) (by simp)
  · exact Keeps.throw _

/-- A handler that stops with an error has logged nothing. -/
theorem handler_reports (ix : Ix) : Reports (handler P sv ix accounts args) := by
  cases hupdate : ix.isUpdate with
  | true =>
    intro m e m' h
    rw [handler_update_eq hupdate] at h
    exact KeepsOnError.bind (by simp) (fun u => Op.run_reports u args ix) m e m' h
  | false =>
    cases ix with
    | initializeDid => exact initialize_reports accounts args
    | initializeOwned => exact initializeOwned_reports accounts args
    | createKeyBuffer => exact (createKeyBuffer_silent accounts args).onError
    | writeKeyBuffer => exact (writeKeyBuffer_silent accounts args).onError
    | addVerificationMethodFromBuffer => exact finish_reports accounts args
    | closeKeyBuffer => exact (closeKeyBuffer_silent accounts args).onError
    | addVerificationMethod | removeVerificationMethod | setVerificationMethodFlags | addService
    | updateService | removeService | setControllers | deactivate => cases hupdate

/-- A refused instruction has logged nothing. -/
theorem processInstruction_reports (id : Address) (data : Bytes) :
    Reports (processInstruction P sv id accounts data) := by
  unfold processInstruction
  split_ifs
  · exact (Keeps.throw _).onError
  · exact (Keeps.throw _).onError
  · split
    · apply handler_reports
    · exact (Keeps.throw _).onError

end Others

end BioDidRegistry
