import BioDidRegistry.Registry.Failures
import BioDidRegistry.Registry.Reference
import BioDidRegistry.Registry.Silence

/-!
# Calls that fail

Whatever the accounts hold and the data say, the program returns: it succeeds, or it
refuses with an error. In a reachable ledger whose accounts hold their rent a refusal has
written nothing, so the runtime's rollback has nothing to undo.
-/

namespace BioDidRegistry

open BinaryFormat Transition

variable {P : Platform} {sv : Sysvars} {L L₀ : Ledger} {turns : List Turn}

/-- Every call ends, with accounts of any content and data of any bytes, in success or in
an error of the program. -/
theorem never_panics (hP : P.Lawful) {accounts : List AccountView}
    (haccounts : Addressable L accounts) (id : Address) (data : Bytes) (log : List Bytes) :
    (∃ m', processInstruction P sv id accounts data ⟨L, log⟩ = .ok () m') ∨
      ∃ e m', processInstruction P sv id accounts data ⟨L, log⟩ = .error (.program e) m' := by
  have hrefuses : Refuses L (Solvent P sv L accounts)
      (processInstruction P sv id accounts data ⟨L, log⟩) :=
    processInstruction_refuses hP id accounts data haccounts
  cases hrun : processInstruction P sv id accounts data ⟨L, log⟩ with
  | ok u m' => exact Or.inl ⟨m', rfl⟩
  | error e m' =>
    cases e with
    | program e => exact Or.inr ⟨e, m', rfl⟩
    | panic => exact absurd rfl (hrefuses _ _ hrun).returned

/-- A DID account whose sections are all ones, and so is every count and length in them. -/
theorem never_panics_sample :
    let L := Sample.ledger.modify Sample.did fun _ =>
      ⟨10 ^ 7, Sample.document.head ++ List.replicate 66 255, programId⟩
    let run := processInstruction Sample.platform Sample.sysvars programId
      Sample.protection.accounts Sample.protection.data ⟨L, []⟩
    (∃ m', run = .ok () m') ∨ ∃ e m', run = .error (.program e) m' := by
  intro L
  refine never_panics Sample.platform_lawful (fun view hview howner => ?_) programId _ []
  have hothers (a : Address) (ha : a ≠ Sample.did) : L a = Sample.ledger a :=
    Ledger.modify_of_ne _ _ ha
  have hdid : view.address = Sample.did := by
    by_contra hne
    apply Sample.ledger_fresh view.address
    rwa [hothers _ hne] at howner
  rw [hdid]
  decide +kernel

/-- A call that fails in a reachable ledger has changed no account and logged nothing when
it returns, whoever pays and for whatever reason it fails. -/
theorem failure_changes_nothing (hP : P.Lawful) (hscale : P.ScalesMonotonely) (h₀ : Fresh L₀)
    (hrun : Run (Step P) L₀ turns L) (hsupply : L.supply < 2 ^ 64) {c : Call}
    (hkeyed : c.Keyed P) (hclock : ∃ now, c.sysvars.clock = .ok now)
    (hrent : ∀ view ∈ c.accounts, (L view.address).owner = programId →
      HoldsRent P c.sysvars L view.address) {e : Fault} {m' : Machine}
    (hfails : processInstruction P c.sysvars programId c.accounts c.data ⟨L, []⟩ = .error e m') :
    m' = ⟨L, []⟩ := by
  have hS : Sound P L := sound_of_run hP h₀ hrun
  have hsolvent : Solvent P c.sysvars L c.accounts :=
    ⟨hS, hclock, hscale, hsupply, hkeyed, hrent⟩
  have hrefuses : Refuses L (Solvent P c.sysvars L c.accounts)
      (processInstruction P c.sysvars programId c.accounts c.data ⟨L, []⟩) :=
    processInstruction_refuses hP programId c.accounts c.data (hS.addressable c.accounts)
  have hledger : m'.ledger = L := (hrefuses e m' hfails).unchanged hsolvent
  have hlog : m'.log = [] :=
    processInstruction_reports c.accounts programId c.data _ e m' hfails
  cases m'
  dsimp only at hledger hlog
  rw [hledger, hlog]

theorem Sample.supply_ledger : Sample.ledger.supply = 10 ^ 9 := by
  have hothers : ∀ a ∈ ([Sample.payer].toFinset)ᶜ, (Sample.ledger a).lamports = 0 := by
    intro a ha
    have hne : a ≠ Sample.payer := by simpa using ha
    rw [Sample.ledger, Function.update_of_ne hne]
  rw [Ledger.supply_split _ (List.nodup_singleton Sample.payer), Finset.sum_eq_zero hothers]
  decide +kernel

theorem failure_changes_nothing_sample :
    let L := after Sample.platform Sample.creation Sample.ledger
    let c := Sample.send (Client.addVerificationMethod Sample.platform Sample.controller
      Sample.subject Sample.subject [112] vmTypeEd25519 vmFlagsDefault Sample.subject.val)
    ∃ e, processInstruction Sample.platform c.sysvars programId c.accounts c.data ⟨L, []⟩ =
      .error e ⟨L, []⟩ := by
  intro L c
  obtain ⟨log, hcreated⟩ := invoke_after (P := Sample.platform) (c := Sample.creation)
    (L := Sample.ledger) (by decide +kernel)
  have hrun : Run (Step Sample.platform) Sample.ledger ([] ++ [.accepted Sample.creation]) L :=
    Run.start.snoc (.accepted hcreated)
  have hsupply : L.supply < 2 ^ 64 := by
    obtain ⟨effect, hperforms⟩ := exists_performs Sample.platform_lawful
      Sample.ledger_fresh.sound hcreated
    have hmoved := hperforms.trades Sample.ledger_fresh.sound (Sample.keyed (by decide +kernel))
    rw [hmoved.supply, Sample.supply_ledger]
    decide
  have hrent : ∀ view ∈ c.accounts, (L view.address).owner = programId →
      HoldsRent Sample.platform c.sysvars L view.address := by
    intro view hview howner
    have hdid : ∀ view ∈ c.accounts, (L view.address).owner = programId →
        view.address = Sample.did := by decide +kernel
    rw [hdid view hview howner]
    exact ⟨1753920, by decide +kernel, by decide +kernel⟩
  have hrefused : (invoke Sample.platform c L).toOption.isSome = false := by decide +kernel
  unfold invoke at hrefused
  cases hfails : processInstruction Sample.platform c.sysvars programId c.accounts c.data
      ⟨L, []⟩ with
  | ok u m' =>
    rw [hfails] at hrefused
    cases hrefused
  | error e m' =>
    have hsame := failure_changes_nothing Sample.platform_lawful (fun _ _ _ _ _ h => by cases h)
      Sample.ledger_fresh hrun hsupply (Sample.keyed (by decide +kernel)) ⟨_, rfl⟩ hrent hfails
    exact ⟨e, by rw [hsame]⟩

end BioDidRegistry
