import BioDidRegistry.Properties.TypedAccounts

/-!
# Deactivation

A deactivated DID is a tombstone: 74 bytes with the flag set and four empty lists.
No effect can touch it, since an update needs a live DID, a creation a vacant address
and the closing path a key buffer, so it stays as it is in every later run.
-/

namespace BioDidRegistry

open BinaryFormat Transition Verdict

variable {P : Platform} {L L₀ L₁ L₂ : Ledger} {turns before later : List Turn}

/-- 74 bytes, of which the flag is 1 and the four counts are zero. -/
def IsTombstone (data : Bytes) : Prop :=
  data.length = tombstoneSpace ∧ data[offDeactivated]? = some 1 ∧
    data.drop offSections = List.replicate 16 0

theorem Document.isTombstone {d : Document} (hgone : d.deactivated = 1)
    (hempty : d.body = Body.empty) : IsTombstone d.encode := by
  have hbody : d.body.encode = List.replicate 16 0 := by
    rw [hempty]
    decide
  have hhead : d.head = (accountDiscriminator ++ u64Bytes d.version ++ [d.bump] ++ d.subject.val) ++
      d.deactivated :: i64Bytes d.updatedAt := by
    simp [Document.head]
  have hflag : offDeactivated =
      (accountDiscriminator ++ u64Bytes d.version ++ [d.bump] ++ d.subject.val).length := by
    simp [accountDiscriminator, d.subject.length_eq, offDeactivated]
  refine ⟨?_, ?_, ?_⟩
  · rw [Document.length_encode, hbody]
    rfl
  · rw [Document.encode, hhead, List.append_assoc, hflag, List.getElem?_append_right le_rfl, hgone]
    simp
  · rw [Document.encode, ← d.length_head, List.drop_left, hbody]

theorem Performs.deactivated {c : Call} {e : Effect} {log : List Bytes} {did : AccountView}
    (h : Performs P c L e L₁ log) (hix : c.ix = some .deactivate)
    (hdid : c.didAccount = some did) : ∃ d, Registered P L₁ did.address d ∧ d.deactivated = 1 ∧
      d.body = Body.empty := by
  cases h with
  | create founds => rcases founds with ⟨hother, -⟩ | ⟨hother, -⟩ <;> simp [hix] at hother
  | openBuffer ix | writeBuffer ix | finish ix | closeBuffer ix => simp [hix] at ix
  | update ix args signed pays target isDid authorized applied clock settled =>
    rename_i did' key d op body now L'
    have hop : op = .deactivate := by
      rw [hix] at ix
      cases op <;> simp [Op.ix] at ix
      rfl
    subst hop
    cases applied
    cases hdid.symm.trans target
    exact ⟨_, isDid.of_updated authorized rfl (by simp [settled.owner, isDid.owner])
      (Ledger.store_data ..), by simp [Document.updated], rfl⟩

theorem Step.keeps_deactivated (hP : P.Lawful) (hS : Sound P L₁) {t : Turn} {a : Address}
    {d : Document} (h : Step P L₁ t L₂) (hd : Registered P L₁ a d) (hgone : d.deactivated = 1) :
    Registered P L₂ a d ∧ (L₁ a).lamports ≤ (L₂ a).lamports := by
  rcases h.cases hP hS with ⟨c, e, log, -, hperforms⟩ | ⟨-, hquiet⟩
  · rcases hperforms.did_cases hd with hsame | ⟨op, d', ha⟩
    · exact ⟨hd.of_same (hperforms.frame hsame), hperforms.lamports_le hd.owner hsame⟩
    · obtain ⟨key, body, hamended⟩ := hperforms.amended ha
      have hlive := hamended.authorized.1
      rw [hgone] at hlive
      exact absurd hlive (by decide)
  · exact ⟨hquiet.registered_iff.mpr hd, hquiet.lamports_le a hd.owner⟩

theorem Registered.run_deactivated (hP : P.Lawful) (hS : Sound P L₁) {a : Address} {d : Document}
    (hd : Registered P L₁ a d) (hgone : d.deactivated = 1) (hrun : Run (Step P) L₁ later L₂) :
    Sound P L₂ ∧ Registered P L₂ a d := by
  refine hrun.invariant (P := fun L => Sound P L ∧ Registered P L a d) ?_ ⟨hS, hd⟩
  rintro L t L' ⟨hS', hd'⟩ hstep
  exact ⟨hstep.sound hP hS', (hstep.keeps_deactivated hP hS' hd' hgone).1⟩

/-- Nobody is authorized through a tombstone. -/
theorem isAuthority_of_authorize {view : AccountView} {d : Document} {v : DidView}
    {signer : Address} (hd : IsDid P L view.address d) (hgone : d.deactivated = 1)
    (h : authorize P L v signer (some view) = .ok ()) : v.isAuthority signer = true := by
  by_contra hdirect
  unfold authorize at h
  simp only [if_neg hdirect, except_bind_ok_iff, require_eq_ok] at h
  obtain ⟨-, -, -, -, -, -, -, -, -, -, parent, hparse, gone, hread, hlive⟩ := h
  rw [(hd.shows_of_parse hparse).isDeactivated_eq, hgone] at hread
  cases hread
  simp at hlive

/-- A deactivated DID keeps its account and its 74 bytes for good, loses no lamports, and
authorizes nobody. -/
theorem deactivation_permanent (hP : P.Lawful) (h₀ : Fresh L₀)
    (hbefore : Run (Step P) L₀ before L) {c : Call} {log : List Bytes} {did : AccountView}
    (hix : c.ix = some .deactivate) (hdid : c.didAccount = some did)
    (hc : invoke P c L = .ok (L₁, log)) (hlater : Run (Step P) L₁ later L₂) :
    (L₂ did.address).owner = programId ∧
      (L₂ did.address).data = (L₁ did.address).data ∧ IsTombstone (L₁ did.address).data ∧
      (∀ t L₃, Step P L₂ t L₃ → (L₂ did.address).lamports ≤ (L₃ did.address).lamports) ∧
      ∀ v signer view, view.address = did.address →
        authorize P L₂ v signer (some view) = .ok () → v.isAuthority signer = true := by
  have hS : Sound P L := sound_of_run hP h₀ hbefore
  obtain ⟨e, hperforms⟩ := exists_performs hP hS hc
  obtain ⟨d, hd, hgone, hempty⟩ := hperforms.deactivated hix hdid
  obtain ⟨hS₂, hd₂⟩ := hd.run_deactivated hP (hperforms.sound hP hS) hgone hlater
  refine ⟨hd₂.owner, hd₂.data_eq.trans hd.data_eq.symm, ?_, ?_, ?_⟩
  · rw [hd.data_eq]
    exact d.isTombstone hgone hempty
  · intro t L₃ hstep
    exact (hstep.keeps_deactivated hP hS₂ hd₂ hgone).2
  · intro v signer view hview h
    exact isAuthority_of_authorize (hview ▸ hd₂.toIsDid) hgone h

theorem deactivation_permanent_sample :
    let L := afterAll Sample.platform [Sample.creation] Sample.ledger
    let L' := after Sample.platform Sample.deactivation L
    (afterAll Sample.platform [Sample.creation] L' Sample.did).owner = programId ∧
      IsTombstone (L' Sample.did).data := by
  intro L L'
  obtain ⟨log, hrun⟩ := invoke_after (P := Sample.platform) (L := L) (c := Sample.deactivation)
    (by decide +kernel)
  have hdid : Sample.deactivation.didAccount = some (.writable Sample.did false) := by decide
  have hgone := deactivation_permanent Sample.platform_lawful Sample.ledger_fresh
    (run_of_calls [Sample.creation] Sample.ledger) (by decide) hdid hrun
    (run_of_calls [Sample.creation] L')
  exact ⟨hgone.1, hgone.2.2.1⟩

end BioDidRegistry
