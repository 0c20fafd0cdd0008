import BioDidRegistry.Document.Authority
import BioDidRegistry.Properties.TypedAccounts
import BioDidRegistry.Registry.ExtraAccounts

/-!
# Who may change a document

Only an authority of a DID, its own or one level up, changes its document. No DID
loses its last authority, every Ed25519 key in a document is one somebody can sign
with, and a protected method changes at its own key's request only.
-/

namespace BioDidRegistry

open Transition

variable {P : Platform} {L L' L₀ : Ledger} {turns : List Turn}

/-! ### Changes -/

/-- `key` is an authority over the document `d` at `a`: one of its own, or one of the
live DID whose account the call names after its own and whose subject is among the
native controllers of `d`. -/
def HasAuthority (P : Platform) (L : Ledger) (c : Call) (a : Address) (d : Document)
    (key : Address) : Prop :=
  d.body.isAuthority key = true ∨
    ∃ view p, c.controller = some view ∧ view.address ≠ a ∧ L.DidAt P view.address p ∧
      p.subject ≠ d.subject ∧ p.subject ∈ d.body.natives ∧ p.deactivated = 0 ∧
      p.body.isAuthority key = true

theorem Amended.hasAuthority {c : Call} {a key : Address} {d d' : Document} {op : Op} {body : Body}
    (hS : Sound P L) (h : Amended P c L L' a d op d' key body) : HasAuthority P L c a d key := by
  rcases h.authorized.2 with hdirect | ⟨view, p, hview, hp, hmem, hlive, hkey⟩
  · exact Or.inl hdirect
  · -- A DID never lists its own subject, so the controller is another account.
    have hother : p.subject ≠ d.subject := by
      intro hsame
      exact h.before.wellFormed.body.natives.2 (hsame ▸ hmem)
    refine Or.inr ⟨view, p, hview, ?_, (hS.registered hp).didAt, hother, hmem, hlive, hkey⟩
    rintro rfl
    exact hother (congrArg Document.subject (hp.unique h.before.toIsDid))

namespace Performs

variable {c : Call} {e : Effect} {log : List Bytes} {a : Address} {d : Document}

theorem touched_of_ne (h : Performs P c L e L' log) (hne : (L' a).data ≠ (L a).data) :
    a ∈ e.touched := by
  by_contra ha
  exact hne (h.frame ha).1

/-- A document whose bytes changed was amended, and no other DID changed or appeared. -/
theorem amended_of_ne (h : Performs P c L e L' log) (hd : Registered P L a d)
    (hne : (L' a).data ≠ (L a).data) : ∃ op d', e.Amends a d op d' ∧
      ∀ b, L'.HasDid b → (L' b).data ≠ (L b).data → b = a := by
  rcases h.did_cases hd with hsame | ⟨op, d', ha⟩
  · exact absurd (h.touched_of_ne hne) hsame
  · refine ⟨op, d', ha, fun b hb hneb => ?_⟩
    have htouched := h.touched_of_ne hneb
    rcases ha with rfl | ⟨buffer, kb, -, rfl⟩
    · exact List.mem_singleton.mp htouched
    · rcases List.mem_pair.mp htouched with hba | rfl
      · exact hba
      · have howner := hb.1
        rw [(h.gone (Or.inl ⟨_, _, _, rfl⟩)).2.2] at howner
        exact absurd howner programId_ne_systemProgram.symm

end Performs

/-- Only an authority changes a document, one document at a time, and a call whose signer
is a direct authority does the same whatever accounts follow its own. -/
theorem changes_need_authority (hP : P.Lawful) (h₀ : Fresh L₀) (hrun : Run (Step P) L₀ turns L)
    (c : Call) :
    (∀ L' log, invoke P c L = .ok (L', log) →
      (∀ a, L.HasDid a → (L' a).data ≠ (L a).data →
        (∀ b, L'.HasDid b → (L' b).data ≠ (L b).data → b = a) ∧
          ∃ d key, L.DidAt P a d ∧ d.deactivated = 0 ∧ c.SignedBy key ∧
            HasAuthority P L c a d key) ∧
      (c.ix = some .createKeyBuffer ∨ c.ix = some .writeKeyBuffer ∨ c.ix = some .closeKeyBuffer →
        ∀ a, L.HasDid a → (L' a).data = (L a).data) ∧
      ∀ a, L.HasBuffer a → (L' a).data ≠ (L a).data →
        ∃ buffer, c.keyBuffer = some buffer ∧ buffer.address = a) ∧
    ∀ ix did authority d own rest rest', c.ix = some ix → own.length = ix.arity →
      c.accounts = own ++ rest → c.didAccount = some did → c.authority = some authority →
      L.DidAt P did.address d → d.body.isAuthority authority.address = true →
      invoke P { c with accounts := own ++ rest' } L = invoke P c L := by
  have hS : Sound P L := sound_of_run hP h₀ hrun
  refine ⟨fun L' log hc => ?_, ?_⟩
  · obtain ⟨e, h⟩ := exists_performs hP hS hc
    refine ⟨fun a hdid hne => ?_, fun hix a hdid => ?_, fun a hbuffer hne => ?_⟩
    · obtain ⟨d, hd⟩ := hS.exists_registered hdid
      obtain ⟨op, d', ha, honly⟩ := h.amended_of_ne hd hne
      obtain ⟨key, body, hamended⟩ := h.amended ha
      exact ⟨honly, d, key, hd.didAt, hamended.authorized.1, hamended.signed,
        hamended.hasAuthority hS⟩
    · obtain ⟨d, hd⟩ := hS.exists_registered hdid
      by_contra hne
      obtain ⟨op, d', ha, -⟩ := h.amended_of_ne hd hne
      obtain ⟨key, body, hamended⟩ := h.amended ha
      rcases hamended.ix with hop | ⟨hop, -⟩
      · rw [hop] at hix
        cases op <;> simp [Op.ix] at hix
      · rw [hop] at hix
        simp at hix
    · obtain ⟨kb, hkb⟩ := hS.exists_staged hbuffer
      rcases h.buffer_cases hkb.toIsBuffer with hsame | ⟨kb', chunk, rfl⟩ | ⟨did, d, d', rfl⟩ | rfl
      · exact absurd (h.touched_of_ne hne) hsame
      · cases h with
        | writeBuffer ix args signed named => exact ⟨_, named, rfl⟩
      · cases h with
        | finish ix args signed pays target named => exact ⟨_, named, rfl⟩
      · cases h with
        | closeBuffer ix args signed pays named => exact ⟨_, named, rfl⟩
  · intro ix did authority d own rest rest' hix hown haccounts hdid hauthority hd hdirect
    have hd₀ := hS.registered_of_didAt hd
    exact invoke_congr hix hown hdid hauthority hd₀.toIsDid hdirect haccounts

theorem changes_need_authority_sample :
    let L := afterAll Sample.platform [Sample.creation] Sample.ledger
    ∃ d key, L.DidAt Sample.platform Sample.did d ∧ d.deactivated = 0 ∧
      Sample.protection.SignedBy key ∧
        HasAuthority Sample.platform L Sample.protection Sample.did d key := by
  intro L
  obtain ⟨log, hrun⟩ := invoke_after (P := Sample.platform) (L := L) (c := Sample.protection)
    (by decide +kernel)
  have hchanged := ((changes_need_authority Sample.platform_lawful Sample.ledger_fresh
    (run_of_calls [Sample.creation] Sample.ledger) Sample.protection).1 _ _ hrun).1 Sample.did
    (by decide +kernel) (by decide +kernel)
  exact hchanged.2

/-! ### Authorities and keys -/

/-- The key is a point of the curve, or an address that signed an accepted call. -/
def Signed (P : Platform) (turns : List Turn) (key : Bytes) : Prop :=
  P.isCurvePoint key = true ∨
    ∃ signer : Address, signer.val = key ∧ ∃ c, Turn.accepted c ∈ turns ∧ c.SignedBy signer

/-- What the trace invariant says of one document. -/
def Document.Kept (P : Platform) (turns : List Turn) (d : Document) : Prop :=
  (d.deactivated = 0 → 0 < d.body.authorityCount) ∧
    ∀ m ∈ d.body.methods, m.Signable (Signed P turns)

theorem Signed.mono {t : Turn} {key : Bytes} (h : Signed P turns key) :
    Signed P (turns ++ [t]) key := by
  rcases h with hcurve | ⟨signer, hkey, c, hc, hsigned⟩
  · exact Or.inl hcurve
  · exact Or.inr ⟨signer, hkey, c, List.mem_append_left _ hc, hsigned⟩

theorem Document.Kept.mono {t : Turn} {d : Document} (h : d.Kept P turns) :
    d.Kept P (turns ++ [t]) :=
  ⟨h.1, fun m hm htype => (h.2 m hm htype).mono⟩

theorem Call.SignedBy.signed {c : Call} {key : Address} (h : c.SignedBy key) :
    Signed P (turns ++ [.accepted c]) key.val :=
  Or.inr ⟨key, rfl, c, by simp, h⟩

theorem Call.Founds.kept {c : Call} {subject key : Address} {bump : UInt8} {now : Int64}
    (h : c.Founds P subject key) :
    (Document.initial bump subject key now).Kept P (turns ++ [.accepted c]) := by
  have hfounding : vmTypeEd25519 == vmTypeEd25519 &&
      hasFlag vmFlagsDefault vmFlagCapabilityInvocation := by decide
  refine ⟨fun _ => List.countP_pos_iff.mpr ⟨_, List.mem_singleton_self _, hfounding⟩, ?_⟩
  intro m hm _
  rw [List.mem_singleton.mp hm]
  rcases h with ⟨-, -, rfl, hcurve⟩ | ⟨-, hsigned, -⟩
  · exact Or.inl hcurve
  · exact hsigned.signed

theorem Amended.kept {c : Call} {a key : Address} {d d' : Document} {op : Op} {body : Body}
    (h : Amended P c L L' a d op d' key body) (hd : d.Kept P turns) :
    d'.Kept P (turns ++ [.accepted c]) := by
  obtain ⟨now, -, rfl⟩ := h.updated
  refine ⟨fun hlive => ?_, ?_⟩
  · have hop : op ≠ .deactivate := by
      rintro rfl
      simp [Document.updated] at hlive
    exact Body.authorityCount_pos_of_apply hop h.applied (hd.1 h.authorized.1)
  · exact Body.signable_of_apply h.applied h.signed.signed (fun key hkey => Or.inl hkey)
      hd.mono.2

theorem kept_of_run (hP : P.Lawful) (h₀ : Fresh L₀) (hrun : Run (Step P) L₀ turns L) :
    ∀ a d, Registered P L a d → d.Kept P turns := by
  refine documents_of_run hP (Q := fun turns _ d => d.Kept P turns) h₀ hrun ?_ ?_ ?_
  · intro turns t a d hd
    exact hd.mono
  · intro turns c L₁ L₂ log a d h
    obtain ⟨-, -, bump, subject, key, now, hfounds, rfl⟩ := h.created hP
    exact hfounds.kept
  · intro turns c L₁ L₂ a d op d' key body hamended hd
    exact hamended.kept hd

/-- No DID is ever orphaned: a live one has an authority, and every Ed25519 key is on the
curve or of someone who signed. -/
theorem no_did_orphaned (hP : P.Lawful) (h₀ : Fresh L₀) (hrun : Run (Step P) L₀ turns L)
    {a : Address} (ha : L.HasDid a) : ∃ d, L.DidAt P a d ∧
      (d.deactivated = 0 → ∃ m ∈ d.body.methods,
        m.methodType = vmTypeEd25519 ∧ hasFlag m.flags vmFlagCapabilityInvocation = true) ∧
      ∀ m ∈ d.body.methods, m.methodType = vmTypeEd25519 → P.isCurvePoint m.key = true ∨
        ∃ signer : Address, signer.val = m.key ∧
          ∃ c, Turn.accepted c ∈ turns ∧ c.SignedBy signer := by
  obtain ⟨d, hd⟩ := (sound_of_run hP h₀ hrun).exists_registered ha
  obtain ⟨hcount, hkeys⟩ := kept_of_run hP h₀ hrun a d hd
  refine ⟨d, hd.didAt, fun hlive => ?_, hkeys⟩
  obtain ⟨m, hm, hauthority⟩ := List.countP_pos_iff.mp (hcount hlive)
  simp only [Method.isAuthority, Bool.and_eq_true, beq_iff_eq] at hauthority
  exact ⟨m, hm, hauthority⟩

theorem no_did_orphaned_sample :
    ∃ d, (afterAll Sample.platform [Sample.creation] Sample.ledger).DidAt Sample.platform
        Sample.did d ∧
      (d.deactivated = 0 → ∃ m ∈ d.body.methods, m.methodType = vmTypeEd25519 ∧
        hasFlag m.flags vmFlagCapabilityInvocation = true) := by
  obtain ⟨d, hd, hauthority, -⟩ := no_did_orphaned Sample.platform_lawful Sample.ledger_fresh
    (run_of_calls [Sample.creation] Sample.ledger) (a := Sample.did) (by decide +kernel)
  exact ⟨d, hd, hauthority⟩

/-! ### Protection -/

/-- A protected method comes, goes or changes its flags at its own key's request only,
unless the DID is deactivated. -/
theorem protected_methods_answer_to_own_key (hP : P.Lawful) (h₀ : Fresh L₀)
    (hrun : Run (Step P) L₀ turns L) {c : Call} {log : List Bytes}
    (hc : invoke P c L = .ok (L', log)) (hix : c.ix ≠ some .deactivate) {a : Address}
    {d d' : Document} (hd : L.DidAt P a d) (hd' : L'.DidAt P a d')
    {t : Bytes × UInt16 × Bytes}
    (ht : ¬(t ∈ d.body.protectedMethods ↔ t ∈ d'.body.protectedMethods)) :
    ∃ key, c.SignedBy key ∧ t.2.2 = key.val := by
  have hS : Sound P L := sound_of_run hP h₀ hrun
  obtain ⟨e, h⟩ := exists_performs hP hS hc
  rcases h.did_cases (hS.registered_of_didAt hd) with huntouched | ⟨op, d₁, ha⟩
  · have hdata := hd'.2.1
    rw [(h.frame huntouched).1, hd.2.1] at hdata
    cases hdata
    exact absurd Iff.rfl ht
  · obtain ⟨key, body, hamended⟩ := h.amended ha
    have hsame : d' = d₁ :=
      Option.some.inj (hd'.2.1.symm.trans hamended.after.toIsDid.decode)
    subst hsame
    have hop : op ≠ .deactivate := by
      rintro rfl
      rcases hamended.ix with hdeactivate | ⟨-, hadd⟩
      · exact hix hdeactivate
      · cases hadd
    obtain ⟨now, -, rfl⟩ := hamended.updated
    exact ⟨key, hamended.signed, Body.key_of_protectedMethods_changed hop hamended.applied ht⟩

theorem protected_methods_answer_to_own_key_sample :
    ∃ key, Sample.protection.SignedBy key ∧ Sample.subject.val = key.val := by
  let L := afterAll Sample.platform [Sample.creation] Sample.ledger
  obtain ⟨log, hrun⟩ := invoke_after (P := Sample.platform) (L := L) (c := Sample.protection)
    (by decide +kernel)
  have hd : L.DidAt Sample.platform Sample.did Sample.document := by decide +kernel
  have hd' : (after Sample.platform Sample.protection L).DidAt Sample.platform Sample.did
      Sample.protectedDocument := by decide +kernel
  exact protected_methods_answer_to_own_key Sample.platform_lawful Sample.ledger_fresh
    (run_of_calls [Sample.creation] Sample.ledger) hrun (by decide) hd hd'
    (t := ([112], vmFlagsDefault, Sample.subject.val)) (by decide +kernel)

end BioDidRegistry
