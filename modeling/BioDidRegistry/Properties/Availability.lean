import BioDidRegistry.Properties.Containment
import BioDidRegistry.Properties.WholeRegistry

/-!
# What others cannot prevent

Calls of others come between the decision of a client and its call. As long as their signers
command neither the DID the client acts on nor the controller it goes through, and the client's
own key is not among them, nothing they do keeps the client from what it could do before. The
model says which requests are granted, so it is the model's state that has to be kept.
-/

namespace BioDidRegistry

open Transition Access

def Builder.subject : Builder → Option Address
  | initializeDid _ _ | initializeOwned _ _ _ => none
  | update _ _ subject _ | createKeyBuffer _ _ subject _ _ _ _ | writeKeyBuffer _ subject _ _
  | addVerificationMethodFromBuffer _ _ subject | closeKeyBuffer _ _ subject => some subject

variable {P : Platform} {L L' L₀ : Ledger} {turns : List Turn} {K : Set Address}
  {w v w' : Holdings} {b : Builder} {via : Option Address} {now later : Int64}
  {subject key : Address}

/-! ### What a request depends on -/

namespace Holdings

theorem uploads_of_react {s : Address} (h : w.react P b via now = some w')
    (hkey : ∀ k ∈ b.authority, k ≠ key) : w'.uploads (s, key) = w.uploads (s, key) := by
  cases b with
  | initializeDid payer subject =>
    obtain ⟨-, hfound⟩ := react_initializeDid.mp h
    obtain ⟨-, a, bump, -, rfl⟩ := found_eq_some_iff.mp hfound
    rfl
  | initializeOwned payer authority nonce =>
    obtain ⟨subject, -, hfound⟩ := react_initializeOwned.mp h
    obtain ⟨-, a, bump, -, rfl⟩ := found_eq_some_iff.mp hfound
    rfl
  | update payer authority subject op =>
    obtain ⟨d, -, rfl⟩ := react_update.mp h
    rfl
  | createKeyBuffer payer authority subject fragment methodType flags keyLen =>
    obtain ⟨d, -, -, -, -, rfl⟩ := react_createKeyBuffer.mp h
    exact w.stage_of_ne _ _ (hkey authority rfl)
  | writeKeyBuffer authority subject offset chunk =>
    obtain ⟨u, -, -, rfl⟩ := react_writeKeyBuffer.mp h
    exact w.stage_of_ne _ _ (hkey authority rfl)
  | addVerificationMethodFromBuffer payer authority subject =>
    obtain ⟨u, -, -, d, -, rfl⟩ := react_finish.mp h
    exact stage_of_ne (w.record d) _ _ (hkey authority rfl)
  | closeKeyBuffer payer authority subject =>
    obtain ⟨u, -, rfl⟩ := react_closeKeyBuffer.mp h
    exact w.stage_of_ne _ _ (hkey authority rfl)

/-- `v` has the documents of `w` for the subjects in `S`, and its uploads of `key`. -/
structure Keeps (S : Set Address) (key : Address) (w v : Holdings) : Prop where
  documents : ∀ s ∈ S, ∀ d, w.documents s = some d → v.documents s = some d
  uploads : ∀ s, v.uploads (s, key) = w.uploads (s, key)

/-- What `w'` has of `subject` and `key`, `v'` has too, at another time. -/
structure SameEffect (subject key : Address) (w' v' : Holdings) : Prop where
  document : ∀ d, w'.documents subject = some d →
    ∃ time, v'.documents subject = some { d with updatedAt := time }
  upload : v'.uploads (subject, key) = w'.uploads (subject, key)

namespace Keeps

variable {S : Set Address} (h : Keeps S key w v) (hsubject : subject ∈ S) (hvia : ∀ s ∈ via, s ∈ S)

include h hvia

theorem authorize {d : Document} (hauth : d.authorize key (via.bind w.documents) = .ok ()) :
    d.authorize key (via.bind v.documents) = .ok () := by
  obtain ⟨hlive, hdirect | ⟨p, hp, hrest⟩⟩ := Document.authorize_ok_iff.mp hauth
  · exact Document.authorize_ok_iff.mpr ⟨hlive, Or.inl hdirect⟩
  · obtain ⟨s, hs, hdocument⟩ := Option.bind_eq_some_iff.mp hp
    have hkept : v.documents s = some p := h.documents s (hvia s hs) p hdocument
    exact Document.authorize_ok_iff.mpr
      ⟨hlive, Or.inr ⟨p, Option.bind_eq_some_iff.mpr ⟨s, hs, hkept⟩, hrest⟩⟩

include hsubject

theorem edited {op : Op} {d' : Document} (hedited : w.edited P key subject via op now = some d') :
    v.edited P key subject via op later = some { d' with updatedAt := later } := by
  obtain ⟨d, hd, happly⟩ := edited_eq_some_iff.mp hedited
  simp only [Document.apply, except_bind_ok_iff, except_pure, Except.ok.injEq] at happly
  obtain ⟨_, hauth, body, hbody, rfl⟩ := happly
  refine edited_eq_some_iff.mpr ⟨d, h.documents subject hsubject d hd, ?_⟩
  rw [Document.apply, h.authorize hvia hauth, except_bind_ok, hbody]
  rfl

omit hvia in
/-- A document recorded at another time is the only difference. -/
theorem sameEffect_record {d : Document} :
    SameEffect subject key (w.record d) (v.record { d with updatedAt := later }) := by
  refine ⟨fun d₀ hd₀ => ?_, h.uploads subject⟩
  by_cases hs : subject = d.subject
  · rw [hs, record_self] at hd₀
    obtain rfl := Option.some.inj hd₀
    rw [hs]
    exact ⟨later, v.record_self { d with updatedAt := later }⟩
  · rw [record_of_ne w d hs] at hd₀
    refine ⟨d₀.updatedAt, ?_⟩
    rw [record_of_ne v { d with updatedAt := later } hs]
    exact h.documents subject hsubject d₀ hd₀

theorem react (hb : b.subject = some subject) (hkey : b.authority = some key)
    (hreact : w.react P b via now = some w') :
    ∃ v', v.react P b via later = some v' ∧ SameEffect subject key w' v' := by
  have hstage {w₁ v₁ : Holdings} (upload : Option Pending) (hsame : SameEffect subject key w₁ v₁) :
      SameEffect subject key (w₁.stage subject key upload) (v₁.stage subject key upload) :=
    ⟨hsame.document, by rw [stage_self, stage_self]⟩
  have hkept : SameEffect subject key w v :=
    ⟨fun d hd => ⟨d.updatedAt, h.documents subject hsubject d hd⟩, h.uploads subject⟩
  cases b with
  | initializeDid | initializeOwned => cases hb
  | update payer authority subject' op =>
    cases hb
    cases hkey
    obtain ⟨d, hd, rfl⟩ := react_update.mp hreact
    exact ⟨_, react_update.mpr ⟨_, h.edited hsubject hvia hd, rfl⟩, h.sameEffect_record hsubject⟩
  | createKeyBuffer payer authority subject' fragment methodType flags keyLen =>
    cases hb
    cases hkey
    obtain ⟨d, hd, hauth, hadmits, hnone, rfl⟩ := react_createKeyBuffer.mp hreact
    refine ⟨_, react_createKeyBuffer.mpr ⟨d, h.documents subject hsubject d hd,
      h.authorize hvia hauth, hadmits, (h.uploads subject).trans hnone, rfl⟩, hstage _ hkept⟩
  | writeKeyBuffer authority subject' offset chunk =>
    cases hb
    cases hkey
    obtain ⟨u, hu, hfits, rfl⟩ := react_writeKeyBuffer.mp hreact
    exact ⟨_, react_writeKeyBuffer.mpr ⟨u, (h.uploads subject).trans hu, hfits, rfl⟩,
      hstage _ hkept⟩
  | addVerificationMethodFromBuffer payer authority subject' =>
    cases hb
    cases hkey
    obtain ⟨u, hu, hcomplete, d, hd, rfl⟩ := react_finish.mp hreact
    exact ⟨_, react_finish.mpr ⟨u, (h.uploads subject).trans hu, hcomplete, _,
      h.edited hsubject hvia hd, rfl⟩, hstage _ (h.sameEffect_record hsubject)⟩
  | closeKeyBuffer payer authority subject' =>
    cases hb
    cases hkey
    obtain ⟨u, hu, rfl⟩ := react_closeKeyBuffer.mp hreact
    exact ⟨_, react_closeKeyBuffer.mpr ⟨u, (h.uploads subject).trans hu, rfl⟩, hstage _ hkept⟩

end Keeps

end Holdings

/-! ### Runs of others -/

theorem Stands.uploads_of_run (hw : Stands P L w) (hP : P.Lawful) (hS : Sound P L)
    (hrun : Run (Step P) L turns L') (hK : ∀ t ∈ turns, t.SignedWithin K) (hkey : key ∉ K) :
    ∃ v, Stands P L' v ∧ ∀ s, v.uploads (s, key) = w.uploads (s, key) := by
  have hkept := (hrun.restrict hK).invariant (P := fun M => Sound P M ∧
    ∃ v, Stands P M v ∧ ∀ s, v.uploads (s, key) = w.uploads (s, key)) ?_ ⟨hS, w, hw, fun _ => rfl⟩
  · exact hkept.2
  rintro M t M' ⟨hM, v, hv, hsame⟩ ⟨hstep, hsigned⟩
  obtain ⟨grant, v', hconveys, hmodel, hM', hv'⟩ := hv.answers hP hM hstep
  refine ⟨hM', v', hv', fun s => ?_⟩
  cases hmodel with
  | idle => exact hsame s
  | granted hreact =>
    cases t with
    | accepted c =>
      rw [Holdings.uploads_of_react hreact, hsame]
      rintro k hk rfl
      exact hkey (hsigned k (hconveys.signed k hk))
    | refused c => cases hconveys
    | outside => cases hconveys

theorem Stands.keeps_of_run (hw : Stands P L w) (hP : P.Lawful) (hS : Sound P L)
    (hrun : Run (Step P) L turns L') (hK : ∀ t ∈ turns, t.SignedWithin K) (hkey : key ∉ K) :
    ∃ v, Stands P L' v ∧ Holdings.Keeps {s | ¬Commands (L.access P) K s} key w v := by
  obtain ⟨v, hv, huploads⟩ := hw.uploads_of_run hP hS hrun hK hkey
  have hS' : Sound P L' := hrun.invariant (fun _ _ _ hM hstep => hstep.sound hP hM) hS
  refine ⟨v, hv, fun s hs d hd => ?_, huploads⟩
  obtain ⟨a, ha, rfl⟩ := (hw.documents _ _).mp hd
  obtain ⟨-, hd'⟩ := ((confined_of_run hP hS hrun hK).2 _ hs).1 a d ha.didAt rfl
  exact hv.documents.eq_some (hS'.registered_of_didAt hd')

/-- What a client could do to a DID, it still can after any calls of signers who command
neither the DID nor the controller it goes through, to the same effect. -/
theorem strangers_cannot_block (hP : P.Lawful) (h₀ : Fresh L₀) {before : List Turn}
    (hbefore : Run (Step P) L₀ before L) (hw : Stands P L w) (hrun : Run (Step P) L turns L')
    (hK : ∀ t ∈ turns, t.SignedWithin K) (hsubject : b.subject = some subject)
    (hauthority : b.authority = some key) (hkey : key ∉ K)
    (hnot : ¬Commands (L.access P) K subject) (hvia : ∀ s ∈ via, ¬Commands (L.access P) K s)
    (hreact : w.react P b via now = some w') (later : Int64) :
    ∃ v v', Stands P L' v ∧ v.react P b via later = some v' ∧
      Holdings.SameEffect subject key w' v' ∧
      ∀ sv i, b.instruction P via = some i → b.Provided P sv L' later →
        ∃ L'' log, invoke P (i.call sv) L' = .ok (L'', log) ∧ Stands P L'' v' := by
  have hS : Sound P L := sound_of_run hP h₀ hbefore
  have hS' : Sound P L' := sound_of_run hP h₀ (hbefore.trans hrun)
  obtain ⟨v, hv, hkeeps⟩ := hw.keeps_of_run hP hS hrun hK hkey
  obtain ⟨v', hreact', hsame⟩ := hkeeps.react hnot hvia hsubject hauthority hreact
  exact ⟨v, v', hv, hreact', hsame, fun sv i hi hprovided =>
    hv.granted hP hS' hreact' hi hprovided⟩

theorem strangers_cannot_block_sample :
    let L := afterAll Sample.platform [Sample.creation] Sample.ledger
    let L' := afterAll Sample.platform [Sample.arrival, Sample.ownChange, Sample.intrusion] L
    ∃ L'' log v', invoke Sample.platform Sample.opening L' = .ok (L'', log) ∧
      Stands Sample.platform L'' v' ∧ v'.uploads (Sample.subject, Sample.subject) =
        some ⟨⟨[97], vmTypeX25519, vmFlagKeyAgreement, 32⟩, []⟩ := by
  intro L L'
  have hbefore := run_of_calls (P := Sample.platform) [Sample.creation] Sample.ledger
  have hrun := run_of_calls (P := Sample.platform)
    [Sample.arrival, Sample.ownChange, Sample.intrusion] L
  obtain ⟨-, w, -, -, hS, hw⟩ := Sample.ledger_fresh.answers Sample.platform_lawful hbefore
  have hd : Registered Sample.platform L Sample.did Sample.document :=
    hS.registered_of_didAt (by decide +kernel)
  have hreact := Sample.openingRequest_granted hw hd ⟨by decide +kernel, by decide +kernel⟩
  obtain ⟨-, v', -, -, hsame, haccepted⟩ :=
    strangers_cannot_block Sample.platform_lawful Sample.ledger_fresh hbefore hw hrun
      (Sample.signed_within L) rfl rfl (by decide) Sample.not_commands (by simp) hreact 0
  obtain ⟨L'', log, hdone, hv'⟩ := haccepted Sample.sysvars _
    (Option.eq_some_of_isSome (by decide +kernel)) (Sample.openingRequest_provided
      ⟨by decide +kernel, by decide +kernel⟩ (by decide +kernel) (by decide +kernel)
      (by decide +kernel) (by decide +kernel))
  exact ⟨L'', log, v', hdone, hv', hsame.upload.trans (w.stage_self ..)⟩

end BioDidRegistry
