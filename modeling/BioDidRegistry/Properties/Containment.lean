import BioDidRegistry.Foundation.AccessGraph
import BioDidRegistry.Properties.Founding

/-!
# What a set of keys can change

Control reaches one level in one call, but whoever controls a controller can make its own
key an authority there first. So the keys `K` are taken to command every DID that one of
them acts on, everything those DIDs control, and so on, and also every subject that one of
them may still found. Nothing else is ever changed by calls that only `K` signs, and `K`
never comes to command more. Nor do they take lamports from anyone else.
-/

namespace BioDidRegistry

open Transition Access

variable {P : Platform} {L L' L₀ : Ledger} {turns : List Turn} {K : Set Address}

/-- `key` is what the DID of `subject` begins with. -/
def Platform.Founder (P : Platform) (subject key : Address) : Prop :=
  (key = subject ∧ P.isCurvePoint subject.val = true) ∨ ∃ nonce, P.Owns key nonce subject

/-- A live DID answers to its authorities and to its native controllers, and a subject
without an account to whoever may found it. -/
def Ledger.access (P : Platform) (L : Ledger) : Access.Graph Address Address where
  holds subject key :=
    (∃ a d, L.DidAt P a d ∧ d.subject = subject ∧ d.deactivated = 0 ∧
      d.body.isAuthority key = true) ∨
    ((∀ a d, L.DidAt P a d → d.subject ≠ subject) ∧ P.Founder subject key)
  controls subject controller :=
    ∃ a d, L.DidAt P a d ∧ d.subject = subject ∧ d.deactivated = 0 ∧ controller ∈ d.body.natives

/-- Only keys of `K` sign in the place of the authority. -/
def Turn.SignedWithin (K : Set Address) : Turn → Prop
  | .accepted c => ∀ key, c.SignedBy key → key ∈ K
  | _ => True

theorem Call.Founds.founder {c : Call} {subject key : Address} (h : c.Founds P subject key) :
    P.Founder subject key := by
  rcases h with ⟨-, -, rfl, hcurve⟩ | ⟨-, -, nonce, bump, -, hfind⟩
  · exact Or.inl ⟨rfl, hcurve⟩
  · exact Or.inr ⟨nonce, bump, hfind⟩

theorem Document.isAuthority_initial {bump : UInt8} {subject key signer : Address} {now : Int64}
    (h : (Document.initial bump subject key now).body.isAuthority signer = true) :
    signer = key := by
  simp only [Document.initial, Body.isAuthority, List.any_cons, List.any_nil, Bool.or_false,
    Bool.and_eq_true, beq_iff_eq] at h
  exact (Subtype.ext h.2).symm

theorem Amended.commands (hS : Sound P L) {c : Call} {a key : Address} {d d' : Document} {op : Op}
    {body : Body} (h : Amended P c L L' a d op d' key body) (hkey : key ∈ K) :
    Commands (L.access P) K d.subject := by
  obtain ⟨hlive, hdirect | ⟨view, p, -, hp, hmem, hplive, hpkey⟩⟩ := h.authorized
  · exact .holds (Or.inl ⟨a, d, h.before.didAt, rfl, hlive, hdirect⟩) hkey
  · have hparent : Commands (L.access P) K p.subject :=
      .holds (Or.inl ⟨_, p, (hS.registered hp).didAt, rfl, hplive, hpkey⟩) hkey
    exact .controls ⟨a, d, h.before.didAt, rfl, hlive, hmem⟩ hparent

/-- A DID that is not commanded is as it was, or was created for another founder. -/
theorem Performs.origin_of_not_commands (hP : P.Lawful) (hS : Sound P L) {c : Call} {e : Effect}
    {log : List Bytes} (h : Performs P c L e L' log) (hK : ∀ key, c.SignedBy key → key ∈ K)
    {a : Address} {d : Document} (hd : Registered P L' a d)
    (hnot : ¬Commands (L.access P) K d.subject) :
    (Registered P L a d ∧ a ∉ e.touched) ∨
      ((∀ a d', L.DidAt P a d' → d'.subject ≠ d.subject) ∧
        ∃ bump key now, P.Founder d.subject key ∧ d = Document.initial bump d.subject key now) := by
  rcases h.did_origin hP hS hd with hsame | rfl | ⟨d₀, op, ha⟩
  · exact Or.inl hsame
  · obtain ⟨hvacant, hcreated, bump, subject, key, now, hfounds, rfl⟩ := h.created hP
    refine Or.inr ⟨?_, bump, key, now, hfounds.founder, rfl⟩
    intro b d' hd' hsubject
    have hb : b = a := by
      have hfound := hd'.2.2.2
      rw [hsubject, hcreated.found] at hfound
      exact (congrArg Prod.fst (Option.some.inj hfound)).symm
    rw [hb] at hd'
    exact programId_ne_systemProgram (hd'.1.1.symm.trans hvacant)
  · obtain ⟨key, body, hamended⟩ := h.amended ha
    obtain ⟨now, -, rfl⟩ := hamended.updated
    exact absurd (hamended.commands hS (hK key hamended.signed)) hnot

theorem Performs.confines (hP : P.Lawful) (hS : Sound P L) {c : Call} {e : Effect}
    {log : List Bytes} (h : Performs P c L e L' log) (hK : ∀ key, c.SignedBy key → key ∈ K) :
    Confines K (L.access P) (L'.access P) := by
  have hS' : Sound P L' := h.sound hP hS
  have hkept {a : Address} {d : Document} (hd : L.DidAt P a d) :
      ∃ d', L'.DidAt P a d' ∧ d'.subject = d.subject := by
    obtain ⟨d', hd', hsubject, -⟩ := h.persists (hS.registered_of_didAt hd)
    exact ⟨d', hd'.didAt, hsubject⟩
  intro subject hnot
  constructor
  · rintro key - (⟨a, d, hd, rfl, hlive, hauth⟩ | ⟨habsent, hfounder⟩)
    · rcases h.origin_of_not_commands hP hS hK (hS'.registered_of_didAt hd) hnot with
        ⟨hold, -⟩ | ⟨habsent, bump, founding, now, hfounder, heq⟩
      · exact Or.inl ⟨a, d, hold.didAt, rfl, hlive, hauth⟩
      · rw [heq] at hauth
        rw [Document.isAuthority_initial hauth]
        exact Or.inr ⟨habsent, hfounder⟩
    · refine Or.inr ⟨fun a d hd hsubject => ?_, hfounder⟩
      obtain ⟨d', hd', hsame⟩ := hkept hd
      exact habsent a d' hd' (hsame.trans hsubject)
  · rintro controller ⟨a, d, hd, rfl, hlive, hmem⟩
    rcases h.origin_of_not_commands hP hS hK (hS'.registered_of_didAt hd) hnot with
      ⟨hold, -⟩ | ⟨-, bump, founding, now, -, heq⟩
    · exact ⟨a, d, hold.didAt, rfl, hlive, hmem⟩
    · rw [heq] at hmem
      cases hmem

/-- In `L'` the DID of `subject` is what it was in `L`, or what a founder outside `K` began. -/
def Untouched (P : Platform) (K : Set Address) (L : Ledger) (subject : Address) (L' : Ledger) :
    Prop :=
  (∀ a d, L.DidAt P a d → d.subject = subject → (L' a).data = (L a).data ∧ L'.DidAt P a d) ∧
    ∀ a d, L'.DidAt P a d → d.subject = subject → L.DidAt P a d ∨
      ∃ bump key now, P.Founder subject key ∧ key ∉ K ∧ d = Document.initial bump subject key now

namespace Untouched

variable {L₁ L₂ : Ledger} {subject : Address}

theorem quiet (hS : Sound P L₁) (h : Untouched P K L subject L₁) (hquiet : Quiet L₁ L₂) :
    Untouched P K L subject L₂ := by
  have hS₂ : Sound P L₂ := hquiet.sound hS
  constructor
  · intro a d hd hsubject
    obtain ⟨hdata, hd₁⟩ := h.1 a d hd hsubject
    have hd₂ : Registered P L₂ a d := hquiet.registered_iff.mpr (hS.registered_of_didAt hd₁)
    exact ⟨(hquiet.data a hd₁.1.1).trans hdata, hd₂.didAt⟩
  · intro a d hd hsubject
    exact h.2 a d (hquiet.registered_iff.mp (hS₂.registered_of_didAt hd)).didAt hsubject

theorem performs (hP : P.Lawful) (hS : Sound P L₁) {c : Call} {e : Effect} {log : List Bytes}
    (h : Untouched P K L subject L₁) (hperforms : Performs P c L₁ e L₂ log)
    (hK : ∀ key, c.SignedBy key → key ∈ K) (hnot : ¬Commands (L₁.access P) K subject) :
    Untouched P K L subject L₂ := by
  have hS₂ : Sound P L₂ := hperforms.sound hP hS
  constructor
  · intro a d hd hsubject
    obtain ⟨hdata, hd₁⟩ := h.1 a d hd hsubject
    have hreg : Registered P L₁ a d := hS.registered_of_didAt hd₁
    rcases hperforms.did_cases hreg with huntouched | ⟨op, d', ha⟩
    · have hsame := hperforms.frame huntouched
      exact ⟨hsame.1.trans hdata, (hreg.of_same hsame).didAt⟩
    · obtain ⟨key, body, hamended⟩ := hperforms.amended ha
      exact absurd (hsubject ▸ hamended.commands hS (hK key hamended.signed)) hnot
  · rintro a d hd rfl
    rcases hperforms.origin_of_not_commands hP hS hK (hS₂.registered_of_didAt hd) hnot with
      ⟨hold, -⟩ | ⟨habsent, bump, key, now, hfounder, heq⟩
    · exact h.2 a d hold.didAt rfl
    · refine Or.inr ⟨bump, key, now, hfounder, fun hkey => ?_, heq⟩
      exact hnot (.holds (Or.inr ⟨habsent, hfounder⟩) hkey)

end Untouched

theorem Quiet.access_eq (hS : Sound P L) (h : Quiet L L') : L'.access P = L.access P := by
  have hdid (a : Address) (d : Document) : L'.DidAt P a d ↔ L.DidAt P a d :=
    ⟨fun hd => (h.registered_iff.mp ((h.sound hS).registered_of_didAt hd)).didAt,
      fun hd => (h.registered_iff.mpr (hS.registered_of_didAt hd)).didAt⟩
  simp only [Ledger.access, hdid]

theorem Step.confines (hP : P.Lawful) (L : Ledger) {L₁ L₂ : Ledger} {t : Turn} (hS : Sound P L₁)
    (h : Step P L₁ t L₂) (hK : t.SignedWithin K) :
    Confines K (L₁.access P) (L₂.access P) ∧ ∀ subject, ¬Commands (L₁.access P) K subject →
      Untouched P K L subject L₁ → Untouched P K L subject L₂ := by
  rcases h.cases hP hS with ⟨c, e, log, rfl, hperforms⟩ | ⟨-, hquiet⟩
  · exact ⟨hperforms.confines hP hS hK, fun subject hnot huntouched =>
      huntouched.performs hP hS hperforms hK hnot⟩
  · rw [hquiet.access_eq hS]
    exact ⟨fun _ _ => ⟨fun _ _ h => h, fun _ h => h⟩, fun subject _ huntouched =>
      huntouched.quiet hS hquiet⟩

theorem confined_of_run (hP : P.Lawful) (hS : Sound P L) (hrun : Run (Step P) L turns L')
    (hK : ∀ t ∈ turns, t.SignedWithin K) :
    (∀ subject, Commands (L'.access P) K subject → Commands (L.access P) K subject) ∧
      ∀ subject, ¬Commands (L.access P) K subject → Untouched P K L subject L' := by
  have hkept : Sound P L' ∧
      (∀ subject, Commands (L'.access P) K subject → Commands (L.access P) K subject) ∧
      ∀ subject, ¬Commands (L.access P) K subject → Untouched P K L subject L →
        Untouched P K L subject L' :=
    Confines.run (hrun.restrict hK)
      (fun L₁ t L₂ hS₁ h => ⟨h.1.sound hP hS₁, h.1.confines hP L hS₁ h.2⟩) hS
  exact ⟨hkept.2.1, fun subject hnot =>
    hkept.2.2 subject hnot ⟨fun a d hd _ => ⟨rfl, hd⟩, fun a d hd _ => Or.inl hd⟩⟩

/-- Calls that only `K` signs change no DID that `K` does not command, and `K` never comes to
command more than it did. -/
theorem keys_confined (hP : P.Lawful) (h₀ : Fresh L₀) {before : List Turn}
    (hbefore : Run (Step P) L₀ before L) (hrun : Run (Step P) L turns L')
    (hK : ∀ t ∈ turns, t.SignedWithin K) :
    (∀ subject, Commands (L'.access P) K subject → Commands (L.access P) K subject) ∧
    (∀ a d, L.DidAt P a d → ¬Commands (L.access P) K d.subject →
      (L' a).data = (L a).data ∧ L'.DidAt P a d) ∧
    ∀ a d, L'.DidAt P a d → ¬Commands (L.access P) K d.subject → L.DidAt P a d ∨
      ∃ bump key now, P.Founder d.subject key ∧ key ∉ K ∧
        d = Document.initial bump d.subject key now := by
  obtain ⟨hcommands, huntouched⟩ := confined_of_run hP (sound_of_run hP h₀ hbefore) hrun hK
  exact ⟨hcommands, fun a d hd hnot => (huntouched _ hnot).1 a d hd rfl,
    fun a d hd hnot => (huntouched _ hnot).2 a d hd rfl⟩

/-! ### Lamports -/

/-- Only accounts of `K` sign. -/
def Turn.SignersWithin (K : Set Address) : Turn → Prop
  | .accepted c => ∀ view ∈ c.accounts, view.isSigner = true → view.address ∈ K
  | _ => True

theorem Turn.SignersWithin.signedWithin {t : Turn} (h : t.SignersWithin K) : t.SignedWithin K := by
  cases t with
  | accepted c =>
    rintro key ⟨view, hview, hsigner, rfl⟩
    exact h view (Call.mem_of_account hview) hsigner
  | refused c => exact trivial
  | outside => exact trivial

theorem Funds.payer_of_falls {payer account : AccountView} {need : ℕ} {a : Address}
    (h : Funds L payer account need L') (hfall : (L' a).lamports < (L a).lamports) :
    a = payer.address := by
  by_contra hpayer
  by_cases haccount : a = account.address
  · subst haccount
    have hbalance := (h.balance (Ne.symm hpayer)).1
    omega
  · rw [h.of_ne hpayer haccount] at hfall
    exact lt_irrefl _ hfall

theorem Resettles.party_of_falls {sv : Sysvars} {did payer : AccountView} {old new : ℕ}
    {a : Address} (h : Resettles P sv L did payer old new L')
    (hfall : (L' a).lamports < (L a).lamports) : a = did.address ∨ a = payer.address := by
  by_contra hother
  obtain ⟨hdid, hpayer⟩ := not_or.mp hother
  rcases h with ⟨-, rfl⟩ | ⟨-, hsettled⟩
  · exact lt_irrefl _ hfall
  · rw [hsettled.of_ne hdid hpayer] at hfall
    exact lt_irrefl _ hfall

/-- An account loses lamports as the payer that signs, as a DID whose authority signs, or as
a buffer whose holder signs. -/
theorem Performs.falls {c : Call} {e : Effect} {log : List Bytes} {a : Address}
    (h : Performs P c L e L' log) (hfall : (L' a).lamports < (L a).lamports) :
    (∃ payer, c.Pays payer ∧ payer.address = a) ∨
      (∃ d op d' key body, Amended P c L L' a d op d' key body) ∨
      ∃ kb, Staged P L a kb ∧ c.SignedBy kb.authority := by
  have hall := h
  cases h with
  | create founds pays target found vacant rent funds clock =>
    rw [Ledger.create_lamports] at hfall
    exact Or.inl ⟨_, pays, (funds.payer_of_falls hfall).symm⟩
  | update ix args signed pays target isDid authorized applied clock settled =>
    rw [Ledger.store_lamports] at hfall
    rcases settled.party_of_falls hfall with rfl | rfl
    · obtain ⟨key, body, hamended⟩ := hall.amended (Or.inl rfl)
      exact Or.inr (Or.inl ⟨_, _, _, _, _, hamended⟩)
    · rcases pays with pays | hflags
      · exact Or.inl ⟨_, pays, rfl⟩
      · rw [settled.eq_of_flags hflags applied] at hfall
        exact absurd hfall (lt_irrefl _)
  | openBuffer ix args encodable signed pays target named opens =>
    obtain ⟨need, L₁, -, funds, rfl⟩ := opens.created
    rw [Ledger.create_lamports] at hfall
    exact Or.inl ⟨_, pays, (funds.payer_of_falls hfall).symm⟩
  | writeBuffer ix args signed named staged nonempty next fits =>
    rw [Ledger.store_lamports] at hfall
    exact absurd hfall (lt_irrefl _)
  | finish ix args signed pays target named staged bound isDid complete authorized applied clock
        settled =>
    rename_i payer did buffer d kb body now L₁
    by_cases hpayer : a = payer.address
    · exact Or.inl ⟨payer, pays, hpayer.symm⟩
    by_cases hbuffer : a = buffer.address
    · subst hbuffer
      exact Or.inr (Or.inr ⟨kb, staged, signed⟩)
    · rw [Ledger.closed_of_ne _ hbuffer hpayer, Ledger.store_lamports] at hfall
      obtain rfl := (settled.party_of_falls hfall).resolve_right hpayer
      obtain ⟨key, body, hamended⟩ := hall.amended (Or.inr ⟨_, kb, rfl, rfl⟩)
      exact Or.inr (Or.inl ⟨_, _, _, _, _, hamended⟩)
  | closeBuffer ix args signed pays named staged =>
    rename_i payer buffer kb
    by_cases hpayer : a = payer.address
    · exact Or.inl ⟨payer, pays, hpayer.symm⟩
    by_cases hbuffer : a = buffer.address
    · subst hbuffer
      exact Or.inr (Or.inr ⟨kb, staged, signed⟩)
    · rw [Ledger.closed_of_ne _ hbuffer hpayer] at hfall
      exact absurd hfall (lt_irrefl _)

/-- The account at `a` signs within `K`, or is where a DID that `K` commands belongs, or a
key buffer of a key of `K`. -/
def Ledger.SpendableBy (P : Platform) (L : Ledger) (K : Set Address) (a : Address) : Prop :=
  a ∈ K ∨
    (∃ subject bump, P.deriveProgramAddress [didSeed, subject.val] = some (a, bump) ∧
      Commands (L.access P) K subject) ∨
    ∃ (did key : Address) (bump : UInt8), key ∈ K ∧
      P.deriveProgramAddress [keyBufferSeed, did.val, key.val] = some (a, bump)

theorem Performs.spendable_of_falls {c : Call} {e : Effect} {log : List Bytes} {a : Address}
    (hS : Sound P L) (h : Performs P c L e L' log)
    (hK : (Turn.accepted c).SignersWithin K) (hfall : (L' a).lamports < (L a).lamports) :
    L.SpendableBy P K a := by
  rcases h.falls hfall with
    ⟨payer, hpays, rfl⟩ | ⟨d, op, d', key, body, hamended⟩ | ⟨kb, hkb, hsigned⟩
  · exact Or.inl (hK payer (Call.mem_of_account hpays.1) hpays.2.1)
  · exact Or.inr (Or.inl ⟨d.subject, d.bump, hamended.before.found,
      hamended.commands hS (hK.signedWithin key hamended.signed)⟩)
  · exact Or.inr (Or.inr ⟨kb.didAccount, kb.authority, kb.bump,
      hK.signedWithin kb.authority hsigned, hkb.found⟩)

/-- Calls that only `K` signs take lamports from the signers alone, from DIDs that `K`
commanded from the start and from the key buffers of `K`. -/
theorem funds_confined (hP : P.Lawful) (h₀ : Fresh L₀) {before : List Turn}
    (hbefore : Run (Step P) L₀ before L)
    (hrun : Run (fun L t L' => Step P L t L' ∧
      (t = .outside → ∀ a ∉ K, (L a).lamports ≤ (L' a).lamports)) L turns L')
    (hK : ∀ t ∈ turns, t.SignersWithin K) {a : Address}
    (hfall : (L' a).lamports < (L a).lamports) : L.SpendableBy P K a := by
  have hS : Sound P L := sound_of_run hP h₀ hbefore
  by_contra hnot
  have hkept := (hrun.restrict hK).invariant (P := fun M => Sound P M ∧
    (∀ subject, Commands (M.access P) K subject → Commands (L.access P) K subject) ∧
      (L a).lamports ≤ (M a).lamports) ?_ ⟨hS, fun _ h => h, le_rfl⟩
  · exact absurd hfall hkept.2.2.not_gt
  rintro M t M' ⟨hM, hcommands, hle⟩ ⟨⟨hstep, houtside⟩, hsigners⟩
  have hconfines := (hstep.confines hP M hM hsigners.signedWithin).1
  refine ⟨hstep.sound hP hM, fun subject h => hcommands subject (hconfines.commands h), ?_⟩
  have hspendable (h : M.SpendableBy P K a) : L.SpendableBy P K a :=
    h.imp_right (Or.imp_left fun ⟨subject, bump, hfind, hc⟩ =>
      ⟨subject, bump, hfind, hcommands subject hc⟩)
  refine hle.trans (not_lt.mp fun hlt => hnot (hspendable ?_))
  cases hstep with
  | accepted h =>
    obtain ⟨e, hperforms⟩ := exists_performs hP hM h
    exact hperforms.spendable_of_falls hM hsigners hlt
  | refused h => exact absurd hlt (lt_irrefl _)
  | outside h =>
    by_contra hspend
    have hle := houtside rfl a fun ha => hspend (Or.inl ha)
    omega

namespace Sample

def arrival : Call := send (Client.initializeDid platform payer controller)

def ownChange : Call :=
  send (Client.addService platform payer controller controller [115] [88] [120])

/-- Tries to deactivate the DID of `subject` with the key of `controller`. -/
def intrusion : Call := send (Client.deactivate platform payer controller subject)

theorem not_commands :
    ¬Commands ((afterAll platform [creation] ledger).access platform) {controller} subject := by
  have hdid : (afterAll platform [creation] ledger).DidAt platform did document := by
    decide +kernel
  have hunique {a : Address} {d : Document}
      (hd : (afterAll platform [creation] ledger).DidAt platform a d)
      (hsubject : d.subject = subject) : d = document := by
    have hfound := hd.2.2.2
    rw [hsubject] at hfound
    obtain rfl : did = a := congrArg Prod.fst (Option.some.inj (hdid.2.2.2.symm.trans hfound))
    exact Option.some.inj (hd.2.1.symm.trans hdid.2.1)
  rintro (⟨⟨a, d, hd, hsubject, -, hauth⟩ | ⟨habsent, -⟩, rfl⟩ | ⟨⟨a, d, hd, hsubject, -, hmem⟩, -⟩)
  · rw [hunique hd hsubject] at hauth
    exact absurd hauth (by decide)
  · exact habsent did document hdid rfl
  · rw [hunique hd hsubject] at hmem
    cases hmem

theorem signed_within (L : Ledger) :
    ∀ t ∈ turnsOf platform [arrival, ownChange, intrusion] L, t.SignedWithin {controller} := by
  intro t ht
  cases t with
  | accepted c =>
    rintro key ⟨view, hview, -, rfl⟩
    have hmem := mem_of_turnsOf ht
    simp only [List.mem_cons, List.not_mem_nil, or_false] at hmem
    have hnone : arrival.authority = none := by decide +kernel
    have hown : ownChange.authority = some (.readonly controller true) := by decide +kernel
    have hother : intrusion.authority = some (.readonly controller true) := by decide +kernel
    rcases hmem with rfl | rfl | rfl
    · rw [hnone] at hview
      cases hview
    · rw [← Option.some.inj (hown.symm.trans hview)]
      exact Set.mem_singleton _
    · rw [← Option.some.inj (hother.symm.trans hview)]
      exact Set.mem_singleton _
  | refused c => exact trivial
  | outside => exact trivial

end Sample

/-- Whoever has the key of another DID changes that DID, and not this one. -/
theorem keys_confined_sample :
    let L := afterAll Sample.platform [Sample.creation] Sample.ledger
    let L' := afterAll Sample.platform [Sample.arrival, Sample.ownChange, Sample.intrusion] L
    (L' Sample.did).data = (L Sample.did).data ∧
      (L' Sample.controllerDid).data ≠ (L Sample.controllerDid).data := by
  intro L L'
  have hkept : ∀ a d, L.DidAt Sample.platform a d →
      ¬Commands (L.access Sample.platform) {Sample.controller} d.subject →
        (L' a).data = (L a).data ∧ L'.DidAt Sample.platform a d :=
    (keys_confined Sample.platform_lawful Sample.ledger_fresh
      (run_of_calls [Sample.creation] Sample.ledger)
      (run_of_calls [Sample.arrival, Sample.ownChange, Sample.intrusion] L)
      (Sample.signed_within L)).2.1
  have hdid : L.DidAt Sample.platform Sample.did Sample.document := by decide +kernel
  exact ⟨(hkept Sample.did Sample.document hdid Sample.not_commands).1, by decide +kernel⟩

theorem funds_confined_sample :
    let L := afterAll Sample.platform [Sample.creation] Sample.ledger
    let L' := after Sample.platform Sample.deactivation L
    (L' Sample.did).lamports < (L Sample.did).lamports ∧
      L.SpendableBy Sample.platform {Sample.subject, Sample.payer} Sample.did := by
  intro L L'
  obtain ⟨log, hdone⟩ := invoke_after (P := Sample.platform) (L := L) (c := Sample.deactivation)
    (by decide +kernel)
  have hrun : Run (fun L t L' => Step Sample.platform L t L' ∧ (t = .outside →
      ∀ a ∉ ({Sample.subject, Sample.payer} : Set Address), (L a).lamports ≤ (L' a).lamports))
      L ([] ++ [.accepted Sample.deactivation]) L' :=
    Run.start.snoc ⟨.accepted hdone, by simp⟩
  have hsigners : ∀ t ∈ [Turn.accepted Sample.deactivation],
      t.SignersWithin {Sample.subject, Sample.payer} := by
    intro t ht
    rw [List.mem_singleton.mp ht]
    change ∀ view ∈ Sample.deactivation.accounts, view.isSigner = true →
      view.address = Sample.subject ∨ view.address = Sample.payer
    decide +kernel
  have hfall : (L' Sample.did).lamports < (L Sample.did).lamports := by decide +kernel
  exact ⟨hfall, funds_confined Sample.platform_lawful Sample.ledger_fresh
    (run_of_calls [Sample.creation] Sample.ledger) hrun hsigners hfall⟩

end BioDidRegistry
