import BioDidRegistry.Properties.TypedAccounts

/-!
# The birth of a DID

A DID account is created once. Its subject is an Ed25519 key, which is then the founding
key, or an address the program derived from the authority that signed the creation, whose
key is then the founding one. What the creation writes depends on neither the payer nor
the lamports already there, and until the first update nobody but the founding key may
act.
-/

namespace BioDidRegistry

open BinaryFormat Transition Verdict

variable {P : Platform} {L L' L₀ : Ledger} {turns : List Turn}

/-! ### Derived addresses -/

/-- `find_program_address` returns addresses off the curve, and its hash does not collide:
an address has one preimage, its seeds and its bump in a row. -/
structure Platform.Collisionless (P : Platform) : Prop where
  off_curve {seeds : List Bytes} {a : Address} {bump : UInt8} :
    P.deriveProgramAddress seeds = some (a, bump) → P.isCurvePoint a.val = false
  injective {seeds seeds' : List Bytes} {a : Address} {bump bump' : UInt8} :
    P.deriveProgramAddress seeds = some (a, bump) →
    P.deriveProgramAddress seeds' = some (a, bump') →
      seeds.flatten ++ [bump] = seeds'.flatten ++ [bump']

/-- `subject` is `owned_subject(authority, nonce)`. -/
def Platform.Owns (P : Platform) (authority : Address) (nonce : Block 8) (subject : Address) :
    Prop :=
  ∃ bump, P.deriveProgramAddress (ownedSubjectSeeds authority nonce) = some (subject, bump)

namespace Platform.Owns

variable {authority authority' subject : Address} {nonce nonce' : Block 8}

theorem off_curve (hC : P.Collisionless) (h : P.Owns authority nonce subject) :
    P.isCurvePoint subject.val = false := by
  obtain ⟨bump, hfind⟩ := h
  exact hC.off_curve hfind

theorem unique (hC : P.Collisionless) (h : P.Owns authority nonce subject)
    (h' : P.Owns authority' nonce' subject) : authority = authority' ∧ nonce = nonce' := by
  obtain ⟨bump, hfind⟩ := h
  obtain ⟨bump', hfind'⟩ := h'
  have hbytes : ownedSubjectSeed ++ (authority.val ++ (nonce.val ++ [bump])) =
      ownedSubjectSeed ++ (authority'.val ++ (nonce'.val ++ [bump'])) := by
    simpa [ownedSubjectSeeds] using hC.injective hfind hfind'
  have hkeys := List.append_cancel_left hbytes
  have hlen : authority.val.length = authority'.val.length := by
    rw [authority.length_eq, authority'.length_eq]
  obtain ⟨hauthority, hrest⟩ := List.append_inj hkeys hlen
  have hlen' : nonce.val.length = nonce'.val.length := by
    rw [nonce.length_eq, nonce'.length_eq]
  exact ⟨Subtype.ext hauthority, Subtype.ext (List.append_inj hrest hlen').1⟩

end Platform.Owns

/-! ### Creations -/

def Call.creates (c : Call) (a : Address) : Bool :=
  (c.ix == some .initializeDid || c.ix == some .initializeOwned) &&
    c.didAccount.map AccountView.address == some a

def Turn.creates (a : Address) : Turn → Bool
  | accepted c => c.creates a
  | _ => false

namespace Performs

variable {c : Call} {e : Effect} {log : List Bytes} {a : Address}

theorem creates_iff (h : Performs P c L e L' log) :
    c.creates a = true ↔ ∃ d, e = .create a d := by
  unfold Call.creates
  cases h with
  | create founds pays target found vacant rent funds clock =>
    simp [founds.ix_cases, target, Subtype.val_inj]
  | update ix args signed pays target isDid authorized applied clock settled =>
    rename_i op body now L₁
    cases op <;> simp [ix, Op.ix]
  | openBuffer ix | writeBuffer ix | finish ix | closeBuffer ix => simp [ix]

theorem hasDid_iff (hP : P.Lawful) (hS : Sound P L) (h : Performs P c L e L' log) :
    L'.HasDid a ↔ L.HasDid a ∨ c.creates a = true := by
  rw [h.creates_iff]
  constructor
  · intro hdid
    obtain ⟨d, hd⟩ := (h.sound hP hS).exists_registered hdid
    rcases h.did_origin hP hS hd with ⟨hold, -⟩ | hnew | ⟨d₀, op, ha⟩
    · exact Or.inl hold.toIsDid.hasDid
    · exact Or.inr ⟨d, hnew⟩
    · obtain ⟨key, body, hamended⟩ := h.amended ha
      exact Or.inl hamended.before.toIsDid.hasDid
  · intro hcases
    rcases hcases with hdid | ⟨d, rfl⟩
    · obtain ⟨d, hd⟩ := hS.exists_registered hdid
      obtain ⟨d', hd', -⟩ := h.persists hd
      exact hd'.toIsDid.hasDid
    · exact (h.created hP).2.1.toIsDid.hasDid

theorem vacant_of_creates (hP : P.Lawful) (h : Performs P c L e L' log)
    (hc : c.creates a = true) : ¬L.HasDid a := by
  obtain ⟨d, rfl⟩ := h.creates_iff.mp hc
  intro hdid
  exact programId_ne_systemProgram (hdid.1.symm.trans (h.created hP).1)

end Performs

theorem Quiet.hasDid_iff (h : Quiet L L') {a : Address} : L'.HasDid a ↔ L.HasDid a := by
  unfold Ledger.HasDid
  rw [h.owner_iff]
  constructor
  · intro ⟨howner, hdisc⟩
    exact ⟨howner, h.data a howner ▸ hdisc⟩
  · intro ⟨howner, hdisc⟩
    exact ⟨howner, (h.data a howner).symm ▸ hdisc⟩

theorem countP_creates (hP : P.Lawful) (h₀ : Fresh L₀) (hrun : Run (Step P) L₀ turns L)
    (a : Address) : turns.countP (Turn.creates a) = if L.HasDid a then 1 else 0 := by
  refine hrun.trace (P := fun turns L =>
    turns.countP (Turn.creates a) = if L.HasDid a then 1 else 0) ?_ ?_
  · intro turns L₁ t L₂ hrun₁ ih hstep
    have hS : Sound P L₁ := sound_of_run hP h₀ hrun₁
    rw [List.countP_append, List.countP_singleton, ih]
    rcases hstep.cases hP hS with ⟨c, e, log, rfl, h⟩ | ⟨hother, hquiet⟩
    · by_cases hc : c.creates a = true
      · have hnone := h.vacant_of_creates hP hc
        have hdid := (h.hasDid_iff hP hS).mpr (Or.inr hc)
        simp [Turn.creates, hc, hnone, hdid]
      · have hiff : L₂.HasDid a ↔ L₁.HasDid a := by
          rw [h.hasDid_iff hP hS]
          simp [hc]
        simp [Turn.creates, hc, hiff]
    · have hcreates : t.creates a = false := by
        cases t with
        | accepted c => exact absurd rfl (hother c)
        | refused c => rfl
        | outside => rfl
      simp [hcreates, hquiet.hasDid_iff]
  · have hnone : ¬L₀.HasDid a := fun hdid => h₀ a hdid.1
    simp [hnone]

theorem exists_creation (hP : P.Lawful) (h₀ : Fresh L₀) (hrun : Run (Step P) L₀ turns L)
    {a : Address} (hdid : L.HasDid a) :
    ∃ before c after L₁ L₂ log d, turns = before ++ .accepted c :: after ∧
      Run (Step P) L₀ before L₁ ∧ invoke P c L₁ = .ok (L₂, log) ∧
      Performs P c L₁ (.create a d) L₂ log ∧ Run (Step P) L₂ after L := by
  have hnone : ¬L₀.HasDid a := fun hdid => h₀ a hdid.1
  obtain ⟨before, t, after, L₁, L₂, hturns, hbefore, hL₁, hstep, hL₂, hafter⟩ :=
    hrun.exists_turning (P := fun L => L.HasDid a) hnone hdid
  have hS : Sound P L₁ := sound_of_run hP h₀ hbefore
  cases hstep with
  | accepted hc =>
    obtain ⟨e, h⟩ := exists_performs hP hS hc
    rcases (h.hasDid_iff hP hS).mp hL₂ with hold | hnew
    · exact absurd hold hL₁
    · obtain ⟨d, rfl⟩ := h.creates_iff.mp hnew
      exact ⟨before, _, after, L₁, L₂, _, d, hturns, hbefore, hc, h, hafter⟩
  | refused hc => exact absurd hL₂ hL₁
  | outside hquiet => exact absurd (hquiet.hasDid_iff.mp hL₂) hL₁

/-! ### Founding keys -/

namespace Call

variable {c : Call} {subject key : Address}

/-- The subject is the founding key, or the owned subject of the founding key. -/
theorem Founds.rightful (hC : P.Collisionless) (h : c.Founds P subject key) :
    (P.isCurvePoint subject.val = true ∧ key = subject) ∨
      (P.isCurvePoint subject.val = false ∧ c.SignedBy key ∧ ∃ nonce, ∀ a n,
        P.Owns a n subject ↔ a = key ∧ n = nonce) := by
  rcases h with ⟨-, -, hkey, hcurve⟩ | ⟨-, hsigned, nonce, bump, -, hfind⟩
  · exact Or.inl ⟨hcurve, hkey⟩
  · have howns : P.Owns key nonce subject := ⟨bump, hfind⟩
    refine Or.inr ⟨howns.off_curve hC, hsigned, nonce, fun a n => ⟨fun h => h.unique hC howns, ?_⟩⟩
    intro ⟨ha, hn⟩
    rw [ha, hn]
    exact howns

end Call

/-- The founding key is the one authority of the first document, which has no controllers. -/
theorem Document.authorized_initial_iff {bump : UInt8} {subject key signer : Address} {now : Int64}
    {controller : Option AccountView} :
    Authorized P L (Document.initial bump subject key now) signer controller ↔ signer = key := by
  have hkey : (Document.initial bump subject key now).body.isAuthority signer = true ↔
      signer = key := by
    have hkind : (Method.mk defaultFragment vmTypeEd25519 vmFlagsDefault key.val).isAuthority =
        true := by
      change (vmTypeEd25519 == vmTypeEd25519 &&
        hasFlag vmFlagsDefault vmFlagCapabilityInvocation) = true
      decide
    have hkeys : (Document.initial bump subject key now).body.isAuthority signer =
        (key.val == signer.val) := by
      simp only [Document.initial, Body.isAuthority, List.any_cons, List.any_nil, hkind,
        Bool.true_and, Bool.or_false]
    rw [hkeys, beq_iff_eq, Subtype.val_inj, eq_comm]
  unfold Authorized
  rw [hkey]
  constructor
  · intro hauth
    rcases hauth.2 with hsigner | ⟨view, p, -, -, hmem, -⟩
    · exact hsigner
    · cases hmem
  · intro hsigner
    exact ⟨rfl, Or.inl hsigner⟩

theorem exists_created (hP : P.Lawful) {c : Call} {log : List Bytes}
    (hix : c.ix = some .initializeDid ∨ c.ix = some .initializeOwned)
    (hc : invoke P c L = .ok (L', log)) : ∃ a d, Performs P c L (.create a d) L' log := by
  obtain ⟨ix, hix', hrun⟩ := invoke_ok_iff.mp hc
  have hcreates : ix = .initializeDid ∨ ix = .initializeOwned := by simpa [hix'] using hix
  exact exists_create hP hix' hcreates hrun

/-- What a creation writes is the first document, at the address of the subject. -/
theorem exists_first (hP : P.Lawful) {c : Call} {log : List Bytes} {subject key : Address}
    (hfounds : c.Founds P subject key) (hc : invoke P c L = .ok (L', log)) :
    ∃ a bump now, c.creates a = true ∧
      P.deriveProgramAddress [didSeed, subject.val] = some (a, bump) ∧
      c.sysvars.clock = .ok now ∧
      (L' a).data = (Document.initial bump subject key now).encode := by
  obtain ⟨a, d, h⟩ := exists_created hP hfounds.ix_cases hc
  have hcreated : c.creates a = true := h.creates_iff.mpr ⟨d, rfl⟩
  cases h with
  | create founds pays target found vacant rent funds clock =>
    obtain ⟨rfl, rfl⟩ := hfounds.unique founds
    exact ⟨_, _, _, hcreated, found, clock, Ledger.create_data ..⟩

/-- The accepted call `c` took the ledger from `L₁` to `L₂` and founded the DID at `a` for
`subject`, with the one key that may act on it then. -/
structure Born (P : Platform) (c : Call) (L₁ L₂ : Ledger) (a subject key : Address) : Prop where
  creates : c.creates a = true
  accepted : ∃ log, invoke P c L₁ = .ok (L₂, log)
  first : ∃ bump now, L₂.DidAt P a (Document.initial bump subject key now)
  /-- The subject is the founding key, or belongs to it and to nobody else. -/
  rightful : (P.isCurvePoint subject.val = true ∧ key = subject) ∨
    (P.isCurvePoint subject.val = false ∧ c.SignedBy key ∧ ∃ nonce, ∀ authority n,
      P.Owns authority n subject ↔ authority = key ∧ n = nonce)
  only_key : ∀ v signer controller, DidView.parse (L₂ a).data = .ok v →
    (authorize P L₂ v signer controller = .ok () ↔ signer = key)

theorem Performs.born (hP : P.Lawful) (hC : P.Collisionless) {c : Call} {a : Address} {d : Document}
    {log : List Bytes} (h : Performs P c L (.create a d) L' log)
    (hc : invoke P c L = .ok (L', log)) :
    ∃ key, c.Founds P d.subject key ∧ Born P c L L' a d.subject key := by
  obtain ⟨-, hd, bump, subject, key, now, hfounds, rfl⟩ := h.created hP
  refine ⟨key, hfounds, h.creates_iff.mpr ⟨_, rfl⟩, ⟨log, hc⟩, ⟨bump, now, hd.didAt⟩,
    hfounds.rightful hC, ?_⟩
  intro v signer controller hv
  rw [authorize_ok_iff (hd.toIsDid.shows_of_parse hv), Document.authorized_initial_iff]

/-- A DID is born once and under its rightful key, an owned subject only by its owner's
signature. Every accepted creation gives birth to one where there was none, and the first
bytes depend on the subject, the key and the clock alone. -/
theorem born_under_rightful_key (hP : P.Lawful) (hC : P.Collisionless) (h₀ : Fresh L₀)
    (hrun : Run (Step P) L₀ turns L) :
    (∀ a d, L.DidAt P a d → turns.countP (Turn.creates a) = 1 ∧
      ∃ before c after L₁ L₂ key, turns = before ++ .accepted c :: after ∧
        Run (Step P) L₀ before L₁ ∧ Born P c L₁ L₂ a d.subject key ∧
        Run (Step P) L₂ after L) ∧
    (∀ authority nonce subject, P.Owns authority nonce subject →
      (∀ c, .accepted c ∈ turns → c.ix = some .initializeOwned → ¬c.SignedBy authority) →
      ∀ a d, L.DidAt P a d → d.subject ≠ subject) ∧
    (∀ c L' log, c.ix = some .initializeDid ∨ c.ix = some .initializeOwned →
      invoke P c L = .ok (L', log) →
      ∃ a subject key, ¬L.HasDid a ∧ c.Founds P subject key ∧ Born P c L L' a subject key) ∧
    ∀ c c' L₁ L₁' L₂ L₂' log log' subject key, c.Founds P subject key → c'.Founds P subject key →
      c.sysvars.clock = c'.sysvars.clock → invoke P c L₁ = .ok (L₂, log) →
      invoke P c' L₁' = .ok (L₂', log') →
      ∃ a, c.creates a = true ∧ c'.creates a = true ∧ (L₂ a).data = (L₂' a).data := by
  have hS : Sound P L := sound_of_run hP h₀ hrun
  have hborn (a : Address) (d : Document) (hd : L.DidAt P a d) :
      ∃ before c after L₁ L₂ key, turns = before ++ .accepted c :: after ∧
        c.Founds P d.subject key ∧ Run (Step P) L₀ before L₁ ∧ Born P c L₁ L₂ a d.subject key ∧
        Run (Step P) L₂ after L := by
    obtain ⟨before, c, after, L₁, L₂, log, d₁, hturns, hbefore, hc, h, hafter⟩ :=
      exists_creation hP h₀ hrun hd.1
    obtain ⟨key, hfounds, hborn⟩ := h.born hP hC hc
    have hS₂ : Sound P L₂ := h.sound hP (sound_of_run hP h₀ hbefore)
    obtain ⟨d', hd', hsubject, -⟩ := (h.created hP).2.1.persists hP hS₂ hafter
    obtain rfl : d' = d := hd'.toIsDid.unique (hS.registered_of_didAt hd).toIsDid
    rw [hsubject]
    exact ⟨before, c, after, L₁, L₂, key, hturns, hfounds, hbefore, hborn, hafter⟩
  refine ⟨?_, ?_, ?_, ?_⟩
  · intro a d hd
    obtain ⟨before, c, after, L₁, L₂, key, hturns, -, hrest⟩ := hborn a d hd
    refine ⟨?_, before, c, after, L₁, L₂, key, hturns, hrest⟩
    rw [countP_creates hP h₀ hrun a, if_pos hd.1]
  · intro authority nonce subject howns hnever a d hd hsubject
    obtain ⟨before, c, after, L₁, L₂, key, hturns, hfounds, -⟩ := hborn a d hd
    rw [hsubject] at hfounds
    rcases hfounds with ⟨-, -, -, hcurve⟩ | ⟨hix, hsigned, n, bump, -, hfind⟩
    · rw [howns.off_curve hC] at hcurve
      cases hcurve
    · have hkey : key = authority := (Platform.Owns.unique hC ⟨bump, hfind⟩ howns).1
      exact hnever c (by simp [hturns]) hix (hkey ▸ hsigned)
  · intro c L' log hix hc
    obtain ⟨a, d, h⟩ := exists_created hP hix hc
    obtain ⟨key, hfounds, hborn⟩ := h.born hP hC hc
    exact ⟨a, d.subject, key, h.vacant_of_creates hP hborn.creates, hfounds, hborn⟩
  · intro c c' L₁ L₁' L₂ L₂' log log' subject key hfounds hfounds' hclock hc hc'
    obtain ⟨a, bump, now, hcreates, hfind, hnow, hdata⟩ := exists_first hP hfounds hc
    obtain ⟨a', bump', now', hcreates', hfind', hnow', hdata'⟩ := exists_first hP hfounds' hc'
    cases hfind.symm.trans hfind'
    cases hnow.symm.trans (hclock.trans hnow')
    exact ⟨a, hcreates, hcreates', hdata.trans hdata'.symm⟩

namespace Sample

/-- What `subject` owns under the nonce 0. -/
def ownedSubject : Address :=
  ⟨[67, 184, 254, 237, 138, 33, 188, 142, 243, 93, 212, 37, 111, 129, 29, 21, 71, 93, 165, 204, 18,
    157, 191, 242, 44, 198, 45, 15, 75, 74, 23, 103], rfl⟩

def ownedDid : Address :=
  ⟨[224, 179, 196, 72, 193, 164, 218, 201, 152, 208, 164, 86, 244, 141, 209, 246, 253, 62, 22, 23,
    208, 15, 191, 68, 216, 64, 231, 195, 84, 106, 22, 106], rfl⟩

def ownedFind (seeds : List Bytes) : Option (Address × UInt8) :=
  if seeds = [ownedSubjectSeed, subject.val, u64Bytes 0] then some (ownedSubject, 254)
  else if seeds = [didSeed, ownedSubject.val] then some (ownedDid, 254)
  else if seeds = [didSeed, subject.val] then some (did, 255)
  else none

def ownedPlatform : Platform := Platform.ofAddresses ownedFind fun bs => bs == subject.val

/-- Each seed with the address and the bump it leads to. -/
def ownedAddresses : List (List Bytes × Address × UInt8) :=
  [([ownedSubjectSeed, subject.val, u64Bytes 0], ownedSubject, 254),
    ([didSeed, ownedSubject.val], ownedDid, 254), ([didSeed, subject.val], did, 255)]

theorem mem_ownedAddresses {seeds : List Bytes} {a : Address} {bump : UInt8}
    (h : ownedFind seeds = some (a, bump)) : (seeds, a, bump) ∈ ownedAddresses := by
  unfold ownedFind at h
  split_ifs at h with howned hfirst hsecond
  all_goals
    cases h
    simp [ownedAddresses, *]

theorem ownedPlatform_collisionless : ownedPlatform.Collisionless where
  off_curve h := by
    have hmem := mem_ownedAddresses h
    simp only [ownedAddresses, List.mem_cons, List.not_mem_nil, or_false, Prod.mk.injEq] at hmem
    rcases hmem with ⟨-, rfl, -⟩ | ⟨-, rfl, -⟩ | ⟨-, rfl, -⟩ <;> decide
  injective h h' := by
    have hnodup : (ownedAddresses.map fun x => x.2.1).Nodup := by decide
    cases List.inj_on_of_nodup_map hnodup (mem_ownedAddresses h) (mem_ownedAddresses h') rfl
    rfl

def ownedCreation : Call := send (Client.initializeOwned ownedPlatform payer subject 0)

end Sample

/-- A key subject and what it owns, each born by its own signature. -/
theorem born_under_rightful_key_sample :
    let L := afterAll Sample.ownedPlatform [Sample.ownedCreation] Sample.ledger
    (∃ before c after L₁ L₂ key,
      turnsOf Sample.ownedPlatform [Sample.ownedCreation] Sample.ledger =
        before ++ .accepted c :: after ∧
      Born Sample.ownedPlatform c L₁ L₂ Sample.ownedDid Sample.ownedSubject key) ∧
    ∃ a subject key, ¬L.HasDid a ∧ Sample.creation.Founds Sample.ownedPlatform subject key ∧
      Born Sample.ownedPlatform Sample.creation L
        (after Sample.ownedPlatform Sample.creation L) a subject key := by
  intro L
  have hrun := run_of_calls (P := Sample.ownedPlatform) [Sample.ownedCreation] Sample.ledger
  have hdid : L.DidAt Sample.ownedPlatform Sample.ownedDid
      (Document.initial 254 Sample.ownedSubject Sample.subject 1700000000) := by decide +kernel
  obtain ⟨hborn, -, hcreation, -⟩ := born_under_rightful_key (Platform.ofAddresses_lawful _ _)
    Sample.ownedPlatform_collisionless Sample.ledger_fresh hrun
  obtain ⟨-, before, c, after, L₁, L₂, key, hturns, -, hborn, -⟩ := hborn _ _ hdid
  obtain ⟨log, hdone⟩ := invoke_after (P := Sample.ownedPlatform) (L := L) (c := Sample.creation)
    (by decide +kernel)
  exact ⟨⟨before, c, after, L₁, L₂, key, hturns, hborn⟩,
    hcreation Sample.creation _ log (Or.inl (by decide +kernel)) hdone⟩

end BioDidRegistry
