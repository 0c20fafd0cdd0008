import BioDidRegistry.Registry.Additions
import BioDidRegistry.Registry.Reference

/-!
# Creation at an address that already holds lamports

Anyone can pay into an address before the program creates an account there. `Aims` is what
a creation asks before it looks at the address. What it then writes does not depend on the
balance it finds, which it tops up to the rent. At an address that is not vacant it stops
before it has touched anything.
-/

namespace BioDidRegistry

open BinaryFormat

variable {P : Platform} {L L' : Ledger} {c : Call}

attribute [ext] Account

theorem exists_of_map_ok {ε α β : Type} {x : Except ε α} {f : α → β} {b : β}
    (h : x.map f = .ok b) : ∃ a, x = .ok a ∧ f a = b := by
  cases x with
  | error e => cases h
  | ok a => exact ⟨a, rfl, Except.ok.inj h⟩

/-! ### Balances do not matter to the checks -/

theorem IsDid.setLamports {a x : Address} {d : Document} {b : ℕ} (hd : IsDid P L a d) :
    IsDid P (L.setLamports x b) a d := by
  obtain ⟨howner, hdata, hfits, haddress⟩ := hd
  exact ⟨by simpa using howner, by simpa using hdata, hfits, haddress⟩

theorem Authorized.setLamports {d : Document} {signer x : Address} {b : ℕ}
    {controller : Option AccountView} (h : Authorized P L d signer controller) :
    Authorized P (L.setLamports x b) d signer controller := by
  obtain ⟨hlive, hdirect | ⟨view, p, hview, hp, hrest⟩⟩ := h
  · exact ⟨hlive, Or.inl hdirect⟩
  · exact ⟨hlive, Or.inr ⟨view, p, hview, hp.setLamports, hrest⟩⟩

/-! ### Creations -/

theorem materialize_occupied {sv : Sysvars} {payer did system : AccountView}
    {subject key : Address} {bump : UInt8} {m : Machine} {e : Fault}
    (hroles : payer.isSigner = true ∧ payer.isWritable = true ∧ system.address = systemProgram ∧
      did.isWritable = true)
    (hfound : P.deriveProgramAddress [didSeed, subject.val] = some (did.address, bump))
    (hrefused : ensure ((m.ledger did.address).owner == systemProgram &&
      (m.ledger did.address).data.length == 0) .accountAlreadyInitialized = .error e) :
    Initialize.materialize P sv payer did system subject key m = .error e m := by
  obtain ⟨hsigner, hwritable, hsystem, hdid⟩ := hroles
  have hpayer : checkPayer payer = .ok () := by simp [checkPayer, hsigner, hwritable]
  have hprogram : checkSystemProgram system = .ok () := by simp [checkSystemProgram, hsystem]
  unfold Initialize.materialize
  rw [Exec.ledger_bind, lift_bind_run hpayer, lift_bind_run hprogram,
    lift_bind_run ((ensure_eq_ok (u := ())).mpr hdid), lift_bind_run (findPda_ok_iff.mpr hfound)]
  dsimp only
  rw [lift_bind_run ((ensure_eq_ok (u := ())).mpr (beq_self_eq_true _))]
  exact lift_bind_error hrefused _ _

/-- The call passes every check of a creation up to the one of the address it creates, which
is that of `target`. It will take `space` bytes, be filled with what `write` answers, and be
reported by the records. -/
inductive Aims (P : Platform) (c : Call) (L : Ledger) (payer target : AccountView) :
    ℕ → Except ProgramError Bytes → List Bytes → Prop
  | initializeDid {system : AccountView} {rest : List AccountView} {subject : Address}
      {bump : UInt8} (ix : c.ix = some .initializeDid)
      (accounts : c.accounts = payer :: target :: system :: rest) (args : c.args = subject.val)
      (curve : P.isCurvePoint subject.val = true)
      (roles : payer.isSigner = true ∧ payer.isWritable = true ∧ system.address = systemProgram ∧
        target.isWritable = true)
      (found : P.deriveProgramAddress [didSeed, subject.val] = some (target.address, bump)) :
      Aims P c L payer target initialSpace
        (c.sysvars.clock.map fun now => (Document.initial bump subject subject now).encode)
        [eventBytes didInitialized target.address subject 1]
  | initializeOwned {authority system : AccountView} {rest : List AccountView} {subject : Address}
      {nonce : Block 8} {bump bump' : UInt8} (ix : c.ix = some .initializeOwned)
      (accounts : c.accounts = payer :: authority :: target :: system :: rest)
      (args : c.args = nonce.val) (signed : authority.isSigner = true)
      (owned : P.deriveProgramAddress (ownedSubjectSeeds authority.address nonce) =
        some (subject, bump'))
      (roles : payer.isSigner = true ∧ payer.isWritable = true ∧ system.address = systemProgram ∧
        target.isWritable = true)
      (found : P.deriveProgramAddress [didSeed, subject.val] = some (target.address, bump)) :
      Aims P c L payer target initialSpace
        (c.sysvars.clock.map fun now =>
          (Document.initial bump subject authority.address now).encode)
        [eventBytes didInitialized target.address subject 1]
  | createKeyBuffer {authority did system : AccountView} {rest : List AccountView}
      {d : Document} {nm : NewMethod} {kb : KeyBuffer} (ix : c.ix = some .createKeyBuffer)
      (accounts : c.accounts = payer :: authority :: did :: target :: system :: rest)
      (args : c.args = nm.args) (encodable : nm.Encodable)
      (roles : payer.isSigner = true ∧ payer.isWritable = true ∧ authority.isSigner = true ∧
        system.address = systemProgram ∧ target.isWritable = true)
      (isDid : IsDid P L did.address d)
      (authorized : Authorized P L d authority.address rest.head?)
      (admitted : d.body.admits nm = .ok ())
      (record : kb.didAccount = did.address ∧ kb.authority = authority.address ∧
        kb.method = nm ∧ kb.received = [])
      (found : P.deriveProgramAddress
        [keyBufferSeed, did.address.val, authority.address.val] = some (target.address, kb.bump)) :
      Aims P c L payer target (keyBufferHeader + nm.keyLen) (.ok kb.encode) []

namespace Aims

variable {payer target : AccountView} {space : ℕ} {write : Except ProgramError Bytes}
  {log : List Bytes}

theorem setLamports (h : Aims P c L payer target space write log) (a : Address) (b : ℕ) :
    Aims P c (L.setLamports a b) payer target space write log := by
  cases h with
  | initializeDid ix accounts args curve roles found =>
    exact .initializeDid ix accounts args curve roles found
  | initializeOwned ix accounts args signed owned roles found =>
    exact .initializeOwned ix accounts args signed owned roles found
  | createKeyBuffer ix accounts args encodable roles isDid authorized admitted record found =>
    exact .createKeyBuffer ix accounts args encodable roles isDid.setLamports
      authorized.setLamports admitted record found

theorem pays (h : Aims P c L payer target space write log) :
    (payer.isSigner = true ∧ payer.isWritable = true) ∧ target.isWritable = true ∧
      payer ∈ c.accounts ∧
      ∃ seeds bump, P.deriveProgramAddress seeds = some (target.address, bump) := by
  cases h with
  | initializeDid ix accounts args curve roles found =>
    exact ⟨⟨roles.1, roles.2.1⟩, roles.2.2.2, by simp [accounts], _, _, found⟩
  | initializeOwned ix accounts args signed owned roles found =>
    exact ⟨⟨roles.1, roles.2.1⟩, roles.2.2.2, by simp [accounts], _, _, found⟩
  | createKeyBuffer ix accounts args encodable roles isDid authorized admitted record found =>
    exact ⟨⟨roles.1, roles.2.1⟩, roles.2.2.2.2, by simp [accounts], _, _, found⟩

theorem payer_ne (h : Aims P c L payer target space write log) (hkeyed : c.Keyed P) :
    payer.address ≠ target.address := by
  obtain ⟨⟨hsigner, -⟩, -, hpayer, seeds, bump, hfound⟩ := h.pays
  intro hsame
  rw [← hsame] at hfound
  exact hkeyed payer hpayer hsigner seeds bump hfound

theorem invoke_ok (hP : P.Lawful) (h : Aims P c L payer target space write log)
    (hvacant : L.Vacant target.address) {need : ℕ} {bytes : Bytes} {L₁ : Ledger}
    (hneed : rentMinimumBalance P c.sysvars space = .ok need) (hwrite : write = .ok bytes)
    (hfunds : Funds L payer target need L₁) :
    invoke P c L = .ok (L₁.create target.address bytes, log) := by
  apply invoke_ok_iff.mpr
  cases h with
  | initializeDid ix accounts args curve roles found =>
    obtain ⟨now, hclock, rfl⟩ := exists_of_map_ok hwrite
    exact ⟨_, ix, (initialize_ok_iff hP).mpr ⟨_, _, _, _, _, accounts, args, curve, roles, _, need,
      now, L₁, found, hvacant.1, hvacant.2, hneed, hfunds, hclock, rfl⟩⟩
  | initializeOwned ix accounts args signed owned roles found =>
    obtain ⟨now, hclock, rfl⟩ := exists_of_map_ok hwrite
    exact ⟨_, ix, (initializeOwned_ok_iff hP).mpr ⟨_, _, _, _, _, _, _, _, accounts, args, signed,
      owned, roles, _, need, now, L₁, found, hvacant.1, hvacant.2, hneed, hfunds, hclock, rfl⟩⟩
  | createKeyBuffer ix accounts args encodable roles isDid authorized admitted record found =>
    cases hwrite
    refine ⟨_, ix, ?_⟩
    change CreateKeyBuffer.process P c.sysvars c.accounts c.args ⟨L, []⟩ = _
    rw [accounts]
    exact (createKeyBuffer_ok_iff hP).mpr ⟨roles, _, _, _, args, encodable,
      ⟨isDid, authorized, admitted, record, found, hvacant, need, L₁, hneed, hfunds, rfl⟩, rfl⟩

/-- At an address that is not vacant the creation stops before it writes. -/
theorem occupied (h : Aims P c L payer target space write log)
    (hoccupied : ¬L.Vacant target.address) :
    processInstruction P c.sysvars programId c.accounts c.data ⟨L, []⟩ =
      .error (.program .accountAlreadyInitialized) ⟨L, []⟩ := by
  have hrefused : ensure ((L target.address).owner == systemProgram &&
      (L target.address).data.length == 0) .accountAlreadyInitialized =
      .error (.program .accountAlreadyInitialized) := by
    unfold ensure
    rw [if_neg]
    intro hvacant
    simp only [Bool.and_eq_true, beq_iff_eq] at hvacant
    exact hoccupied ⟨hvacant.1, List.length_eq_zero_iff.mp hvacant.2⟩
  rw [processInstruction_eq]
  cases h with
  | initializeDid ix accounts args curve roles found =>
    rw [ix, Option.elim_some]
    change Initialize.process P c.sysvars c.accounts c.args ⟨L, []⟩ = _
    rw [accounts]
    unfold Initialize.process
    dsimp only
    rw [lift_bind_run (subjectArg_ok_iff.mpr args),
      lift_bind_run ((ensure_eq_ok (u := ())).mpr curve)]
    exact materialize_occupied roles found hrefused
  | initializeOwned ix accounts args signed owned roles found =>
    rw [ix, Option.elim_some]
    change InitializeOwned.process P c.sysvars c.accounts c.args ⟨L, []⟩ = _
    rw [accounts]
    unfold InitializeOwned.process
    dsimp only
    rw [lift_bind_run (show checkAuthoritySigner _ = .ok () by simp [checkAuthoritySigner, signed]),
      lift_bind_run (nonceArg_ok_iff.mpr args), lift_bind_run (findPda_ok_iff.mpr owned)]
    exact materialize_occupied roles found hrefused
  | createKeyBuffer ix accounts args encodable roles isDid authorized admitted record found =>
    obtain ⟨hsigner, hwritable, hauthority, hsystem, hbuffer⟩ := roles
    obtain ⟨view, hview, hshows⟩ := isDid.exists_view
    obtain ⟨_, hcheck, -⟩ := (admitted ▸ hshows.checkNewMethod_agrees _).ok_of
    obtain ⟨-, -, -, -, hknown, -⟩ := Body.admits_ok_iff.mp admitted
    rw [ix, Option.elim_some]
    change CreateKeyBuffer.process P c.sysvars c.accounts c.args ⟨L, []⟩ = _
    rw [accounts]
    unfold CreateKeyBuffer.process
    dsimp only
    rw [Exec.ledger_bind, lift_bind_run (show checkPayer payer = .ok () by
        simp [checkPayer, hsigner, hwritable]),
      lift_bind_run
        (show checkAuthoritySigner _ = .ok () by simp [checkAuthoritySigner, hauthority]),
      lift_bind_run (show checkSystemProgram _ = .ok () by simp [checkSystemProgram, hsystem]),
      lift_bind_run (isDid.loadDidAccount rfl),
      lift_bind_run ((ensure_eq_ok (u := ())).mpr hbuffer),
      lift_bind_run (CreateKeyBuffer.parse_ok_iff.mpr ⟨args, encodable, by rw [hknown]; rfl⟩),
      lift_bind_run hview, lift_bind_run ((authorize_ok_iff hshows (u := ())).mpr authorized),
      lift_bind_run hcheck, lift_bind_run (findPda_ok_iff.mpr found),
      lift_bind_run ((ensure_eq_ok (u := ())).mpr (beq_self_eq_true _))]
    exact lift_bind_error hrefused _ _

end Aims

theorem exists_aims (hP : P.Lawful) {log : List Bytes} (hc : c.ix = some .initializeDid ∨
    c.ix = some .initializeOwned ∨ c.ix = some .createKeyBuffer)
    (hrun : invoke P c L = .ok (L', log)) :
    ∃ payer target space write, Aims P c L payer target space write log ∧
      L.Vacant target.address := by
  obtain ⟨ix, hix, hhandler⟩ := invoke_ok_iff.mp hrun
  rcases hc with hc | hc | hc
  · cases hix.symm.trans hc
    obtain ⟨payer, did, system, rest, subject, haccounts, hargs, hcurve, hroles, bump, need, now,
      L₁, hfound, howner, hdata, -, -, -, hm⟩ := (initialize_ok_iff hP).mp hhandler
    cases hm
    exact ⟨_, _, _, _, .initializeDid hix haccounts hargs hcurve hroles hfound, howner, hdata⟩
  · cases hix.symm.trans hc
    obtain ⟨payer, authority, did, system, rest, nonce, subject, bump', haccounts, hargs, hsigned,
      howned, hroles, bump, need, now, L₁, hfound, howner, hdata, -, -, -, hm⟩ :=
      (initializeOwned_ok_iff hP).mp hhandler
    cases hm
    exact ⟨_, _, _, _, .initializeOwned hix haccounts hargs hsigned howned hroles hfound, howner,
      hdata⟩
  · cases hix.symm.trans hc
    obtain ⟨payer, authority, did, buffer, system, rest, haccounts⟩ :=
      createKeyBuffer_accounts hhandler
    change CreateKeyBuffer.process P c.sysvars c.accounts c.args ⟨L, []⟩ = _ at hhandler
    rw [haccounts] at hhandler
    obtain ⟨hroles, d, nm, kb, hargs, hnm, hopens, hlog⟩ := (createKeyBuffer_ok_iff hP).mp hhandler
    obtain rfl : log = [] := hlog
    exact ⟨_, _, _, _, .createKeyBuffer hix haccounts hargs hnm hroles hopens.isDid
      hopens.authorized hopens.admitted hopens.record hopens.found, hopens.vacant⟩

/-- Whatever lamports the vacant address holds, a creation leaves the same account there, with
the rent or what it held if that is more, at the payer's expense. An address that is not
vacant makes it fail before it changes anything. -/
theorem prefunding_harmless (hP : P.Lawful) (hkeyed : c.Keyed P) :
    (∀ L' log, (c.ix = some .initializeDid ∨ c.ix = some .initializeOwned ∨
        c.ix = some .createKeyBuffer) → invoke P c L = .ok (L', log) →
      ∃ payer target space write, Aims P c L payer target space write log) ∧
    ∀ payer target space write log, Aims P c L payer target space write log →
      (L.Vacant target.address → ∀ need bytes b, rentMinimumBalance P c.sysvars space = .ok need →
        write = .ok bytes → (L payer.address).owner = systemProgram →
        (L payer.address).data = [] → need - b ≤ (L payer.address).lamports →
        b + (L payer.address).lamports < 2 ^ 64 →
        ∃ L', invoke P c (L.setLamports target.address b) = .ok (L', log) ∧
          L' target.address = ⟨max b need, bytes, programId⟩ ∧
          L' payer.address =
            { L payer.address with lamports := (L payer.address).lamports - (need - b) } ∧
          ∀ a, a ≠ target.address → a ≠ payer.address → L' a = L a) ∧
      (¬L.Vacant target.address →
        processInstruction P c.sysvars programId c.accounts c.data ⟨L, []⟩ =
          .error (.program .accountAlreadyInitialized) ⟨L, []⟩) := by
  constructor
  · intro L' log hc hrun
    obtain ⟨payer, target, space, write, haims, -⟩ := exists_aims hP hc hrun
    exact ⟨payer, target, space, write, haims⟩
  · intro payer target space write log haims
    refine ⟨?_, fun hoccupied => haims.occupied hoccupied⟩
    intro hvacant need bytes b hneed hwrite howner hdata henough hbounded
    have hne := haims.payer_ne hkeyed
    have hpayer : L.setLamports target.address b payer.address = L payer.address :=
      Ledger.setLamports_of_ne _ _ hne
    have hbalance : (L.setLamports target.address b target.address).lamports = b :=
      Ledger.setLamports_self ..
    obtain ⟨L₁, hfunds⟩ : ∃ L₁, Funds (L.setLamports target.address b) payer target need L₁ := by
      apply exists_funds haims.pays.1 haims.pays.2.1 _ _ hne
      · rw [hpayer, hbalance]
        exact henough
      · rw [hpayer, hbalance]
        exact hbounded
      · rw [hpayer, howner]
      · rw [hpayer, hdata]
    have hvacant' : (L.setLamports target.address b).Vacant target.address := by
      unfold Ledger.Vacant
      rw [Ledger.setLamports_owner, Ledger.setLamports_data]
      exact hvacant
    obtain ⟨hheld, hpaid⟩ := hfunds.balance hne
    rw [hbalance] at hheld hpaid
    rw [hpayer] at hpaid
    refine ⟨_, (haims.setLamports _ b).invoke_ok hP hvacant' hneed hwrite hfunds, ?_, ?_, ?_⟩
    · apply Account.ext
      · rw [Ledger.create_lamports, hheld, Nat.max_comm]
      · exact Ledger.create_data ..
      · exact Ledger.create_owner ..
    · rw [Ledger.create_of_ne _ _ hne]
      apply Account.ext
      · change (L₁ payer.address).lamports = (L payer.address).lamports - (need - b)
        omega
      · rw [hfunds.data, hpayer]
      · rw [hfunds.owner, hpayer]
    · intro a ha ha'
      rw [Ledger.create_of_ne _ _ ha, hfunds.of_ne ha' ha, Ledger.setLamports_of_ne _ _ ha]

/-- Creation at an address with one lamport, and at one with more than the rent. -/
theorem prefunding_harmless_sample :
    (∃ (L' : Ledger) (log : List Bytes),
      invoke Sample.platform Sample.creation (Sample.ledger.setLamports Sample.did 1) =
        .ok (L', log) ∧
      L' Sample.did = ⟨1753920, Sample.document.encode, programId⟩) ∧
    ∃ (L' : Ledger) (log : List Bytes),
      invoke Sample.platform Sample.creation (Sample.ledger.setLamports Sample.did (10 ^ 8)) =
        .ok (L', log) ∧
      L' Sample.did = ⟨10 ^ 8, Sample.document.encode, programId⟩ := by
  have hkeyed : Sample.creation.Keyed Sample.platform := Sample.keyed (by decide +kernel)
  have haims : Aims Sample.platform Sample.creation Sample.ledger (.writable Sample.payer true)
      (.writable Sample.did false) initialSpace
      (Sample.creation.sysvars.clock.map fun now =>
        (Document.initial 255 Sample.subject Sample.subject now).encode)
      [eventBytes didInitialized Sample.did Sample.subject 1] := by
    have haccounts : Sample.creation.accounts = [.writable Sample.payer true,
        .writable Sample.did false, .readonly systemProgram false] := by decide +kernel
    exact .initializeDid (by decide +kernel) haccounts (by decide +kernel) (by decide +kernel)
      ⟨rfl, rfl, rfl, rfl⟩ (by decide +kernel)
  have hneed : rentMinimumBalance Sample.platform Sample.creation.sysvars initialSpace =
      .ok 1753920 := by decide +kernel
  have hcreated (b : ℕ) (hb : b + (Sample.ledger Sample.payer).lamports < 2 ^ 64) :
      ∃ (L' : Ledger) (log : List Bytes),
        invoke Sample.platform Sample.creation (Sample.ledger.setLamports Sample.did b) =
          .ok (L', log) ∧
        L' Sample.did = ⟨max b 1753920, Sample.document.encode, programId⟩ := by
    obtain ⟨L', hrun, hafter, -⟩ := ((prefunding_harmless Sample.platform_lawful hkeyed).2 _ _ _ _
      _ haims).1 ⟨by decide +kernel, by decide +kernel⟩ _ _ b hneed rfl (by decide +kernel)
      (by decide +kernel) (le_trans (Nat.sub_le _ _) (by decide +kernel)) hb
    exact ⟨L', _, hrun, hafter⟩
  exact ⟨hcreated 1 (by decide +kernel), hcreated (10 ^ 8) (by decide +kernel)⟩

end BioDidRegistry
