import BioDidRegistry.Registry.Making
import BioDidRegistry.Registry.Reference

/-!
# Documents that are reached

What the rules make of a document, calls make of its account: each update of the rules is
a call that the program accepts, as long as the clock answers and the payer can settle the
rent. So every well-formed document of a key subject is reached from a ledger without any,
if its founder keeps an authority.
-/

namespace BioDidRegistry

open BinaryFormat Transition Relation Reader Body

/-- The ledger on which `payer` has `funds` lamports and nobody else has anything. -/
def Ledger.funded (payer : Address) (funds : ℕ) : Ledger :=
  Function.update (fun _ => ⟨0, [], systemProgram⟩) payer ⟨funds, [], systemProgram⟩

theorem Ledger.funded_self (payer : Address) (funds : ℕ) :
    Ledger.funded payer funds payer = ⟨funds, [], systemProgram⟩ := Function.update_self ..

theorem Ledger.funded_of_ne {payer a : Address} (funds : ℕ) (h : a ≠ payer) :
    Ledger.funded payer funds a = ⟨0, [], systemProgram⟩ := Function.update_of_ne h ..

theorem Ledger.funded_fresh (payer : Address) (funds : ℕ) : Fresh (Ledger.funded payer funds) := by
  intro a
  have howner : (Ledger.funded payer funds a).owner = systemProgram := by
    by_cases ha : a = payer
    · rw [ha, Ledger.funded_self]
    · rw [Ledger.funded_of_ne funds ha]
  rw [howner]
  exact programId_ne_systemProgram.symm

/-- The clock answers, and `funds` lamports are the rent of any document. -/
structure Answers (P : Platform) (sv : Sysvars) (funds : ℕ) : Prop where
  clock : ∃ now, sv.clock = .ok now
  rent : ∀ n ≤ 53466, ∃ need, rentMinimumBalance P sv n = .ok need ∧ need ≤ funds
  bounded : funds < 2 ^ 64

/-- The account at `did` is that of `subject` with the lists `b`. It has `funds` lamports
together with `payer`, which is a system account. -/
structure Held (P : Platform) (subject payer did : Address) (funds : ℕ) (L : Ledger)
    (b : Body) : Prop where
  registered : ∃ d, Registered P L did d ∧ d.subject = subject ∧ d.deactivated = 0 ∧ d.body = b
  owner : (L payer).owner = systemProgram
  dataless : (L payer).data = []
  balance : (L did).lamports + (L payer).lamports = funds

namespace Held

variable {P : Platform} {sv : Sysvars} {subject payer did : Address} {funds : ℕ} {L : Ledger}
  {b b' : Body}

theorem materialized (hA : Answers P sv funds) (key : Address) {bump : UInt8} (hP : P.Lawful)
    (hfind : P.deriveProgramAddress [didSeed, subject.val] = some (did, bump))
    (hne : payer ≠ did) :
    ∃ m, Materializes P sv (.writable payer true) (.writable did false) subject key
        ⟨Ledger.funded payer funds, []⟩ m ∧
      Held P subject payer did funds m.ledger (first key) := by
  have hpayer : Ledger.funded payer funds payer = ⟨funds, [], systemProgram⟩ :=
    Ledger.funded_self ..
  have hvacant : Ledger.funded payer funds did = ⟨0, [], systemProgram⟩ :=
    Ledger.funded_of_ne funds hne.symm
  obtain ⟨now, hclock⟩ := hA.clock
  obtain ⟨need, hneed, hle⟩ := hA.rent initialSpace (by decide)
  obtain ⟨L₁, hfunds⟩ : ∃ L₁, Funds (Ledger.funded payer funds) (.writable payer true)
      (.writable did false) need L₁ := by
    refine exists_funds ⟨rfl, rfl⟩ rfl ?_ ?_ hne ?_ ?_
    · exact congrArg Account.owner hpayer
    · exact congrArg Account.data hpayer
    · change need - (Ledger.funded payer funds did).lamports ≤
        (Ledger.funded payer funds payer).lamports
      rw [hvacant, hpayer]
      exact hle
    · change (Ledger.funded payer funds did).lamports +
        (Ledger.funded payer funds payer).lamports < 2 ^ 64
      rw [hvacant, hpayer, Nat.zero_add]
      exact hA.bounded
  let d : Document := Document.initial bump subject key now
  have hd : Registered P (L₁.create did d.encode) did d :=
    ⟨⟨Ledger.create_owner .., Ledger.create_data .., (Document.initial_wellFormed ..).fits,
      hP.derive_found hfind⟩, hfind, Document.initial_wellFormed ..⟩
  have hsame : L₁.create did d.encode payer = L₁ payer := Ledger.create_of_ne _ _ hne
  have hsum := (hfunds.trades hne).sum
  change (L₁ did).lamports + (L₁ payer).lamports =
    (Ledger.funded payer funds did).lamports + (Ledger.funded payer funds payer).lamports at hsum
  refine ⟨⟨L₁.create did d.encode, [eventBytes didInitialized did subject 1]⟩,
    ⟨bump, need, now, L₁, hfind, congrArg Account.owner hvacant, congrArg Account.data hvacant,
      hneed, hfunds, hclock, rfl⟩, ⟨d, hd, rfl, rfl, rfl⟩, ?_, ?_, ?_⟩
  · change (L₁.create did d.encode payer).owner = systemProgram
    rw [hsame, hfunds.owner, hpayer]
  · change (L₁.create did d.encode payer).data = []
    rw [hsame, hfunds.data, hpayer]
  · change (L₁.create did d.encode did).lamports + (L₁.create did d.encode payer).lamports = funds
    rw [Ledger.create_lamports, Ledger.create_lamports, hsum, hvacant, hpayer, Nat.zero_add]

theorem created (hP : P.Lawful) (hA : Answers P sv funds)
    (hcurve : P.isCurvePoint subject.val = true) {bump : UInt8}
    (hfind : P.deriveProgramAddress [didSeed, subject.val] = some (did, bump))
    (hne : payer ≠ did) :
    ∃ c L, Step P (Ledger.funded payer funds) (.accepted c) L ∧
      Held P subject payer did funds L (first subject) := by
  obtain ⟨m, hmade, hheld⟩ := materialized hA subject hP hfind hne
  let i : Instruction := ⟨programId, [.writable payer true, .writable did false,
    .readonly systemProgram false], Ix.initializeDid.discriminator ++ subject.val⟩
  have hhandler : handler P sv .initializeDid i.accounts subject.val
      ⟨Ledger.funded payer funds, []⟩ = .ok () m :=
    (initialize_ok_iff hP).mpr ⟨_, _, _, [], subject, rfl, rfl, hcurve, ⟨rfl, rfl, rfl, rfl⟩, hmade⟩
  have hrun : invoke P (i.call sv) (Ledger.funded payer funds) = .ok (m.ledger, m.log) :=
    Instruction.invoke_ok rfl hhandler
  exact ⟨_, _, .accepted hrun, hheld⟩

theorem created_owned (hP : P.Lawful) (hA : Answers P sv funds) {authority : Address}
    {nonce : Block 8} {ownedBump bump : UInt8}
    (howned : P.deriveProgramAddress (ownedSubjectSeeds authority nonce) =
      some (subject, ownedBump))
    (hfind : P.deriveProgramAddress [didSeed, subject.val] = some (did, bump))
    (hne : payer ≠ did) :
    ∃ c L, Step P (Ledger.funded payer funds) (.accepted c) L ∧
      Held P subject payer did funds L (first authority) := by
  obtain ⟨m, hmade, hheld⟩ := materialized hA authority hP hfind hne
  let i : Instruction := ⟨programId, [.writable payer true, .readonly authority true,
    .writable did false, .readonly systemProgram false],
    Ix.initializeOwned.discriminator ++ nonce.val⟩
  have hhandler : handler P sv .initializeOwned i.accounts nonce.val
      ⟨Ledger.funded payer funds, []⟩ = .ok () m :=
    (initializeOwned_ok_iff hP).mpr ⟨.writable payer true, .readonly authority true,
      .writable did false, .readonly systemProgram false, [], nonce, subject, ownedBump, rfl, rfl,
      rfl, howned, ⟨rfl, rfl, rfl, rfl⟩, hmade⟩
  have hrun : invoke P (i.call sv) (Ledger.funded payer funds) = .ok (m.ledger, m.log) :=
    Instruction.invoke_ok rfl hhandler
  exact ⟨_, _, .accepted hrun, hheld⟩

theorem step (hP : P.Lawful) (hA : Answers P sv funds) (h : Held P subject payer did funds L b)
    {signer : Address} (hmakes : Makes P.isCurvePoint signer subject b b') :
    ∃ c L', Step P L (.accepted c) L' ∧ Held P subject payer did funds L' b' := by
  obtain ⟨op, hop⟩ := hmakes
  obtain ⟨d, hd, rfl, hlive, rfl⟩ := h.registered
  obtain ⟨now, hclock⟩ := hA.clock
  have hne : did ≠ payer := hd.toIsDid.owner_ne h.owner
  have hauth : Authorized P L d signer none := ⟨hlive, Or.inl hop.authority⟩
  have happly := hop.applied
  obtain ⟨hencodable, hknown⟩ := hd.wellFormed.body.encodable_of_apply happly
  let r : Request := ⟨payer, signer, d.subject, none, op⟩
  have hasks : r.Asks P L ⟨programId, r.accounts did ++ [], op.ix.discriminator ++ op.args⟩ did d
      none := ⟨rfl, hencodable, hd.toIsDid, rfl, hd.wellFormed⟩
  have hafter : (d.updated op b' now).WellFormed := hd.wellFormed.updated hlive happly now
  obtain ⟨need, hneed, hle⟩ := hA.rent (offSections + b'.encode.length) (by
    have hlen := hafter.body.length_encode_le
    change b'.encode.length ≤ _ at hlen
    simp only [offSections]
    omega)
  have haffords : Affords P sv L payer did (offSections + b'.encode.length) :=
    ⟨⟨need, hneed, by rw [h.balance]; exact hle⟩, h.owner, h.dataless, by
      rw [h.balance]; exact hA.bounded⟩
  obtain ⟨L₁, hsettled⟩ := hasks.exists_resettles happly (fun _ => haffords) now
  have hrun := hasks.accepted hP hknown hauth happly hclock hsettled
  have htrades : Trades L L₁ did payer := by
    by_cases hflags : op.ix = .setVerificationMethodFlags
    · rw [hsettled.eq_of_flags hflags happly]
      exact Trades.refl ..
    · have hpayer : (r.update did none).payer = .writable payer true := by
        cases op <;> first | rfl | exact absurd rfl hflags
      rw [hpayer] at hsettled
      exact hsettled.trades hne
  have hnew : Registered P (L₁.store did (d.updated op b' now).encode) did
      (d.updated op b' now) := by
    apply hd.of_updated hauth happly _ (Ledger.store_data ..)
    rw [Ledger.store_owner, hsettled.owner, hd.owner]
  have hpayer : (L₁.store did (d.updated op b' now).encode) payer = L₁ payer :=
    Ledger.store_of_ne _ _ hne.symm
  have hlive' : (d.updated op b' now).deactivated = 0 := by
    rw [Document.updated, if_neg hop.keeps, hlive]
  refine ⟨_, _, .accepted hrun, ⟨_, hnew, rfl, hlive', rfl⟩, ?_, ?_, ?_⟩
  · rw [hpayer, hsettled.owner, h.owner]
  · rw [hpayer, hsettled.data, h.dataless]
  · rw [Ledger.store_lamports, Ledger.store_lamports, htrades.sum, h.balance]

/-- What the rules make of the lists, calls make of the account. -/
theorem run (hP : P.Lawful) (hA : Answers P sv funds) (h : Held P subject payer did funds L b)
    (hevolves : ReflTransGen (Evolves P.isCurvePoint subject) b b') :
    ∃ turns L', Run (Step P) L turns L' ∧ Held P subject payer did funds L' b' := by
  induction hevolves with
  | refl => exact ⟨[], L, .start, h⟩
  | tail _ hevolves ih =>
    obtain ⟨turns, L₁, hrun, hheld⟩ := ih
    obtain ⟨signer, hmakes⟩ := hevolves
    obtain ⟨c, L₂, hstep, hheld'⟩ := hheld.step hP hA hmakes
    exact ⟨_, L₂, hrun.snoc hstep, hheld'⟩

end Held

/-! ### From a fresh ledger -/

theorem Sample.rentMinimumBalance_eq (P : Platform) {n : ℕ} (h : n < 2 ^ 48) :
    rentMinimumBalance P sysvars n = .ok ((accountStorageOverhead + n) * 3480 * 2) := by
  have hbytes : checkedAdd accountStorageOverhead n = .ok (accountStorageOverhead + n) :=
    if_pos (by simp only [accountStorageOverhead]; omega)
  have hbase : checkedMul (accountStorageOverhead + n) 3480 =
      .ok ((accountStorageOverhead + n) * 3480) :=
    if_pos (by simp only [accountStorageOverhead]; omega)
  have hdouble : checkedMul ((accountStorageOverhead + n) * 3480) 2 =
      .ok ((accountStorageOverhead + n) * 3480 * 2) :=
    if_pos (by simp only [accountStorageOverhead]; omega)
  obtain ⟨classic, hclassic, hval⟩ : ∃ classic : Block 17, sysvars.rent 17 = .ok classic ∧
      classic.val = u64Bytes 3480 ++ twoF64Le ++ [50] := ⟨_, rfl, by decide⟩
  unfold rentMinimumBalance
  rw [hbytes, except_bind_ok, hclassic]
  obtain ⟨r₁, r₂, hyear, hthreshold⟩ : ∃ r₁ r₂, u64 (new .account classic.val) = .ok 3480 r₁ ∧
      array 8 r₁ = .ok ⟨twoF64Le, rfl⟩ r₂ := by
    rw [hval]
    exact ⟨_, _, rfl, rfl⟩
  refine eval_ok_iff.mpr ⟨r₂, ?_⟩
  rw [bind_of_ok hyear, bind_of_ok hthreshold, lift_bind_ok_iff]
  refine ⟨_, hbase, ?_⟩
  rw [if_neg (by decide), if_pos rfl, hdouble]
  rfl

theorem Sample.answers (P : Platform) : Answers P sysvars (10 ^ 9) where
  clock := ⟨_, rfl⟩
  rent := by
    intro n hn
    refine ⟨_, Sample.rentMinimumBalance_eq P (by omega), ?_⟩
    simp only [accountStorageOverhead]
    omega
  bounded := by decide

theorem exists_payer (did : Address) : ∃ payer : Address, payer ≠ did := by
  by_cases h : Sample.address 6 = did
  · refine ⟨Sample.address 7, ?_⟩
    rw [← h]
    decide
  · exact ⟨Sample.address 6, h⟩

/-- The program reaches every document that the rules can make of a founder's first. -/
theorem Body.reached {P : Platform} (hP : P.Lawful) {subject did : Address} {bump : UInt8}
    {b : Body} (hcurve : P.isCurvePoint subject.val = true)
    (hfind : P.deriveProgramAddress [didSeed, subject.val] = some (did, bump))
    (hmakes : ReflTransGen (Makes P.isCurvePoint subject subject) (first subject) b) :
    ∃ L₀ turns L d, Fresh L₀ ∧ Run (Step P) L₀ turns L ∧ Registered P L did d ∧ d.body = b := by
  obtain ⟨payer, hne⟩ := exists_payer did
  have hA : Answers P Sample.sysvars (10 ^ 9) := Sample.answers P
  obtain ⟨c, L₁, hstep, hheld⟩ := Held.created hP hA hcurve hfind hne
  obtain ⟨turns, L, hrun, hheld'⟩ := hheld.run hP hA (Evolves.of_makes hmakes)
  obtain ⟨d, hd, -, -, hbody⟩ := hheld'.registered
  have hfirst : Run (Step P) (Ledger.funded payer (10 ^ 9)) ([] ++ [.accepted c]) L₁ :=
    Run.start.snoc hstep
  exact ⟨_, _, L, d, Ledger.funded_fresh payer _, hfirst.trans hrun, hd, hbody⟩

end BioDidRegistry
