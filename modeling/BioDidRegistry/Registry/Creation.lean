import BioDidRegistry.Program.Creation
import BioDidRegistry.Registry.Updates

/-!
# Creating accounts

An account of the program is created at a derived address that the system program
still owns and that holds no data. Both ways of creating it, at an empty address
and at one that already holds lamports, come to the same: `Funds` pays the rent
in, and `Ledger.create` gives the address to the program with its data.
-/

namespace BioDidRegistry

open BinaryFormat

/-- The system program still holds the address, without data. -/
def Ledger.Vacant (L : Ledger) (a : Address) : Prop :=
  (L a).owner = systemProgram ∧ (L a).data = []

instance (L : Ledger) (a : Address) : Decidable (L.Vacant a) :=
  inferInstanceAs (Decidable (_ ∧ _))

theorem Ledger.Vacant.of_eq {L M : Ledger} {a : Address} (h : L.Vacant a) (hsame : M a = L a) :
    M.Vacant a := by
  unfold Ledger.Vacant
  rw [hsame]
  exact h

/-- The account at `a` given to the program with `data`. -/
def Ledger.create (L : Ledger) (a : Address) (data : Bytes) : Ledger :=
  (L.store a data).setOwner a programId

namespace Ledger

variable (L : Ledger) (a b : Address) (data : Bytes)

@[simp] theorem create_data : (L.create a data a).data = data := by simp [create]

@[simp] theorem create_owner : (L.create a data a).owner = programId := by simp [create]

@[simp] theorem create_lamports : (L.create a data b).lamports = (L b).lamports := by
  simp [create]

theorem create_of_ne {a b : Address} (h : b ≠ a) : L.create a data b = L b := by
  simp [create, setOwner_of_ne _ _ h, store_of_ne _ _ h]

theorem create_store (data' : Bytes) : (L.create a data).store a data' = L.create a data' := by
  calc ((L.store a data).setOwner a programId).store a data'
      = ((L.store a data).store a data').setOwner a programId :=
        modify_comm _ _ _ fun _ => rfl
    _ = (L.store a data').setOwner a programId := by rw [store_store]

end Ledger

variable {P : Platform} {sv : Sysvars} {L L' L₁ : Ledger} {payer account : AccountView}

/-- The rent `need` of a new account paid in by `payer`, less what the address holds. -/
def Funds (L : Ledger) (payer account : AccountView) (need : ℕ) (L₁ : Ledger) : Prop :=
  ((L account.address).lamports = 0 ∧ CanPay L payer account need ∧
      payer.address ≠ account.address ∧ L₁ = L.pay payer.address account.address need) ∨
    (0 < (L account.address).lamports ∧ account.isWritable = true ∧
      ((need ≤ (L account.address).lamports ∧ L₁ = L) ∨
        (∃ deficit, need = (L account.address).lamports + deficit ∧ 0 < deficit ∧
          CanPay L payer account deficit ∧
          (L.pay payer.address account.address deficit account.address).lamports < 2 ^ 64 ∧
          L₁ = L.pay payer.address account.address deficit)))

namespace Funds

variable {need : ℕ} (h : Funds L payer account need L₁)

include h

theorem data (a : Address) : (L₁ a).data = (L a).data := by
  rcases h with ⟨-, -, -, rfl⟩ | ⟨-, -, ⟨-, rfl⟩ | ⟨deficit, -, -, -, -, rfl⟩⟩
  · exact Ledger.pay_data ..
  · rfl
  · exact Ledger.pay_data ..

theorem owner (a : Address) : (L₁ a).owner = (L a).owner := by
  rcases h with ⟨-, -, -, rfl⟩ | ⟨-, -, ⟨-, rfl⟩ | ⟨deficit, -, -, -, -, rfl⟩⟩
  · exact Ledger.pay_owner ..
  · rfl
  · exact Ledger.pay_owner ..

theorem of_ne {a : Address} (hpayer : a ≠ payer.address) (haccount : a ≠ account.address) :
    L₁ a = L a := by
  rcases h with ⟨-, -, -, rfl⟩ | ⟨-, -, ⟨-, rfl⟩ | ⟨deficit, -, -, -, -, rfl⟩⟩
  · exact Ledger.pay_of_ne _ _ hpayer haccount
  · rfl
  · exact Ledger.pay_of_ne _ _ hpayer haccount

/-- The account ends with its rent at least, and the payer made up what was missing. -/
theorem balance (hne : payer.address ≠ account.address) :
    (L₁ account.address).lamports = max need (L account.address).lamports ∧
      (L₁ payer.address).lamports + (need - (L account.address).lamports) =
        (L payer.address).lamports := by
  rcases h with ⟨hzero, hcan, -, rfl⟩ | ⟨-, -, ⟨hle, rfl⟩ | ⟨deficit, hneed, -, hcan, -, rfl⟩⟩
  · have henough := hcan.enough
    rw [Ledger.pay_to_lamports L hne.symm, Ledger.pay_from_lamports L hne]
    omega
  · omega
  · have henough := hcan.enough
    rw [Ledger.pay_to_lamports L hne.symm, Ledger.pay_from_lamports L hne]
    omega

end Funds

/-- A system account with enough lamports can pay for a new account. -/
theorem exists_funds {need : ℕ} (hpayer : payer.isSigner = true ∧ payer.isWritable = true)
    (haccount : account.isWritable = true) (howner : (L payer.address).owner = systemProgram)
    (hdata : (L payer.address).data = []) (hne : payer.address ≠ account.address)
    (henough : need - (L account.address).lamports ≤ (L payer.address).lamports)
    (hbounded : (L account.address).lamports + (L payer.address).lamports < 2 ^ 64) :
    ∃ L₁, Funds L payer account need L₁ := by
  have hcan {n : ℕ} (hn : n ≤ (L payer.address).lamports) : CanPay L payer account n :=
    ⟨hpayer.1, hpayer.2, haccount, hdata, Or.inr howner, hn⟩
  by_cases hzero : (L account.address).lamports = 0
  · exact ⟨_, Or.inl ⟨hzero, hcan (by omega), hne, rfl⟩⟩
  · have hpos : 0 < (L account.address).lamports := Nat.pos_of_ne_zero hzero
    by_cases hle : need ≤ (L account.address).lamports
    · exact ⟨L, Or.inr ⟨hpos, haccount, Or.inl ⟨hle, rfl⟩⟩⟩
    · refine ⟨_, Or.inr ⟨hpos, haccount, Or.inr ⟨need - (L account.address).lamports, by omega,
        by omega, hcan henough, ?_, rfl⟩⟩⟩
      rw [Ledger.pay_to_lamports L hne.symm]
      omega

/-- Allocating and assigning, after the address was topped up. -/
theorem allocate_assign_ok_iff (hP : P.Lawful) {space : ℕ} {seeds : List Bytes} {bump : UInt8}
    {log : List Bytes} {m' : Machine} {u : Unit}
    (hfind : P.deriveProgramAddress seeds = some (account.address, bump))
    (hdata : (L₁ account.address).data = []) (howner : (L₁ account.address).owner = systemProgram)
    (hspace : space ≤ maxPermittedDataIncrease) :
    (Exec.call (P.allocate account space seeds bump) >>= fun _ =>
        Exec.call (P.assign account programId seeds bump)) ⟨L₁, log⟩ = .ok u m' ↔
      account.isWritable = true ∧
        m' = ⟨L₁.create account.address (List.replicate space 0), log⟩ := by
  rw [bind_ok_iff]
  simp only [Exec.call_ok_iff, hP.allocate_ok_iff hfind]
  constructor
  · rintro ⟨-, _, ⟨_, ⟨⟨hw, -⟩, rfl⟩, rfl⟩, L₂, hrun, rfl⟩
    obtain ⟨-, rfl⟩ := (hP.assign_ok_iff hfind (by simpa using howner) (by simp)).mp hrun
    exact ⟨hw, rfl⟩
  · rintro ⟨hw, rfl⟩
    refine ⟨(), _, ⟨_, ⟨⟨hw, hspace, hdata, howner⟩, rfl⟩, rfl⟩, _, ?_, rfl⟩
    exact (hP.assign_ok_iff hfind (by simpa using howner) (by simp)).mpr ⟨hw, rfl⟩

theorem createProgramAccount_ok_iff (hP : P.Lawful) {need space : ℕ} {seeds : List Bytes}
    {bump : UInt8} {m m' : Machine} {u : Unit}
    (hfind : P.deriveProgramAddress seeds = some (account.address, bump))
    (howner : (m.ledger account.address).owner = systemProgram)
    (hdata : (m.ledger account.address).data = []) (hspace : space ≤ maxPermittedDataIncrease) :
    createProgramAccount P payer account need space seeds bump m = .ok u m' ↔
      ∃ L₁, Funds m.ledger payer account need L₁ ∧
        m' = ⟨L₁.create account.address (List.replicate space 0), m.log⟩ := by
  unfold createProgramAccount
  rw [Exec.lamports_bind]
  have hassign (L₁ : Ledger) (hdata₁ : (L₁ account.address).data = [])
      (howner₁ : (L₁ account.address).owner = systemProgram) :
      (Exec.call (P.allocate account space seeds bump) >>= fun _ =>
        Exec.call (P.assign account programId seeds bump)) ⟨L₁, m.log⟩ = .ok u m' ↔
      account.isWritable = true ∧
        m' = ⟨L₁.create account.address (List.replicate space 0), m.log⟩ :=
    allocate_assign_ok_iff hP hfind hdata₁ howner₁ hspace
  by_cases hzero : (m.ledger account.address).lamports = 0
  · rw [if_pos hzero, Exec.call_ok_iff]
    simp only [hP.createAccount_ok_iff hfind]
    have hempty : m.ledger account.address = ⟨0, [], systemProgram⟩ := by
      rw [← hzero, ← hdata, ← howner]
    constructor
    · rintro ⟨L', ⟨⟨hcan, hne, -, -⟩, rfl⟩, rfl⟩
      exact ⟨_, Or.inl ⟨hzero, hcan, hne, rfl⟩, rfl⟩
    · rintro ⟨L₁, ⟨-, hcan, hne, rfl⟩ | ⟨hpos, -⟩, rfl⟩
      · exact ⟨_, ⟨⟨hcan, hne, hspace, hempty⟩, rfl⟩, rfl⟩
      · omega
  · rw [if_neg hzero]
    have hpos : 0 < (m.ledger account.address).lamports := Nat.pos_of_ne_zero hzero
    by_cases hdeficit : 0 < need - (m.ledger account.address).lamports
    · simp only [if_pos hdeficit]
      rw [bind_ok_iff]
      simp only [Exec.call_ok_iff, hP.transfer_ok_iff]
      constructor
      · rintro ⟨-, _, ⟨_, ⟨hcan, hlt, rfl⟩, rfl⟩, hrun⟩
        obtain ⟨hw, rfl⟩ := (hassign _ (by simpa using hdata) (by simpa using howner)).mp hrun
        exact ⟨_, Or.inr ⟨hpos, hw, Or.inr ⟨_, by omega, hdeficit, hcan, hlt, rfl⟩⟩, rfl⟩
      · rintro ⟨L₁, ⟨hz, -⟩ | ⟨-, hw, ⟨hle, -⟩ | ⟨deficit, hneed, -, hcan, hlt, rfl⟩⟩, rfl⟩
        · omega
        · omega
        · have hsub : need - (m.ledger account.address).lamports = deficit := by omega
          rw [hsub]
          refine ⟨(), _, ⟨_, ⟨hcan, hlt, rfl⟩, rfl⟩, ?_⟩
          exact (hassign _ (by simpa using hdata) (by simpa using howner)).mpr ⟨hw, rfl⟩
    · simp only [if_neg hdeficit]
      refine (hassign m.ledger hdata howner).trans ?_
      constructor
      · rintro ⟨hw, rfl⟩
        exact ⟨_, Or.inr ⟨hpos, hw, Or.inl ⟨by omega, rfl⟩⟩, rfl⟩
      · rintro ⟨L₁, ⟨hz, -⟩ | ⟨-, hw, ⟨-, rfl⟩ | ⟨deficit, hneed, hd, -⟩⟩, rfl⟩
        · omega
        · exact ⟨hw, rfl⟩
        · omega

/-! ### The initial document -/

theorem writeAt_whole {data xs : Bytes} (h : xs.length = data.length) :
    writeAt data 0 xs = .ok xs := by
  simpa using writeAt_append (a := []) (c := []) rfl h

/-- The writes run through the whole account in order. -/
theorem writeInitial_eq {data : Bytes} (hlen : data.length = initialSpace) (bump : UInt8)
    (subject key : Address) (now : Int64) :
    Initialize.writeInitial data bump subject key now =
      .ok (Document.initial bump subject key now).encode := by
  have hsubject := subject.length_eq
  have hkey := key.length_eq
  rw [initialSpace] at hlen
  unfold Initialize.writeInitial
  dsimp only
  simp only [offVersion, offBump, offSubject, offDeactivated, offUpdatedAt, offSections]
  have hdisc : accountDiscriminator.length = 8 := rfl
  have hname : defaultFragment.length = 7 := rfl
  -- Each write begins where the one before it ended.
  iterate 14
    rw [writeAt_bind_writeAt (by simp [hdisc, hname, hsubject])
      (by simp [hdisc, hname, hsubject, hkey, hlen])]
  rw [writeAt_writeAt (by simp [hdisc, hname, hsubject, hkey])
    (by simp [hdisc, hname, hsubject, hkey, hlen]), writeAt_whole
    (by simp [hdisc, hname, hsubject, hkey, hlen])]
  simp [Document.encode, Document.head, Document.initial, Body.encode, Body.nativesBytes,
    Body.othersBytes, Body.methodsBytes, Body.servicesBytes, vec, Method.encode,
    Reader.lenPrefix, hkey, u32Bytes]

theorem Document.length_initial (bump : UInt8) (subject key : Address) (now : Int64) :
    (Document.initial bump subject key now).encode.length = initialSpace := by
  simp [Document.length_encode, Document.initial, Body.length_encode, Body.nativesBytes,
    Body.othersBytes, Body.methodsBytes, Body.servicesBytes, vec, key.length_eq, defaultFragment,
    offSections, initialSpace]

/-- The account of `subject` created at `did` with the founding `key`. -/
def Materializes (P : Platform) (sv : Sysvars) (payer did : AccountView) (subject key : Address)
    (m m' : Machine) : Prop :=
  ∃ bump need now L₁, P.deriveProgramAddress [didSeed, subject.val] = some (did.address, bump) ∧
    (m.ledger did.address).owner = systemProgram ∧ (m.ledger did.address).data = [] ∧
    rentMinimumBalance P sv initialSpace = .ok need ∧ Funds m.ledger payer did need L₁ ∧
    sv.clock = .ok now ∧
    m' = ⟨L₁.create did.address (Document.initial bump subject key now).encode,
      m.log ++ [eventBytes didInitialized did.address subject 1]⟩

theorem findPda_ok_iff {seeds : List Bytes} {found : Address × UInt8} :
    findPda P seeds = .ok found ↔ P.deriveProgramAddress seeds = some found := by
  unfold findPda
  cases P.deriveProgramAddress seeds <;> simp

theorem materialize_ok_iff (hP : P.Lawful) {did system : AccountView} {subject key : Address}
    {m m' : Machine} {u : Unit} :
    Initialize.materialize P sv payer did system subject key m = .ok u m' ↔
      (payer.isSigner = true ∧ payer.isWritable = true ∧ system.address = systemProgram ∧
        did.isWritable = true) ∧ Materializes P sv payer did subject key m m' := by
  unfold Initialize.materialize Materializes
  simp only [Exec.ledger_bind, lift_bind_ok_iff, checkPayer, checkSystemProgram,
    except_bind_ok_iff, ensure_eq_ok, beq_iff_eq, Bool.and_eq_true, findPda_ok_iff]
  -- The document is written once the account is there.
  have hwrite (bump : UInt8) (L₁ : Ledger) : (do
        let now ← (liftM (orFault sv.clock) : Exec Int64)
        let data ← Exec.borrow did
        (liftM (ensure (data.length == initialSpace) .accountDataTooSmall) : Exec Unit)
        let data ← (liftM (Initialize.writeInitial data bump subject key now) : Exec Bytes)
        Exec.store did data
        emit didInitialized did.address subject 1)
      ⟨L₁.create did.address (List.replicate initialSpace 0), m.log⟩ = .ok u m' ↔
      ∃ now, sv.clock = .ok now ∧
        m' = ⟨L₁.create did.address (Document.initial bump subject key now).encode,
          m.log ++ [eventBytes didInitialized did.address subject 1]⟩ := by
    simp only [lift_bind_ok_iff, orFault_eq_ok, Exec.borrow_bind, Ledger.create_data,
      ensure_eq_ok, List.length_replicate, beq_self_eq_true, exists_const, true_and,
      writeInitial_eq (List.length_replicate), Except.ok.injEq, exists_eq_left',
      Exec.store_bind, Ledger.create_store]
    refine exists_congr fun now => and_congr_right fun _ => ?_
    exact ⟨fun h => (EStateM.Result.ok.inj h).2.symm, fun h => h ▸ rfl⟩
  constructor
  · rintro ⟨_, ⟨_, hsigner, hwritable⟩, _, hsystem, _, hdid, ⟨pda, bump⟩, hfind, _, haddress, _,
      ⟨howner, hempty⟩, need, hneed, hrun⟩
    dsimp only at haddress hrun
    subst haddress
    have hdata := List.length_eq_zero_iff.mp hempty
    obtain ⟨_, _, hcreate, hrest⟩ := bind_ok_iff.mp hrun
    obtain ⟨L₁, hfunds, rfl⟩ :=
      (createProgramAccount_ok_iff hP hfind howner hdata (by decide)).mp hcreate
    obtain ⟨now, hnow, rfl⟩ := (hwrite bump L₁).mp hrest
    exact ⟨⟨hsigner, hwritable, hsystem, hdid⟩, bump, need, now, L₁, hfind, howner, hdata, hneed,
      hfunds, hnow, rfl⟩
  · rintro ⟨⟨hsigner, hwritable, hsystem, hdid⟩, bump, need, now, L₁, hfind, howner, hdata, hneed,
      hfunds, hnow, rfl⟩
    refine ⟨(), ⟨(), hsigner, hwritable⟩, (), hsystem, (), hdid, (did.address, bump), hfind, (),
      rfl, (), ⟨howner, by rw [hdata]; rfl⟩, need, hneed, ?_⟩
    rw [bind_of_ok ((createProgramAccount_ok_iff hP (u := ()) hfind howner hdata
      (by decide)).mpr ⟨L₁, hfunds, rfl⟩)]
    exact (hwrite bump L₁).mpr ⟨now, hnow, rfl⟩

/-! ### The two instructions -/

theorem subjectArg_ok_iff {args : Bytes} {subject : Address} :
    Initialize.subjectArg args = .ok subject ↔ args = subject.val := by
  unfold Initialize.subjectArg
  constructor
  · intro h
    split_ifs at h
    cases h
    rfl
  · rintro rfl
    exact dif_pos subject.length_eq

theorem nonceArg_ok_iff {args : Bytes} {nonce : Block 8} :
    InitializeOwned.nonceArg args = .ok nonce ↔ args = nonce.val := by
  unfold InitializeOwned.nonceArg
  constructor
  · intro h
    split_ifs at h
    cases h
    rfl
  · rintro rfl
    exact dif_pos nonce.length_eq

theorem throw_ne_ok {e : Fault} {m m' : Machine} {u : Unit} :
    (throw e : Exec Unit) m ≠ .ok u m' := by
  intro h
  cases h

theorem initialize_ok_iff (hP : P.Lawful) {accounts : List AccountView} {args : Bytes}
    {m m' : Machine} {u : Unit} : Initialize.process P sv accounts args m = .ok u m' ↔
      ∃ payer did system rest subject, accounts = payer :: did :: system :: rest ∧
        args = subject.val ∧ P.isCurvePoint subject.val = true ∧
        (payer.isSigner = true ∧ payer.isWritable = true ∧ system.address = systemProgram ∧
          did.isWritable = true) ∧ Materializes P sv payer did subject subject m m' := by
  unfold Initialize.process
  match accounts with
  | [] => simp [throw_ne_ok]
  | [_] => simp [throw_ne_ok]
  | [_, _] => simp [throw_ne_ok]
  | payer :: did :: system :: rest =>
    simp only [lift_bind_ok_iff, subjectArg_ok_iff, ensure_eq_ok, materialize_ok_iff hP,
      List.cons.injEq]
    constructor
    · rintro ⟨subject, hargs, _, hcurve, hroles, hmade⟩
      exact ⟨payer, did, system, rest, subject, ⟨rfl, rfl, rfl, rfl⟩, hargs, hcurve, hroles, hmade⟩
    · rintro ⟨payer, did, system, rest, subject, ⟨rfl, rfl, rfl, rfl⟩, hargs, hcurve, hroles, hmade⟩
      exact ⟨subject, hargs, (), hcurve, hroles, hmade⟩

theorem initializeOwned_ok_iff (hP : P.Lawful) {accounts : List AccountView} {args : Bytes}
    {m m' : Machine} {u : Unit} : InitializeOwned.process P sv accounts args m = .ok u m' ↔
      ∃ payer authority did system rest nonce subject bump,
        accounts = payer :: authority :: did :: system :: rest ∧ args = Subtype.val nonce ∧
        authority.isSigner = true ∧
        P.deriveProgramAddress (ownedSubjectSeeds authority.address nonce) =
          some (subject, bump) ∧
        (payer.isSigner = true ∧ payer.isWritable = true ∧ system.address = systemProgram ∧
          did.isWritable = true) ∧
        Materializes P sv payer did subject authority.address m m' := by
  unfold InitializeOwned.process
  match accounts with
  | [] => simp [throw_ne_ok]
  | [_] => simp [throw_ne_ok]
  | [_, _] => simp [throw_ne_ok]
  | [_, _, _] => simp [throw_ne_ok]
  | payer :: authority :: did :: system :: rest =>
    simp only [lift_bind_ok_iff, checkAuthoritySigner, nonceArg_ok_iff, ensure_eq_ok,
      findPda_ok_iff, materialize_ok_iff hP, List.cons.injEq]
    constructor
    · rintro ⟨_, hsigner, nonce, hargs, ⟨subject, bump⟩, hfind, hroles, hmade⟩
      exact ⟨payer, authority, did, system, rest, nonce, subject, bump,
        ⟨rfl, rfl, rfl, rfl, rfl⟩, hargs, hsigner, hfind, hroles, hmade⟩
    · rintro ⟨payer, authority, did, system, rest, nonce, subject, bump,
        ⟨rfl, rfl, rfl, rfl, rfl⟩, hargs, hsigner, hfind, hroles, hmade⟩
      exact ⟨(), hsigner, nonce, hargs, (subject, bump), hfind, hroles, hmade⟩

end BioDidRegistry
