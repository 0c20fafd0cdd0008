import BioDidRegistry.Registry.Balances

/-!
# How a handler fails

No handler panics, on accounts of any content, and none fails after its first write
where the accounts it names are `Solvent`. Each handler is walked through once for both:
its checks come first and only read, and of the steps that write every one is shown to go
through after what was checked before it.
-/

namespace BioDidRegistry

open BinaryFormat Outcome Verdict Reader

variable {P : Platform} {sv : Sysvars} {L : Ledger}

/-! ### What spares a call from failing half way -/

/-- A smaller base scales to no more: the product with a fixed threshold is monotone, and
only the threshold decides whether there is one. -/
def Platform.ScalesMonotonely (P : Platform) : Prop :=
  ∀ base base' threshold rent, base' ≤ base → P.scaleRent base threshold = some rent →
    ∃ rent' ≤ rent, P.scaleRent base' threshold = some rent'

theorem checkedMul_mono {a a' b n : ℕ} (hle : a' ≤ a) (h : checkedMul a b = .ok n) :
    ∃ n' ≤ n, checkedMul a' b = .ok n' := by
  unfold checkedMul at h ⊢
  have hmul : a' * b ≤ a * b := Nat.mul_le_mul_right b hle
  split_ifs at h with hlt
  cases h
  exact ⟨a' * b, hmul, if_pos (hmul.trans_lt hlt)⟩

theorem rentMinimumBalance_mono (hscale : P.ScalesMonotonely) {n n' need : ℕ} (hle : n' ≤ n)
    (h : rentMinimumBalance P sv n = .ok need) :
    ∃ need' ≤ need, rentMinimumBalance P sv n' = .ok need' := by
  unfold rentMinimumBalance at h ⊢
  obtain ⟨bytes, hbytes, h⟩ := except_bind_ok_iff.mp h
  obtain ⟨hlt, rfl⟩ := checkedAdd_eq_ok.mp hbytes
  have hbytes' : checkedAdd accountStorageOverhead n' = .ok (accountStorageOverhead + n') :=
    if_pos (by omega)
  have hle' : accountStorageOverhead + n' ≤ accountStorageOverhead + n := by omega
  rw [hbytes', except_bind_ok]
  split at h
  · -- The classic layout: the rate, then the threshold it is scaled by.
    obtain ⟨_, hrun⟩ := eval_ok_iff.mp h
    obtain ⟨year, r₁, hyear, hrun⟩ := bind_ok_iff.mp hrun
    obtain ⟨threshold, r₂, hthreshold, hrun⟩ := bind_ok_iff.mp hrun
    obtain ⟨base, hbase, hrun⟩ := lift_bind_ok_iff.mp hrun
    obtain ⟨base', hbaseLe, hbase'⟩ := checkedMul_mono hle' hbase
    split_ifs at hrun with hone htwo
    · obtain ⟨rfl, -⟩ := pure_ok_iff.mp hrun
      refine ⟨base', hbaseLe, eval_ok_iff.mpr ⟨r₂, ?_⟩⟩
      rw [bind_of_ok hyear, bind_of_ok hthreshold, lift_bind_ok_iff]
      exact ⟨base', hbase', by rw [if_pos hone]; rfl⟩
    · obtain ⟨hdouble, -⟩ := lift_ok_iff.mp hrun
      obtain ⟨need', hneed, hdouble'⟩ := checkedMul_mono hbaseLe hdouble
      refine ⟨need', hneed, eval_ok_iff.mpr ⟨r₂, ?_⟩⟩
      rw [bind_of_ok hyear, bind_of_ok hthreshold, lift_bind_ok_iff]
      exact ⟨base', hbase', by rw [if_neg hone, if_pos htwo, hdouble']; rfl⟩
    · cases hrent : P.scaleRent base threshold with
      | none =>
        rw [hrent] at hrun
        cases hrun
      | some rent =>
        rw [hrent] at hrun
        obtain ⟨rfl, -⟩ := pure_ok_iff.mp hrun
        obtain ⟨rent', hrentLe, hrent'⟩ := hscale _ _ _ _ hbaseLe hrent
        refine ⟨rent', hrentLe, eval_ok_iff.mpr ⟨r₂, ?_⟩⟩
        rw [bind_of_ok hyear, bind_of_ok hthreshold, lift_bind_ok_iff]
        exact ⟨base', hbase', by rw [if_neg hone, if_neg htwo, hrent']; rfl⟩
  · -- The condensed layout holds the rate alone.
    obtain ⟨condensed, hcondensed, hmul⟩ := except_bind_ok_iff.mp h
    obtain ⟨need', hneed, hmul'⟩ := checkedMul_mono hle' hmul
    exact ⟨need', hneed, except_bind_ok_iff.mpr ⟨condensed, hcondensed, hmul'⟩⟩
  · cases h

/-- What the accounts of a call rely on for it to fail before its first write only: the
ledger is one the program keeps, the clock can be read, no program address signs, and every
account of the program among them holds its rent. -/
structure Solvent (P : Platform) (sv : Sysvars) (L : Ledger) (accounts : List AccountView) :
    Prop where
  sound : Sound P L
  clock : ∃ now, sv.clock = .ok now
  scales : P.ScalesMonotonely
  bounded : L.supply < 2 ^ 64
  keyed : ∀ view ∈ accounts, view.isSigner = true → ∀ seeds bump,
    P.deriveProgramAddress seeds ≠ some (view.address, bump)
  rent : ∀ view ∈ accounts, (L view.address).owner = programId → HoldsRent P sv L view.address

namespace Solvent

variable {accounts : List AccountView} (h : Solvent P sv L accounts)

include h

theorem ne_found {payer : AccountView} (hpayer : payer ∈ accounts) (hsigner : payer.isSigner = true)
    {seeds : List Bytes} {a : Address} {bump : UInt8}
    (hfind : P.deriveProgramAddress seeds = some (a, bump)) : a ≠ payer.address := by
  rintro rfl
  exact h.keyed payer hpayer hsigner seeds bump hfind

theorem held_lt {as : List Address} (hnodup : as.Nodup) : L.held as < 2 ^ 64 :=
  (L.held_le_supply hnodup).trans_lt h.bounded

theorem orderly {did payer : AccountView} {s : Address} (hdid : did ∈ accounts)
    (hpayer : payer ∈ accounts) (hsigner : payer.isSigner = true)
    (hload : loadDidAccount P L did = .ok s) : Orderly P sv L did payer := by
  obtain ⟨d, hd, -⟩ := h.sound.registered_of_load hload
  have hne : did.address ≠ payer.address := h.ne_found hpayer hsigner hd.found
  refine ⟨h.clock, hne, ?_, ?_⟩
  · have hheld := @held_lt _ _ _ _ h [did.address, payer.address] (by simp [hne])
    simpa using hheld
  · intro n hn
    obtain ⟨need, hneed, henough⟩ := h.rent did hdid hd.owner
    obtain ⟨need', hle, hneed'⟩ := rentMinimumBalance_mono h.scales hn hneed
    exact ⟨need', hneed', hle.trans henough⟩

end Solvent

/-! ### The updates -/

theorem Ix.mem_of_load {ix : Ix} {accounts : List AccountView} {u : Update}
    (h : ix.load P L accounts = .ok u) : u.payer ∈ accounts ∧ u.payer.isSigner = true ∧
      u.didAccount ∈ accounts ∧ loadDidAccount P L u.didAccount = .ok u.subject := by
  by_cases hix : ix = .setVerificationMethodFlags
  · subst hix
    obtain ⟨t, ht, hu⟩ := except_bind_ok_iff.mp h
    cases hu
    obtain ⟨rest, haccounts, hsigner, -, hload, -⟩ := SetVerificationMethodFlags.target_ok_iff.mp ht
    exact ⟨by simp [haccounts], hsigner, by simp [haccounts], hload⟩
  · have htry : Update.tryFrom P L accounts = .ok u := by
      rw [← h]
      cases ix <;> first | rfl | exact absurd rfl hix
    obtain ⟨system, rest, haccounts, hsigner, -, -, -, -, hload, -⟩ :=
      Update.tryFrom_ok_iff.mp htry
    exact ⟨by simp [haccounts], hsigner, by simp [haccounts], hload⟩

theorem Ix.load_total (ix : Ix) (accounts : List AccountView) :
    Total (ix.load P L accounts) := by
  have htarget : Total (SetVerificationMethodFlags.target P L accounts) := by
    unfold SetVerificationMethodFlags.target
    split
    · exact .bind (.ensure _ _) fun _ _ => .bind (verifyDidAccount_total P L _) (by simp)
    · exact .program _
  cases ix with
  | setVerificationMethodFlags => exact .bind htarget (by simp)
  | _ => exact Update.tryFrom_total P L accounts

/-- The data of the program's accounts are slices, none of which is as long as
`isize::MAX`. -/
def Addressable (L : Ledger) (accounts : List AccountView) : Prop :=
  ∀ view ∈ accounts, (L view.address).owner = programId → (L view.address).data.length < 2 ^ 63

/-- Accounts the program keeps are far shorter. -/
theorem Sound.addressable (hS : Sound P L) (accounts : List AccountView) :
    Addressable L accounts := by
  intro view _ howner
  rcases hS view.address howner with ⟨d, hd⟩ | ⟨kb, hkb⟩
  · rw [hd.data_eq]
    exact hd.wellFormed.length_lt
  · have hlt := kb.keyLen_lt
    rw [hkb.data_eq, kb.length_encode, keyBufferHeader]
    omega

theorem updateDocument_refuses {α β : Type} {t : Target} {args event : Bytes}
    {parse : Read .args α} {check : DidView → α → Except Fault β}
    {commit : α → β → Exec UInt64} {m : Machine} {orderly : Prop} {e : Fault} (hsafe : Safe parse)
    (hview : DidView.parse (m.ledger t.didAccount.address).data = .error e) :
    Refuses m.ledger orderly (updateDocument P t args parse check commit event m) := by
  unfold updateDocument
  refine .lift_bind (eval_total hsafe _) fun a _ => ?_
  rw [Exec.ledger_bind]
  refine .lift_bind (DidView.parse_total _) fun v hv => ?_
  rw [hview] at hv
  cases hv

/-- An update on any account that loads as a DID, whatever its sections hold. -/
theorem Op.run_refuses (hP : P.Lawful) {u : Update} {m : Machine} {ix : Ix} {args : Bytes}
    (hload : loadDidAccount P m.ledger u.didAccount = .ok u.subject)
    (hsmall : (m.ledger u.didAccount.address).data.length < 2 ^ 63) :
    Refuses m.ledger (Orderly P sv m.ledger u.didAccount u.payer) (Op.run P sv u args ix m) := by
  cases hview : DidView.parse (m.ledger u.didAccount.address).data with
  | ok v =>
    rcases Op.understood_or_refused P sv ix args with ⟨op, rfl, rfl, hop, hknown⟩ | ⟨e, he, hrun⟩
    · obtain ⟨d, hd, hsubject, -⟩ := isDid_of_load hload hview
      rw [hd.data_eq] at hsmall
      exact (Op.run_renders hP hop hknown hd hsmall hsubject).refuses
    · rw [hrun]
      exact .error ⟨he, fun _ => rfl⟩
  | error e =>
    cases ix with
    | addVerificationMethod => exact updateDocument_refuses AddVerificationMethod.parse_safe hview
    | removeVerificationMethod => exact updateDocument_refuses parseFragment_safe hview
    | setVerificationMethodFlags =>
      exact updateDocument_refuses SetVerificationMethodFlags.parse_safe hview
    | addService => exact updateDocument_refuses AddService.parse_safe hview
    | updateService => exact updateDocument_refuses parseService_safe hview
    | removeService => exact updateDocument_refuses parseFragment_safe hview
    | setControllers => exact updateDocument_refuses SetControllers.parse_safe hview
    | deactivate => exact updateDocument_refuses finish_safe hview
    | _ => exact Refuses.program _ m

theorem owner_of_load {did : AccountView} {s : Address} (h : loadDidAccount P L did = .ok s) :
    (L did.address).owner = programId := by
  unfold loadDidAccount at h
  obtain ⟨_, howner, _⟩ := except_bind_ok_iff.mp h
  rwa [ensure_eq_ok, beq_iff_eq] at howner

theorem update_refuses (hP : P.Lawful) {ix : Ix} (hix : ix.isUpdate = true)
    {accounts : List AccountView} {args : Bytes} {m : Machine}
    (hsmall : Addressable m.ledger accounts) :
    Refuses m.ledger (Solvent P sv m.ledger accounts) (handler P sv ix accounts args m) := by
  rw [handler_update_eq hix]
  refine .lift_bind (ix.load_total accounts) fun u hu => ?_
  obtain ⟨hpayer, hsigner, hdid, hload⟩ := Ix.mem_of_load hu
  refine (Op.run_refuses hP hload (hsmall _ hdid (owner_of_load hload))).weaken fun h => ?_
  exact h.orderly hdid hpayer hsigner hload

/-! ### Creation -/

section Creation

variable {payer account : AccountView} {m : Machine} {orderly : Prop}

/-- Only the payment can be refused: a writable address of the program that is vacant can
always be allocated and assigned. -/
theorem createProgramAccount_refuses (hP : P.Lawful) {need space : ℕ} {seeds : List Bytes}
    {bump : UInt8} (hfind : P.deriveProgramAddress seeds = some (account.address, bump))
    (howner : (m.ledger account.address).owner = systemProgram)
    (hdata : (m.ledger account.address).data = []) (hspace : space ≤ maxPermittedDataIncrease)
    (hwritable : account.isWritable = true) : Refuses m.ledger orderly
      (createProgramAccount P payer account need space seeds bump m) := by
  have hassign (L₁ : Ledger) (hdata₁ : (L₁ account.address).data = [])
      (howner₁ : (L₁ account.address).owner = systemProgram) :
      (Exec.call (P.allocate account space seeds bump) >>= fun _ =>
        Exec.call (P.assign account programId seeds bump)) ⟨L₁, m.log⟩ =
      .ok () ⟨L₁.create account.address (List.replicate space 0), m.log⟩ :=
    (allocate_assign_ok_iff hP hfind hdata₁ howner₁ hspace).mpr ⟨hwritable, rfl⟩
  unfold createProgramAccount
  rw [Exec.lamports_bind]
  apply Fails.ite
  · intro hempty
    exact Refuses.call _
  · intro hheld
    by_cases hdeficit : 0 < need - (m.ledger account.address).lamports
    · simp only [if_pos hdeficit]
      apply Fails.bind (Refuses.call _)
      intro _ m₁ hpaid
      obtain ⟨L₁, htransfer, rfl⟩ := Exec.call_ok_iff.mp hpaid
      obtain ⟨-, -, rfl⟩ := hP.transfer_ok_iff.mp htransfer
      exact .of_ok ⟨_, _, hassign _ (by simpa using hdata) (by simpa using howner)⟩
    · simp only [if_neg hdeficit]
      exact .of_ok ⟨_, _, hassign m.ledger hdata howner⟩

theorem materialize_refuses (hP : P.Lawful) {did system : AccountView} {subject key : Address} :
    Refuses m.ledger (∃ now, sv.clock = .ok now)
      (Initialize.materialize P sv payer did system subject key m) := by
  unfold Initialize.materialize
  rw [Exec.ledger_bind]
  refine .lift_bind (checkPayer_total payer) fun _ _ => ?_
  refine .lift_bind (.ensure _ _) fun _ _ => .lift_bind (.ensure _ _) fun _ hwritable => ?_
  refine .lift_bind (findPda_total P _) fun found hfind => ?_
  obtain ⟨pda, bump⟩ := found
  refine .lift_bind (.ensure _ _) fun _ haddress => .lift_bind (.ensure _ _) fun _ hvacant => ?_
  refine .lift_bind (rentMinimumBalance_total P sv _) fun need _ => ?_
  simp only [ensure_eq_ok, beq_iff_eq, Bool.and_eq_true, List.length_eq_zero_iff]
    at hwritable haddress hvacant
  subst haddress
  rw [findPda_ok_iff] at hfind
  have hspace : initialSpace ≤ maxPermittedDataIncrease := by decide
  apply Fails.bind
  · exact createProgramAccount_refuses hP hfind hvacant.1 hvacant.2 hspace hwritable
  · intro _ m₁ hcreated
    obtain ⟨L₁, -, rfl⟩ := (createProgramAccount_ok_iff hP hfind hvacant.1 hvacant.2 hspace).mp
      hcreated
    cases hclock : sv.clock with
    | error e =>
      apply Fails.error
      constructor
      · simp
      · rintro ⟨now, hok⟩
        cases hok
    | ok now =>
      have hlen : ensure ((List.replicate initialSpace (0 : UInt8)).length == initialSpace)
          .accountDataTooSmall = .ok () := by simp
      rw [lift_bind_run (orFault_eq_ok.mpr rfl), Exec.borrow_bind, Ledger.create_data,
        lift_bind_run hlen, lift_bind_run (writeInitial_eq List.length_replicate ..)]
      exact .ok _ _

theorem initialize_refuses (hP : P.Lawful) (accounts : List AccountView) (args : Bytes) :
    Refuses m.ledger (∃ now, sv.clock = .ok now) (Initialize.process P sv accounts args m) := by
  have hsubject : Total (Initialize.subjectArg args) := by
    unfold Initialize.subjectArg
    split_ifs
    · exact .ok _
    · exact .program _
  unfold Initialize.process
  split
  · refine .lift_bind hsubject fun subject _ => .lift_bind (.ensure _ _) fun _ _ => ?_
    exact materialize_refuses hP
  · exact Refuses.program _ m

theorem initializeOwned_refuses (hP : P.Lawful) (accounts : List AccountView) (args : Bytes) :
    Refuses m.ledger (∃ now, sv.clock = .ok now)
      (InitializeOwned.process P sv accounts args m) := by
  have hnonce : Total (InitializeOwned.nonceArg args) := by
    unfold InitializeOwned.nonceArg
    split_ifs
    · exact .ok _
    · exact .program _
  unfold InitializeOwned.process
  split
  · refine .lift_bind (.ensure _ _) fun _ _ => .lift_bind hnonce fun nonce _ => ?_
    refine .lift_bind (findPda_total P _) fun found _ => ?_
    exact materialize_refuses hP
  · exact Refuses.program _ m

end Creation

/-! ### Key buffers -/

section KeyBuffers

variable {payer authority did buffer : AccountView} {controller : Option AccountView}
  {m : Machine} {orderly : Prop}

theorem CreateKeyBuffer.parse_safe : Safe CreateKeyBuffer.parse :=
  .bind (by simp) fun _ => .bind (by simp) fun _ => .bind (by simp) fun _ =>
    .bind (by simp) fun _ => .bind (by simp) fun _ => .bind (.lift (by simp)) (by simp)

theorem WriteKeyBuffer.parse_safe : Safe WriteKeyBuffer.parse :=
  .bind (by simp) fun _ => .bind (by simp) fun _ => .bind (by simp) (by simp)

theorem createKeyBuffer_refuses (hP : P.Lawful) (accounts : List AccountView) (args : Bytes) :
    Refuses m.ledger orderly (CreateKeyBuffer.process P sv accounts args m) := by
  unfold CreateKeyBuffer.process
  split
  swap
  · exact Refuses.program _ m
  rw [Exec.ledger_bind]
  refine .lift_bind (checkPayer_total _) fun _ _ => .lift_bind (.ensure _ _) fun _ _ => ?_
  refine .lift_bind (.ensure _ _) fun _ _ =>
    .lift_bind (loadDidAccount_total P _ _) fun s hload => ?_
  refine .lift_bind (.ensure _ _) fun _ hwritable => ?_
  refine .lift_bind (eval_total CreateKeyBuffer.parse_safe _) fun nm _ => ?_
  refine .lift_bind (DidView.parse_total _) fun v hview => ?_
  obtain ⟨d, hd, -, hshows⟩ := isDid_of_load hload hview
  refine .lift_bind (authorize_total hshows) fun _ _ => ?_
  refine .lift_bind (total_of_agrees (hshows.checkNewMethod_agrees nm)) fun _ hadmits => ?_
  obtain ⟨_, hadmitted, -⟩ := (hadmits ▸ hshows.checkNewMethod_agrees nm).of_ok
  obtain ⟨hfragment, hkeyLen⟩ := fits_of_admits hadmitted
  refine .lift_bind (findPda_total P _) fun found hfind => ?_
  obtain ⟨pda, bump⟩ := found
  refine .lift_bind (.ensure _ _) fun _ haddress => .lift_bind (.ensure _ _) fun _ hvacant => ?_
  simp only [ensure_eq_ok, beq_iff_eq, Bool.and_eq_true, List.length_eq_zero_iff]
    at hwritable haddress hvacant
  subst haddress
  rw [findPda_ok_iff] at hfind
  have hspace : keyBufferHeader + nm.keyLen ≤ maxPermittedDataIncrease := by
    rw [keyBufferHeader, maxPermittedDataIncrease]
    omega
  rw [lift_bind_run (addUsize_of_lt (by rw [keyBufferHeader]; omega))]
  refine .lift_bind (rentMinimumBalance_total P sv _) fun need _ => ?_
  apply Fails.bind
  · exact createProgramAccount_refuses hP hfind hvacant.1 hvacant.2 hspace hwritable
  · intro _ m₁ hcreated
    obtain ⟨L₁, -, rfl⟩ := (createProgramAccount_ok_iff hP hfind hvacant.1 hvacant.2 hspace).mp
      hcreated
    have hlen : ensure ((List.replicate (keyBufferHeader + nm.keyLen) (0 : UInt8)).length ==
        keyBufferHeader + nm.keyLen) .accountDataTooSmall = .ok () := by simp
    rw [Exec.borrow_bind, Ledger.create_data, lift_bind_run hlen,
      lift_bind_run (writeHeader_eq _ _ _ nm hfragment (by omega))]
    exact .ok _ _

/-- A chunk written into any account that passed the buffer check stays inside it. -/
theorem writeChunk_total {data : Bytes} {written keyLen : ℕ} (a : ℕ × Bytes)
    (hlen : data.length = keyBufferHeader + keyLen) (hle : written ≤ keyLen)
    (hlt : keyLen < 2 ^ 32) : Total (WriteKeyBuffer.writeChunk data written keyLen a) := by
  unfold WriteKeyBuffer.writeChunk
  refine .bind (.require _ _) fun _ hnext => .bind (.checkedAdd _ _) fun last hlast => ?_
  refine .bind (.require _ _) fun _ hfits => ?_
  simp only [require_eq_ok, Bool.and_eq_true, beq_iff_eq, checkedAdd_eq_ok, decide_eq_true_eq]
    at hnext hlast hfits
  rw [keyBufferHeader] at hlen
  have hpos : addUsize kbOffKey a.1 = .ok (kbOffKey + a.1) := by
    apply addUsize_of_lt
    rw [kbOffKey]
    omega
  have hchunk : writeAt data (kbOffKey + a.1) a.2 = .ok (splice data (kbOffKey + a.1) a.2) := by
    apply if_pos
    rw [kbOffKey]
    omega
  rw [hpos, except_bind_ok, hchunk, except_bind_ok]
  apply Total.of_ok
  refine ⟨_, if_pos ?_⟩
  rw [length_of_writeAt hchunk, length_u32Bytes, kbOffWritten]
  omega

/-- What the buffer check finds, in data of any content. -/
theorem exists_ref_of_check {found : ℕ × ℕ} {bound : Option Address}
    (h : checkKeyBuffer P L buffer authority.address bound = .ok found) :
    (L buffer.address).data.take 8 = keyBufferDiscriminator ∧
      ∃ ref, KeyBufferRef.parse (L buffer.address).data = .ok ref ∧
        found = (ref.written, ref.keyLen) := by
  unfold checkKeyBuffer at h
  simp only [except_bind_ok_iff, ensure_eq_ok, Bool.and_eq_true, beq_iff_eq] at h
  obtain ⟨_, -, _, -, _, ⟨-, hdisc⟩, ref, href, _, -, h⟩ := h
  refine ⟨hdisc, ref, href, ?_⟩
  cases bound with
  | none =>
    simp only [except_bind_ok_iff, except_pure, Except.ok.injEq] at h
    obtain ⟨_, -, hfound⟩ := h
    exact hfound.symm
  | some x =>
    simp only [except_bind_ok_iff, except_pure, Except.ok.injEq] at h
    obtain ⟨_, -, _, -, hfound⟩ := h
    exact hfound.symm

theorem writeKeyBuffer_refuses (accounts : List AccountView) (args : Bytes) :
    Refuses m.ledger orderly (WriteKeyBuffer.process P accounts args m) := by
  unfold WriteKeyBuffer.process
  split
  swap
  · exact Refuses.program _ m
  rw [Exec.ledger_bind]
  refine .lift_bind (.ensure _ _) fun _ _ => ?_
  refine .lift_bind (checkKeyBuffer_total P _ _ _ _) fun found hfound => ?_
  obtain ⟨-, ref, href, rfl⟩ := exists_ref_of_check hfound
  obtain ⟨hlen, hle, hlt, -⟩ := KeyBufferRef.bounds_of_parse href
  refine .lift_bind (eval_total WriteKeyBuffer.parse_safe _) fun a _ => ?_
  rw [Exec.borrow_bind]
  exact .lift_bind (writeChunk_total a hlen hle hlt) fun data _ => .ok _ _

/-- The sum is checked before either balance is written. -/
theorem closeTo_refuses (hP : P.Lawful) : Refuses m.ledger orderly (closeTo P buffer payer m) := by
  unfold closeTo
  rw [Exec.lamports_bind, Exec.lamports_bind]
  refine .lift_bind (.checkedAdd _ _) fun credited _ => ?_
  rw [Exec.setLamports_bind, Exec.setLamports_bind]
  exact .of_ok ⟨(), _, Exec.call_ok_iff.mpr ⟨_, hP.close_eq, rfl⟩⟩

theorem closeKeyBuffer_refuses (hP : P.Lawful) (accounts : List AccountView) (args : Bytes) :
    Refuses m.ledger orderly (CloseKeyBuffer.process P accounts args m) := by
  unfold CloseKeyBuffer.process
  split
  swap
  · exact Refuses.program _ m
  rw [Exec.ledger_bind]
  refine .lift_bind (eval_total finish_safe _) fun _ _ => ?_
  refine .lift_bind (checkPayer_total _) fun _ _ => .lift_bind (.ensure _ _) fun _ _ => ?_
  refine .lift_bind (verifyKeyBuffer_total P _ _ _ _) fun _ _ => ?_
  exact closeTo_refuses hP

theorem KeyBufferRef.exists_key {data : Bytes} {ref : KeyBufferRef}
    (h : KeyBufferRef.parse data = .ok ref) :
    ∃ key, ref.key data = .ok key ∧ key.length = ref.written ∧
      slice data kbOffKey (kbOffKey + key.length) = .ok key := by
  obtain ⟨hlen, hle, hlt, -⟩ := KeyBufferRef.bounds_of_parse h
  rw [keyBufferHeader] at hlen
  have hkey : ((data.drop kbOffKey).take ref.written).length = ref.written := by
    rw [List.length_take, List.length_drop, kbOffKey]
    omega
  have hslice : slice data kbOffKey (kbOffKey + ref.written) =
      .ok ((data.drop kbOffKey).take ref.written) := by
    unfold slice
    rw [if_pos ⟨by omega, by rw [kbOffKey]; omega⟩, Nat.add_sub_cancel_left]
  refine ⟨_, ?_, hkey, by rw [hkey, hslice]⟩
  unfold KeyBufferRef.key
  rw [addUsize_of_lt (by rw [kbOffKey]; omega), except_bind_ok, hslice]

namespace AddVerificationMethodFromBuffer

theorem check_total {s : Address} (hload : loadDidAccount P L did = .ok s) :
    Total (check P L authority did buffer controller) := by
  unfold check
  refine .bind (KeyBufferRef.parse_total _) fun ref href => ?_
  obtain ⟨key, hkey, hlen, -⟩ := KeyBufferRef.exists_key href
  refine .bind (.require _ _) fun _ hcomplete => .bind (.ensure _ _) fun _ _ => ?_
  refine .bind (DidView.parse_total _) fun v hview => ?_
  obtain ⟨d, hd, -, hshows⟩ := isDid_of_load hload hview
  refine .bind (authorize_total hshows) fun _ _ => ?_
  refine .bind (total_of_agrees (hshows.checkNewMethod_agrees _)) fun _ _ => ?_
  rw [hkey, except_bind_ok]
  rw [require_eq_ok, beq_iff_eq] at hcomplete
  rw [← hcomplete, ← hlen]
  exact .bind (total_of_agrees (checkNewKey_agrees P.isCurvePoint authority.address
    ⟨ref.fragment, ref.methodType, ref.flags, key⟩)) fun _ _ => .ok _

theorem exists_method_of_check {s : Address} {nm : NewMethod} {sections : Sections}
    (hload : loadDidAccount P L did = .ok s)
    (h : check P L authority did buffer controller = .ok (nm, sections)) :
    ∃ d method, IsDid P L did.address d ∧ sections = d.body.sections ∧ nm = method.toNew ∧
      Method.WellFormed method ∧
      slice (L buffer.address).data kbOffKey (kbOffKey + method.key.length) = .ok method.key := by
  unfold check at h
  simp only [except_bind_ok_iff, require_eq_ok, beq_iff_eq] at h
  obtain ⟨ref, href, _, hcomplete, _, -, v, hview, _, -, _, hadmits, key, hkey, _, hnew, hplan⟩ := h
  obtain ⟨d, hd, -, hshows⟩ := isDid_of_load hload hview
  obtain ⟨key', hkey', hlen, hslice⟩ := KeyBufferRef.exists_key href
  obtain rfl : key' = key := Except.ok.inj (hkey'.symm.trans hkey)
  have htoNew : Method.toNew ⟨ref.fragment, ref.methodType, ref.flags, key'⟩ =
      ⟨ref.fragment, ref.methodType, ref.flags, ref.keyLen⟩ := by
    rw [Method.toNew, hlen, hcomplete]
  rw [← htoNew] at hadmits hnew hplan
  obtain ⟨_, hadmitted, -⟩ := (hadmits ▸ hshows.checkNewMethod_agrees _).of_ok
  obtain ⟨_, hkeyed, -⟩ := (hnew ▸ checkNewKey_agrees P.isCurvePoint authority.address
    ⟨ref.fragment, ref.methodType, ref.flags, key'⟩).of_ok
  cases hplan
  exact ⟨d, _, hd, hshows.sections_eq, rfl, Body.wellFormed_of_admits hadmitted hkeyed, hslice⟩

end AddVerificationMethodFromBuffer

/-- A commit leaves the payer and the buffer with no more than they held with the DID. -/
theorem Commits.room {d : Document} {op : Op} {body : Body} {m₁ : Machine} {v : UInt64}
    (h : Commits P sv did payer d op body m v m₁) (hdid : did.address ≠ payer.address)
    (hbuffer : buffer.address ≠ payer.address) (hne : did.address ≠ buffer.address) :
    (m₁.ledger payer.address).lamports + (m₁.ledger buffer.address).lamports ≤
      m.ledger.held [did.address, payer.address, buffer.address] := by
  obtain ⟨now, L₁, -, hsettled, rfl, -⟩ := h
  obtain ⟨hsum, hothers⟩ := hsettled.trades hdid
  have hsame := hothers buffer.address hne.symm hbuffer
  simp only [Ledger.store_lamports, Ledger.held_cons, Ledger.held_nil]
  omega

/-- The last step of a finish pays out the buffer, for which there is always room. -/
theorem finish_refuses (hP : P.Lawful) (accounts : List AccountView) (args : Bytes)
    (hsmall : Addressable m.ledger accounts) :
    Refuses m.ledger (Solvent P sv m.ledger accounts)
      (AddVerificationMethodFromBuffer.process P sv accounts args m) := by
  unfold AddVerificationMethodFromBuffer.process
  split
  swap
  · exact Refuses.program _ m
  rename_i payer authority did buffer system rest
  rw [Exec.ledger_bind]
  refine .lift_bind (eval_total finish_safe _) fun _ _ => ?_
  refine .lift_bind (checkPayer_total _) fun _ hpayer => .lift_bind (.ensure _ _) fun _ _ => ?_
  refine .lift_bind (.ensure _ _) fun _ _ => .lift_bind (verifyDidAccount_total P _ _) ?_
  intro s hverify
  obtain ⟨_, -, hload⟩ := except_bind_ok_iff.mp hverify
  refine .lift_bind (verifyKeyBuffer_total P _ _ _ _) fun _ hbuffer => ?_
  obtain ⟨found, hfound, -⟩ := except_bind_ok_iff.mp hbuffer
  obtain ⟨hdisc, -⟩ := exists_ref_of_check hfound
  have hne : did.address ≠ buffer.address := by
    intro hsame
    have hdid := (take_of_load hload).2
    rw [hsame, hdisc] at hdid
    exact absurd hdid (by decide)
  refine .lift_bind (AddVerificationMethodFromBuffer.check_total hload) fun plan hcheck => ?_
  obtain ⟨nm, sections⟩ := plan
  obtain ⟨d, method, hd, rfl, rfl, hm, hslice⟩ :=
    AddVerificationMethodFromBuffer.exists_method_of_check hload hcheck
  have hlen := hsmall did (by simp) hd.owner
  rw [hd.data_eq] at hlen
  have hedits : Edits P sv did payer d (.addVm method) _ m
      (AddVerificationMethodFromBuffer.commit P sv payer did buffer method.toNew
        d.body.sections m) :=
    AddVerificationMethodFromBuffer.commit_edits hP hd hlen hslice hne hm
  have hsigner : payer.isSigner = true := by
    obtain ⟨_, hsigner, -⟩ := except_bind_ok_iff.mp hpayer
    exact ensure_eq_ok.mp hsigner
  apply Fails.bind
  · exact hedits.refuses.weaken fun h => h.orderly (by simp) (by simp) hsigner hload
  · intro v m₁ hcommit
    have hcommits := (hedits.ok_iff v m₁).mp hcommit
    refine .bind (Refuses.of_safe Safe.closeTo fun h => ?_) fun _ _ _ => .ok _ _
    obtain ⟨kb, hkb⟩ := h.sound.staged_of_check hfound
    have hdid : did.address ≠ payer.address :=
      (h.orderly (by simp) (by simp) hsigner hload).apart
    have hpaid : buffer.address ≠ payer.address := h.ne_found (by simp) hsigner hkb.found
    have hroom := hcommits.room hdid hpaid hne
    have hheld := @Solvent.held_lt _ _ _ _ h [did.address, payer.address, buffer.address]
      (by simp [hdid, hpaid.symm, hne])
    exact ⟨(), _, (closeTo_ok_iff hP).mpr ⟨by omega, rfl⟩⟩

end KeyBuffers

/-! ### Every handler -/

/-- No handler panics on accounts of any content, and none fails after its first write on
solvent ones. -/
theorem handler_refuses (hP : P.Lawful) {ix : Ix} {accounts : List AccountView} {args : Bytes}
    {m : Machine}
    (hsmall : Addressable m.ledger accounts) :
    Refuses m.ledger (Solvent P sv m.ledger accounts) (handler P sv ix accounts args m) := by
  cases hix : ix.isUpdate with
  | true => exact update_refuses hP hix hsmall
  | false =>
    cases ix with
    | initializeDid => exact (initialize_refuses hP accounts args).weaken Solvent.clock
    | initializeOwned => exact (initializeOwned_refuses hP accounts args).weaken Solvent.clock
    | createKeyBuffer => exact createKeyBuffer_refuses hP accounts args
    | writeKeyBuffer => exact writeKeyBuffer_refuses accounts args
    | addVerificationMethodFromBuffer => exact finish_refuses hP accounts args hsmall
    | closeKeyBuffer => exact closeKeyBuffer_refuses hP accounts args
    | _ => cases hix

/-- So is the whole call, whose data may name no instruction. -/
theorem processInstruction_refuses (hP : P.Lawful) (id : Address) (accounts : List AccountView)
    (data : Bytes) {m : Machine}
    (hsmall : Addressable m.ledger accounts) :
    Refuses m.ledger (Solvent P sv m.ledger accounts)
      (processInstruction P sv id accounts data m) := by
  unfold processInstruction
  refine .ite (fun _ => Refuses.program _ m) fun _ =>
    .ite (fun _ => Refuses.program _ m) fun _ => ?_
  cases Ix.ofDiscriminator (data.take 8) with
  | some ix => exact handler_refuses hP hsmall
  | none => exact Refuses.program _ m

end BioDidRegistry
