import BioDidRegistry.Registry.KeyBuffers

/-!
# What a successful instruction does

In a sound ledger every account of the program is a well-formed DID or a key
buffer of one, at its own address. There a call that succeeds has one of six
effects, and `Performs` says of each what it took and what it left. Everything
about runs is derived from this, and none of it looks at a handler again.
-/

namespace BioDidRegistry

open BinaryFormat Verdict Reader

variable {P : Platform} {L L' : Ledger}

/-! ### Sound ledgers -/

/-- The account at `a` is a DID at the program address of its subject. -/
structure Registered (P : Platform) (L : Ledger) (a : Address) (d : Document) : Prop
    extends IsDid P L a d where
  found : P.deriveProgramAddress [didSeed, d.subject.val] = some (a, d.bump)
  wellFormed : d.WellFormed

/-- The account at `a` is a key buffer of an existing DID, at the program address of the
DID and the authority. -/
structure Staged (P : Platform) (L : Ledger) (a : Address) (kb : KeyBuffer) : Prop
    extends IsBuffer P L a kb where
  found : P.deriveProgramAddress [keyBufferSeed, kb.didAccount.val, kb.authority.val] =
    some (a, kb.bump)
  did : ∃ d, IsDid P L kb.didAccount d

/-- Every account of the program is a DID or a key buffer. -/
def Sound (P : Platform) (L : Ledger) : Prop :=
  ∀ a, (L a).owner = programId → (∃ d, Registered P L a d) ∨ ∃ kb, Staged P L a kb

namespace Sound

variable (hS : Sound P L) {a : Address}

include hS

theorem registered {d : Document} (hd : IsDid P L a d) : Registered P L a d := by
  rcases hS a hd.owner with ⟨d', hd'⟩ | ⟨kb, hkb⟩
  · rw [hd.unique hd'.toIsDid]
    exact hd'
  · exact (hd.not_isBuffer hkb.toIsBuffer).elim

theorem staged_of_take (howner : (L a).owner = programId)
    (hdisc : (L a).data.take 8 = keyBufferDiscriminator) : ∃ kb, Staged P L a kb := by
  rcases hS a howner with ⟨d, hd⟩ | hkb
  · have hsame : accountDiscriminator = keyBufferDiscriminator :=
      hd.toIsDid.take_data.symm.trans hdisc
    exact absurd hsame (by decide)
  · exact hkb

theorem registered_of_take (howner : (L a).owner = programId)
    (hdisc : (L a).data.take 8 = accountDiscriminator) : ∃ d, Registered P L a d := by
  rcases hS a howner with hd | ⟨kb, hkb⟩
  · exact hd
  · have hsame : accountDiscriminator = keyBufferDiscriminator :=
      hdisc.symm.trans hkb.toIsBuffer.take_data
    exact absurd hsame (by decide)

theorem staged_of_check {view : AccountView} {authority : Address} {did : Option Address}
    {found : ℕ × ℕ} (h : checkKeyBuffer P L view authority did = .ok found) :
    ∃ kb, Staged P L view.address kb := by
  unfold checkKeyBuffer at h
  simp only [except_bind_ok_iff, ensure_eq_ok, beq_iff_eq, Bool.and_eq_true] at h
  obtain ⟨-, -, -, howner, -, ⟨-, hdisc⟩, -⟩ := h
  exact hS.staged_of_take howner hdisc

theorem staged_of_verify {view : AccountView} {authority : Address} {did : Option Address}
    {u : Unit} (h : verifyKeyBuffer P L view authority did = .ok u) :
    ∃ kb, Staged P L view.address kb := by
  unfold verifyKeyBuffer at h
  obtain ⟨found, hcheck, -⟩ := except_bind_ok_iff.mp h
  exact hS.staged_of_check hcheck

theorem registered_of_load {view : AccountView} {s : Address}
    (h : loadDidAccount P L view = .ok s) :
    ∃ d, Registered P L view.address d ∧ s = d.subject := by
  obtain ⟨howner, hdisc⟩ := take_of_load h
  obtain ⟨d, hd⟩ := hS.registered_of_take howner hdisc
  rw [hd.toIsDid.loadDidAccount rfl] at h
  cases h
  exact ⟨d, hd, rfl⟩

end Sound

/-! ### The accounts of a call -/

namespace Ix

/-- How many accounts the instruction has of its own. -/
def arity : Ix → ℕ
  | initializeDid | closeKeyBuffer => 3
  | setVerificationMethodFlags | writeKeyBuffer => 2
  | createKeyBuffer | addVerificationMethodFromBuffer => 5
  | _ => 4

def payerPos : Ix → Option ℕ
  | setVerificationMethodFlags | writeKeyBuffer => none
  | _ => some 0

def authorityPos : Ix → Option ℕ
  | initializeDid => none
  | setVerificationMethodFlags | writeKeyBuffer => some 0
  | _ => some 1

def didAccountPos : Ix → Option ℕ
  | writeKeyBuffer | closeKeyBuffer => none
  | initializeDid | setVerificationMethodFlags => some 1
  | _ => some 2

def keyBufferPos : Ix → Option ℕ
  | createKeyBuffer | addVerificationMethodFromBuffer => some 3
  | writeKeyBuffer => some 1
  | closeKeyBuffer => some 2
  | _ => none

end Ix

namespace Call

variable (c : Call)

def ix : Option Ix :=
  if c.data.length < 8 then none else Ix.ofDiscriminator (c.data.take 8)

def args : Bytes := c.data.drop 8

/-- The account at the position the instruction gives a role. -/
def account (pos : Ix → Option ℕ) : Option AccountView :=
  c.ix.bind fun ix => (pos ix).bind fun i => c.accounts[i]?

def payer : Option AccountView := c.account Ix.payerPos

def authority : Option AccountView := c.account Ix.authorityPos

def didAccount : Option AccountView := c.account Ix.didAccountPos

def keyBuffer : Option AccountView := c.account Ix.keyBufferPos

/-- The first account after the instruction's own. -/
def controller : Option AccountView := c.account fun ix => some ix.arity

/-- `payer` pays for the instruction. -/
def Pays (payer : AccountView) : Prop :=
  c.payer = some payer ∧ payer.isSigner = true ∧ payer.isWritable = true

/-- The account in the authority position signed with `key`. -/
def SignedBy (key : Address) : Prop :=
  ∃ authority, c.authority = some authority ∧ authority.isSigner = true ∧ authority.address = key

variable {c}

theorem account_eq {ix : Ix} (h : c.ix = some ix) (pos : Ix → Option ℕ) :
    c.account pos = (pos ix).bind fun i => c.accounts[i]? := by
  rw [account, h]
  rfl

/-- What stands at the position of a role. -/
theorem account_of {ix : Ix} (hix : c.ix = some ix) {accounts : List AccountView}
    (haccounts : c.accounts = accounts) {pos : Ix → Option ℕ} {view : Option AccountView}
    (h : ((pos ix).bind fun i => accounts[i]?) = view) : c.account pos = view := by
  rw [account_eq hix, haccounts, h]

end Call

/-- What the runtime keeps of a handler's work. -/
def outcome : EStateM.Result Fault Machine Unit → Except Fault (Ledger × List Bytes)
  | .ok _ m => .ok (m.ledger, m.log)
  | .error e _ => .error e

theorem outcome_ok_iff {r : EStateM.Result Fault Machine Unit} {log : List Bytes} :
    outcome r = .ok (L', log) ↔ r = .ok () ⟨L', log⟩ := by
  cases r with
  | error e m => simp [outcome]
  | ok u m =>
    cases m
    simp [outcome]

/-- The data of a call names the handler that works on it. -/
theorem processInstruction_eq (c : Call) :
    processInstruction P c.sysvars programId c.accounts c.data =
      c.ix.elim (throw (.program .invalidInstructionData)) fun ix =>
        handler P c.sysvars ix c.accounts c.args := by
  unfold processInstruction Call.ix
  rw [if_neg (fun h => h rfl)]
  split_ifs
  · rfl
  · cases Ix.ofDiscriminator (c.data.take 8) <;> rfl

/-- A call is the work of the handler its data names. -/
theorem invoke_eq (c : Call) : invoke P c L =
    c.ix.elim (.error (.program .invalidInstructionData)) fun ix =>
      outcome (handler P c.sysvars ix c.accounts c.args ⟨L, []⟩) := by
  unfold invoke
  rw [processInstruction_eq]
  cases c.ix <;> rfl

theorem invoke_ok_iff {c : Call} {log : List Bytes} : invoke P c L = .ok (L', log) ↔
    ∃ ix, c.ix = some ix ∧ handler P c.sysvars ix c.accounts c.args ⟨L, []⟩ = .ok () ⟨L', log⟩ := by
  rw [invoke_eq]
  cases hix : c.ix with
  | none => simp
  | some ix =>
    simp only [Option.some.injEq, exists_eq_left', Option.elim_some, outcome_ok_iff]

/-! ### The six effects -/

/-- What an instruction does to the accounts of the program. -/
inductive Effect
  | create (did : Address) (d : Document)
  | update (did : Address) (d : Document) (op : Op) (d' : Document)
  | openBuffer (buffer : Address) (kb : KeyBuffer)
  | writeBuffer (buffer : Address) (kb kb' : KeyBuffer) (chunk : Bytes)
  | finish (did : Address) (d d' : Document) (buffer : Address) (kb : KeyBuffer)
  | closeBuffer (buffer : Address) (kb : KeyBuffer)

namespace Effect

/-- The accounts whose data or owner the effect may change. -/
def touched : Effect → List Address
  | create did _ => [did]
  | update did _ _ _ => [did]
  | openBuffer buffer _ => [buffer]
  | writeBuffer buffer _ _ _ => [buffer]
  | finish did _ _ buffer _ => [did, buffer]
  | closeBuffer buffer _ => [buffer]

end Effect

/-- The call founds the DID of `subject` with `key`: a key subject with itself, an owned
subject with the authority that signs. -/
def Call.Founds (P : Platform) (c : Call) (subject key : Address) : Prop :=
  (c.ix = some .initializeDid ∧ c.args = subject.val ∧ key = subject ∧
      P.isCurvePoint subject.val = true) ∨
    (c.ix = some .initializeOwned ∧ c.SignedBy key ∧
      ∃ nonce bump, c.args = Subtype.val nonce ∧
        P.deriveProgramAddress (ownedSubjectSeeds key nonce) = some (subject, bump))

namespace Call

variable {c : Call} {subject subject' key key' : Address}

theorem SignedBy.unique (h : c.SignedBy key) (h' : c.SignedBy key') : key = key' := by
  obtain ⟨view, hview, -, rfl⟩ := h
  obtain ⟨view', hview', -, rfl⟩ := h'
  rw [Option.some.inj (hview.symm.trans hview')]

theorem Founds.unique (h : c.Founds P subject key) (h' : c.Founds P subject' key') :
    subject = subject' ∧ key = key' := by
  rcases h with ⟨hix, hargs, rfl, -⟩ | ⟨hix, hsigned, nonce, bump, hargs, hfind⟩
  · rcases h' with ⟨-, hargs', rfl, -⟩ | ⟨hix', -⟩
    · have hsame : key = key' := Subtype.ext (hargs.symm.trans hargs')
      exact ⟨hsame, hsame⟩
    · simp [hix] at hix'
  · rcases h' with ⟨hix', -⟩ | ⟨-, hsigned', nonce', bump', hargs', hfind'⟩
    · simp [hix] at hix'
    · obtain rfl := hsigned.unique hsigned'
      obtain rfl : nonce = nonce' := Subtype.ext (hargs.symm.trans hargs')
      rw [hfind] at hfind'
      exact ⟨congrArg Prod.fst (Option.some.inj hfind'), rfl⟩

theorem Founds.ix_cases (h : c.Founds P subject key) :
    c.ix = some .initializeDid ∨ c.ix = some .initializeOwned := by
  rcases h with ⟨hix, -⟩ | ⟨hix, -⟩
  · exact Or.inl hix
  · exact Or.inr hix

end Call

/-- The call has the effect, which leads to the ledger and logs the records. -/
inductive Performs (P : Platform) (c : Call) (L : Ledger) : Effect → Ledger → List Bytes → Prop
  | create {payer did : AccountView} {subject key : Address} {bump : UInt8} {need : ℕ}
      {now : Int64} {L₁ : Ledger} (founds : c.Founds P subject key) (pays : c.Pays payer)
      (target : c.didAccount = some did)
      (found : P.deriveProgramAddress [didSeed, subject.val] = some (did.address, bump))
      (vacant : L.Vacant did.address)
      (rent : rentMinimumBalance P c.sysvars initialSpace = .ok need)
      (funds : Funds L payer did need L₁) (clock : c.sysvars.clock = .ok now) :
      Performs P c L (.create did.address (Document.initial bump subject key now))
        (L₁.create did.address (Document.initial bump subject key now).encode)
        [eventBytes didInitialized did.address subject 1]
  | update {payer did : AccountView} {key : Address} {d : Document} {op : Op} {body : Body}
      {now : Int64} {L₁ : Ledger} (ix : c.ix = some op.ix) (args : c.args = op.args)
      (signed : c.SignedBy key)
      (pays : c.Pays payer ∨ op.ix = .setVerificationMethodFlags)
      (target : c.didAccount = some did)
      (isDid : Registered P L did.address d) (authorized : Authorized P L d key c.controller)
      (applied : d.body.apply P.isCurvePoint key d.subject op = .ok body)
      (clock : c.sysvars.clock = .ok now)
      (settled : Resettles P c.sysvars L did payer d.encode.length
        (d.updated op body now).encode.length L₁) :
      Performs P c L (.update did.address d op (d.updated op body now))
        (L₁.store did.address (d.updated op body now).encode)
        [eventBytes op.event did.address d.subject (saturatingSucc d.version)]
  | openBuffer {payer authority did buffer : AccountView} {d : Document} {nm : NewMethod}
      {kb : KeyBuffer} {L₁ : Ledger} (ix : c.ix = some .createKeyBuffer) (args : c.args = nm.args)
      (encodable : nm.Encodable) (signed : c.SignedBy authority.address) (pays : c.Pays payer)
      (target : c.didAccount = some did) (named : c.keyBuffer = some buffer)
      (opens : Opens P c.sysvars payer authority did buffer c.controller d nm kb L L₁) :
      Performs P c L (.openBuffer buffer.address kb) L₁ []
  | writeBuffer {buffer : AccountView} {kb : KeyBuffer} {offset : UInt32} {chunk : Bytes}
      (ix : c.ix = some .writeKeyBuffer)
      (args : c.args = WriteKeyBuffer.chunkArgs offset chunk) (signed : c.SignedBy kb.authority)
      (named : c.keyBuffer = some buffer) (staged : Staged P L buffer.address kb)
      (nonempty : chunk ≠ []) (next : offset.toNat = kb.received.length)
      (fits : kb.received.length + chunk.length ≤ kb.method.keyLen) :
      Performs P c L (.writeBuffer buffer.address kb (kb.append chunk fits) chunk)
        (L.store buffer.address (kb.append chunk fits).encode) []
  | finish {payer did buffer : AccountView} {d : Document} {kb : KeyBuffer} {body : Body}
      {now : Int64} {L₁ : Ledger} (ix : c.ix = some .addVerificationMethodFromBuffer)
      (args : c.args = []) (signed : c.SignedBy kb.authority) (pays : c.Pays payer)
      (target : c.didAccount = some did) (named : c.keyBuffer = some buffer)
      (staged : Staged P L buffer.address kb)
      (bound : kb.didAccount = did.address) (isDid : Registered P L did.address d)
      (complete : kb.received.length = kb.method.keyLen)
      (authorized : Authorized P L d kb.authority c.controller)
      (applied : d.body.apply P.isCurvePoint kb.authority d.subject (.addVm kb.toMethod) =
        .ok body)
      (clock : c.sysvars.clock = .ok now)
      (settled : Resettles P c.sysvars L did payer d.encode.length
        (d.updated (.addVm kb.toMethod) body now).encode.length L₁) :
      Performs P c L
        (.finish did.address d (d.updated (.addVm kb.toMethod) body now) buffer.address kb)
        ((L₁.store did.address (d.updated (.addVm kb.toMethod) body now).encode).closed
          buffer.address payer.address)
        [eventBytes didModified did.address d.subject (saturatingSucc d.version)]
  | closeBuffer {payer buffer : AccountView} {kb : KeyBuffer}
      (ix : c.ix = some .closeKeyBuffer) (args : c.args = []) (signed : c.SignedBy kb.authority)
      (pays : c.Pays payer) (named : c.keyBuffer = some buffer)
      (staged : Staged P L buffer.address kb) :
      Performs P c L (.closeBuffer buffer.address kb)
        (L.closed buffer.address payer.address) []

/-- The accounts an update loaded, by their roles in the call. -/
theorem roles_of_load {c : Call} {ix : Ix} (hix : c.ix = some ix) (hupdate : ix.isUpdate = true)
    {u : Update} (h : ix.load P L c.accounts = .ok u) :
    c.SignedBy u.authority.address ∧ c.controller = u.controller ∧
      (c.Pays u.payer ∨ ix = .setVerificationMethodFlags) ∧
      c.didAccount = some u.didAccount ∧ loadDidAccount P L u.didAccount = .ok u.subject := by
  by_cases hflags : ix = .setVerificationMethodFlags
  · subst hflags
    obtain ⟨t, ht, hu⟩ := except_bind_ok_iff.mp h
    cases hu
    obtain ⟨rest, haccounts, hsigner, -, hload, hrest⟩ :=
      SetVerificationMethodFlags.target_ok_iff.mp ht
    refine ⟨⟨t.authority, ?_, hsigner, rfl⟩, ?_, Or.inr rfl, ?_, hload⟩
    · exact Call.account_of hix haccounts rfl
    · rw [Call.controller, Call.account_eq hix, haccounts, hrest]
      cases rest <;> rfl
    · exact Call.account_of hix haccounts rfl
  · have htry : Update.tryFrom P L c.accounts = .ok u := by
      cases ix <;> first | exact h | exact absurd rfl hflags
    obtain ⟨system, rest, haccounts, hpayer, hwritable, hsigner, -, -, hload, hrest⟩ :=
      Update.tryFrom_ok_iff.mp htry
    have harity : ix.arity = 4 ∧ ix.payerPos = some 0 ∧ ix.authorityPos = some 1 ∧
        ix.didAccountPos = some 2 := by
      cases ix <;> first | exact ⟨rfl, rfl, rfl, rfl⟩ | exact absurd rfl hflags | cases hupdate
    refine ⟨⟨u.authority, ?_, hsigner, rfl⟩, ?_, Or.inl ⟨?_, hpayer, hwritable⟩, ?_, hload⟩
    · rw [Call.authority, Call.account_eq hix, haccounts, harity.2.2.1]
      rfl
    · rw [Call.controller, Call.account_eq hix, haccounts, harity.1, hrest]
      cases rest <;> rfl
    · rw [Call.payer, Call.account_eq hix, haccounts, harity.2.1]
      rfl
    · rw [Call.didAccount, Call.account_eq hix, haccounts, harity.2.2.2]
      rfl

section Shapes

variable {sv : Sysvars} {accounts : List AccountView} {args : Bytes} {m m' : Machine} {u : Unit}

theorem createKeyBuffer_accounts (h : CreateKeyBuffer.process P sv accounts args m = .ok u m') :
    ∃ payer authority did buffer system rest,
      accounts = payer :: authority :: did :: buffer :: system :: rest := by
  match accounts, h with
  | payer :: authority :: did :: buffer :: system :: rest, _ =>
    exact ⟨payer, authority, did, buffer, system, rest, rfl⟩

theorem finish_accounts
    (h : AddVerificationMethodFromBuffer.process P sv accounts args m = .ok u m') :
    ∃ payer authority did buffer system rest,
      accounts = payer :: authority :: did :: buffer :: system :: rest := by
  match accounts, h with
  | payer :: authority :: did :: buffer :: system :: rest, _ =>
    exact ⟨payer, authority, did, buffer, system, rest, rfl⟩

theorem writeKeyBuffer_accounts (h : WriteKeyBuffer.process P accounts args m = .ok u m') :
    ∃ authority buffer rest, accounts = authority :: buffer :: rest := by
  match accounts, h with
  | authority :: buffer :: rest, _ => exact ⟨authority, buffer, rest, rfl⟩

theorem closeKeyBuffer_accounts (h : CloseKeyBuffer.process P accounts args m = .ok u m') :
    ∃ payer authority buffer rest, accounts = payer :: authority :: buffer :: rest := by
  match accounts, h with
  | payer :: authority :: buffer :: rest, _ => exact ⟨payer, authority, buffer, rest, rfl⟩

end Shapes

/-! ### Each handler has its effect -/

section Handlers

variable {c : Call} {log : List Bytes}

theorem exists_create (hP : P.Lawful) {ix : Ix} (hix : c.ix = some ix)
    (hcreates : ix = .initializeDid ∨ ix = .initializeOwned)
    (hrun : handler P c.sysvars ix c.accounts c.args ⟨L, []⟩ = .ok () ⟨L', log⟩) :
    ∃ did d, Performs P c L (.create did d) L' log := by
  rcases hcreates with rfl | rfl
  · obtain ⟨payer, did, system, rest, subject, haccounts, hargs, hcurve,
      ⟨hsigner, hwritable, -⟩, bump, need, now, L₁, hfind, owner, hdata, hneed, hfunds, hnow,
      hm'⟩ := (initialize_ok_iff hP).mp hrun
    cases hm'
    refine ⟨_, _, .create (Or.inl ⟨hix, hargs, rfl, hcurve⟩) ⟨?_, hsigner, hwritable⟩ ?_ hfind
      ⟨owner, hdata⟩ hneed hfunds hnow⟩
    · exact Call.account_of hix haccounts rfl
    · exact Call.account_of hix haccounts rfl
  · obtain ⟨payer, authority, did, system, rest, nonce, subject, bump', haccounts, hargs, hsigned,
      howned, ⟨hsigner, hwritable, -⟩, bump, need, now, L₁, hfind, owner, hdata, hneed, hfunds,
      hnow, hm'⟩ := (initializeOwned_ok_iff hP).mp hrun
    cases hm'
    refine ⟨_, _, .create (Or.inr ⟨hix, ⟨authority, ?_, hsigned, rfl⟩, nonce, bump', hargs, howned⟩)
      ⟨?_, hsigner, hwritable⟩ ?_ hfind ⟨owner, hdata⟩ hneed hfunds hnow⟩
    · exact Call.account_of hix haccounts rfl
    · exact Call.account_of hix haccounts rfl
    · exact Call.account_of hix haccounts rfl

/-- All updates load their accounts first, and go by the document from there. -/
theorem exists_update (hP : P.Lawful) (hS : Sound P L) {ix : Ix} (hix : c.ix = some ix)
    (hupdate : ix.isUpdate = true)
    (hrun : handler P c.sysvars ix c.accounts c.args ⟨L, []⟩ = .ok () ⟨L', log⟩) :
    ∃ e, Performs P c L e L' log := by
  rw [handler_update_eq hupdate, lift_bind_ok_iff] at hrun
  obtain ⟨u, hload, hrun⟩ := hrun
  obtain ⟨op, rfl, hargs, hop, hknown⟩ := Op.exists_of_run hrun
  obtain ⟨hsigned, hcontroller, hpays, htarget, hdid⟩ := roles_of_load hix hupdate hload
  obtain ⟨d, hd, hsubject⟩ := hS.registered_of_load hdid
  rw [hargs] at hrun
  have hrenders : Renders P c.sysvars u d op op.event ⟨L, []⟩
      (Op.run P c.sysvars u op.args op.ix) :=
    Op.run_renders hP hop hknown hd.toIsDid hd.wellFormed.length_lt hsubject
  obtain ⟨hauth, body, happly, v, m₁, ⟨now, L₁, hnow, hsettled, rfl, rfl⟩, hm'⟩ :=
    (hrenders.ok_iff _).mp hrun
  cases hm'
  rw [hsubject]
  exact ⟨_, .update hix hargs hsigned hpays htarget hd (hcontroller ▸ hauth) happly hnow hsettled⟩

theorem exists_openBuffer (hP : P.Lawful) (hix : c.ix = some .createKeyBuffer)
    (hrun : handler P c.sysvars .createKeyBuffer c.accounts c.args ⟨L, []⟩ = .ok () ⟨L', log⟩) :
    ∃ e, Performs P c L e L' log := by
  obtain ⟨payer, authority, did, buffer, system, rest, haccounts⟩ := createKeyBuffer_accounts hrun
  change CreateKeyBuffer.process P c.sysvars c.accounts c.args ⟨L, []⟩ = _ at hrun
  rw [haccounts] at hrun
  obtain ⟨⟨hsigner, hwritable, hsigned, -, -⟩, d, nm, kb, hargs, hnm, hopens, hlog⟩ :=
    (createKeyBuffer_ok_iff hP).mp hrun
  have hcontroller : c.controller = rest.head? := by
    apply Call.account_of hix haccounts
    cases rest <;> rfl
  dsimp only at hlog hopens
  subst hlog
  refine ⟨_, .openBuffer hix hargs hnm ⟨authority, ?_, hsigned, rfl⟩
    ⟨?_, hsigner, hwritable⟩ ?_ ?_ (hcontroller ▸ hopens)⟩
  · exact Call.account_of hix haccounts rfl
  · exact Call.account_of hix haccounts rfl
  · exact Call.account_of hix haccounts rfl
  · exact Call.account_of hix haccounts rfl

theorem exists_writeBuffer (hS : Sound P L) (hix : c.ix = some .writeKeyBuffer)
    (hrun : handler P c.sysvars .writeKeyBuffer c.accounts c.args ⟨L, []⟩ = .ok () ⟨L', log⟩) :
    ∃ e, Performs P c L e L' log := by
  obtain ⟨authority, buffer, rest, haccounts⟩ := writeKeyBuffer_accounts hrun
  change WriteKeyBuffer.process P c.accounts c.args ⟨L, []⟩ = _ at hrun
  rw [haccounts] at hrun
  have hchecked := hrun
  simp only [WriteKeyBuffer.process, Exec.ledger_bind, lift_bind_ok_iff] at hchecked
  obtain ⟨-, -, found, hcheck, -⟩ := hchecked
  obtain ⟨kb, hkb⟩ := hS.staged_of_check hcheck
  obtain ⟨⟨hsigned, -, hown⟩, offset, chunk, hargs, hne, hnext, hfits, hm'⟩ :=
    (writeKeyBuffer_ok_iff hkb.toIsBuffer).mp hrun
  cases hm'
  refine ⟨_, .writeBuffer hix hargs ⟨authority, ?_, hsigned, hown.symm⟩ ?_ hkb hne hnext hfits⟩
  · exact Call.account_of hix haccounts rfl
  · exact Call.account_of hix haccounts rfl

theorem exists_finish (hP : P.Lawful) (hS : Sound P L)
    (hix : c.ix = some .addVerificationMethodFromBuffer)
    (hrun : handler P c.sysvars .addVerificationMethodFromBuffer c.accounts c.args ⟨L, []⟩ =
      .ok () ⟨L', log⟩) :
    ∃ e, Performs P c L e L' log := by
  obtain ⟨payer, authority, did, buffer, system, rest, haccounts⟩ := finish_accounts hrun
  change AddVerificationMethodFromBuffer.process P c.sysvars c.accounts c.args ⟨L, []⟩ = _ at hrun
  rw [haccounts] at hrun
  have hchecked := hrun
  simp only [AddVerificationMethodFromBuffer.process, Exec.ledger_bind, lift_bind_ok_iff,
    verifyDidAccount, except_bind_ok_iff] at hchecked
  obtain ⟨-, -, -, -, -, -, -, -, s, ⟨-, -, hload⟩, _, hverify, -⟩ := hchecked
  obtain ⟨d, hd, -⟩ := hS.registered_of_load hload
  obtain ⟨kb, hkb⟩ := hS.staged_of_verify hverify
  obtain ⟨⟨hsigner, hwritable, hsigned, -, -, -, hown, hbound⟩, hargs, hcomplete, hauth, body,
    happly, v, m₁, ⟨now, L₁, hnow, hsettled, rfl, rfl⟩, -, hm'⟩ :=
    (finish_ok_iff hP hd.toIsDid hd.wellFormed hkb.toIsBuffer).mp hrun
  cases hm'
  have hcontroller : c.controller = rest.head? := by
    apply Call.account_of hix haccounts
    cases rest <;> rfl
  refine ⟨_, .finish hix hargs ⟨authority, ?_, hsigned, hown.symm⟩ ⟨?_, hsigner, hwritable⟩ ?_ ?_
    hkb hbound hd hcomplete (by rwa [hown, hcontroller]) (by rwa [hown]) hnow hsettled⟩
  · exact Call.account_of hix haccounts rfl
  · exact Call.account_of hix haccounts rfl
  · exact Call.account_of hix haccounts rfl
  · exact Call.account_of hix haccounts rfl

theorem exists_closeBuffer (hP : P.Lawful) (hS : Sound P L) (hix : c.ix = some .closeKeyBuffer)
    (hrun : handler P c.sysvars .closeKeyBuffer c.accounts c.args ⟨L, []⟩ = .ok () ⟨L', log⟩) :
    ∃ e, Performs P c L e L' log := by
  obtain ⟨payer, authority, buffer, rest, haccounts⟩ := closeKeyBuffer_accounts hrun
  change CloseKeyBuffer.process P c.accounts c.args ⟨L, []⟩ = _ at hrun
  rw [haccounts] at hrun
  have hchecked := hrun
  simp only [CloseKeyBuffer.process, Exec.ledger_bind, lift_bind_ok_iff] at hchecked
  obtain ⟨-, -, -, -, -, -, _, hverify, -⟩ := hchecked
  obtain ⟨kb, hkb⟩ := hS.staged_of_verify hverify
  obtain ⟨⟨hsigner, hwritable, hsigned, -, hown⟩, hargs, -, hm'⟩ :=
    (closeKeyBuffer_ok_iff hP hkb.toIsBuffer).mp hrun
  cases hm'
  refine ⟨_, .closeBuffer hix hargs ⟨authority, ?_, hsigned, hown.symm⟩
    ⟨?_, hsigner, hwritable⟩ ?_ hkb⟩
  · exact Call.account_of hix haccounts rfl
  · exact Call.account_of hix haccounts rfl
  · exact Call.account_of hix haccounts rfl

/-- Every successful call on a sound ledger has one of the effects. -/
theorem exists_performs (hP : P.Lawful) (hS : Sound P L) (h : invoke P c L = .ok (L', log)) :
    ∃ e, Performs P c L e L' log := by
  obtain ⟨ix, hix, hrun⟩ := invoke_ok_iff.mp h
  cases hupdate : ix.isUpdate with
  | true => exact exists_update hP hS hix hupdate hrun
  | false =>
    cases ix with
    | initializeDid =>
      obtain ⟨did, d, h⟩ := exists_create hP hix (Or.inl rfl) hrun
      exact ⟨_, h⟩
    | initializeOwned =>
      obtain ⟨did, d, h⟩ := exists_create hP hix (Or.inr rfl) hrun
      exact ⟨_, h⟩
    | createKeyBuffer => exact exists_openBuffer hP hix hrun
    | writeKeyBuffer => exact exists_writeBuffer hS hix hrun
    | addVerificationMethodFromBuffer => exact exists_finish hP hS hix hrun
    | closeKeyBuffer => exact exists_closeBuffer hP hS hix hrun
    | addVerificationMethod | removeVerificationMethod | setVerificationMethodFlags | addService
    | updateService | removeService | setControllers | deactivate => cases hupdate

end Handlers

end BioDidRegistry
