import BioDidRegistry.Registry.Requests

/-!
# Builders and parsers

A builder encodes the values of an instruction, and the parser of the instruction's
handler takes the argument bytes apart again. Each parser accepts the encodings of its
builder and no other bytes, and no encoding is the beginning of another one.
-/

namespace BioDidRegistry

open BinaryFormat Cursor Reader

/-! ### What the handlers do first -/

/-- The values a parser yields. -/
inductive Values
  | subject (subject : Address)
  | nonce (nonce : Block 8)
  | method (method : Method)
  | fragment (fragment : Bytes)
  | flags (fragment : Bytes) (flags : UInt16)
  | service (service : ServiceArgs)
  | controllers (lists : SetControllers.Args)
  | newMethod (method : NewMethod)
  | chunk (offset : ℕ) (chunk : Bytes)
  | nothing

/-- Both lists of controllers are in the arrays. Past the storable maximum a list is read
and dropped. -/
def Values.Kept : Values → Prop
  | controllers a => a.nativeCount ≤ maxNativeControllers ∧ a.otherCount ≤ maxOtherControllers
  | _ => True

namespace Reader

/-- All of the input as one value. -/
def whole {s : Source} {α : Type} (p : Read s α) : Read s α := do
  let a ← p
  finish
  pure a

theorem whole_ok_iff {s : Source} {α : Type} {p : Read s α} {enc : α → Bytes} {ok : α → Prop}
    (h : Reads p enc ok) {data : Bytes} {a : α} :
    eval (whole p) (new s data) = .ok a ↔ data = enc a ∧ ok a := by
  have hwhole : whole p = (p >>= fun a => finish >>= fun _ =>
      liftM (Except.ok a : Except Fault α)) := rfl
  rw [hwhole, eval_whole_ok_iff h]
  constructor
  · rintro ⟨_, hdata, hok, hc⟩
    cases hc
    exact ⟨hdata, hok⟩
  · intro h
    exact ⟨a, h.1, h.2, rfl⟩

end Reader

namespace Ix

/-- What the handler's parser makes of the arguments, before the method type of a new
method is looked up. -/
def parse (args : Bytes) : Ix → Except Fault Values
  | initializeDid => .subject <$> Initialize.subjectArg args
  | initializeOwned => .nonce <$> InitializeOwned.nonceArg args
  | addVerificationMethod =>
    .method <$> eval (whole AddVerificationMethod.readMethod) (new .args args)
  | removeVerificationMethod | removeService => .fragment <$> eval parseFragment (new .args args)
  | setVerificationMethodFlags =>
    (fun a => .flags a.1 a.2) <$> eval SetVerificationMethodFlags.parse (new .args args)
  | addService => (fun a => .service a.1) <$> eval AddService.parse (new .args args)
  | updateService => .service <$> eval parseService (new .args args)
  | setControllers => .controllers <$> eval SetControllers.parse (new .args args)
  | createKeyBuffer => .newMethod <$> eval (whole CreateKeyBuffer.readNewMethod) (new .args args)
  | writeKeyBuffer =>
    (fun a => .chunk a.1 a.2) <$> eval WriteKeyBuffer.parse (new .args args)
  | deactivate | addVerificationMethodFromBuffer | closeKeyBuffer =>
    (fun _ => .nothing) <$> eval finish (new .args args)

end Ix

section Checks

variable (P : Platform) (L : Ledger)

/-- The checks `materialize` makes on its accounts. -/
def Initialize.checkAccounts (payer didAccount system : AccountView) (subject : Address) :
    Except Fault Unit := do
  checkPayer payer
  checkSystemProgram system
  ensure didAccount.isWritable .immutable
  let (pda, _) ← findPda P [didSeed, subject.val]
  ensure (didAccount.address == pda) .invalidSeeds
  ensure ((L didAccount.address).owner == systemProgram &&
    (L didAccount.address).data.length == 0) .accountAlreadyInitialized

def CreateKeyBuffer.checkAccounts (payer authority didAccount keyBuffer system : AccountView) :
    Except Fault Unit := do
  checkPayer payer
  checkAuthoritySigner authority
  checkSystemProgram system
  let _ ← loadDidAccount P L didAccount
  ensure keyBuffer.isWritable .immutable
  let (pda, _) ← findPda P [keyBufferSeed, didAccount.address.val, authority.address.val]
  ensure (keyBuffer.address == pda) .invalidSeeds
  ensure ((L keyBuffer.address).owner == systemProgram &&
    (L keyBuffer.address).data.length == 0) .accountAlreadyInitialized

/-- The checks a handler makes on its accounts, in its order. The address of a new DID
depends on the arguments. -/
def Ix.checkAccounts (accounts : List AccountView) (args : Bytes) : Ix → Except Fault Unit
  | .initializeDid => match accounts with
    | payer :: didAccount :: system :: _ => do
      let subject ← Initialize.subjectArg args
      Initialize.checkAccounts P L payer didAccount system subject
    | _ => .error (.program .notEnoughAccountKeys)
  | .initializeOwned => match accounts with
    | payer :: authority :: didAccount :: system :: _ => do
      checkAuthoritySigner authority
      let nonce ← InitializeOwned.nonceArg args
      let (subject, _) ← findPda P (ownedSubjectSeeds authority.address nonce)
      Initialize.checkAccounts P L payer didAccount system subject
    | _ => .error (.program .notEnoughAccountKeys)
  | .createKeyBuffer => match accounts with
    | payer :: authority :: didAccount :: keyBuffer :: system :: _ =>
      CreateKeyBuffer.checkAccounts P L payer authority didAccount keyBuffer system
    | _ => .error (.program .notEnoughAccountKeys)
  | .writeKeyBuffer => match accounts with
    | authority :: keyBuffer :: _ => do
      checkAuthoritySigner authority
      verifyKeyBuffer P L keyBuffer authority.address none
    | _ => .error (.program .notEnoughAccountKeys)
  | .addVerificationMethodFromBuffer => match accounts with
    | payer :: authority :: didAccount :: keyBuffer :: system :: _ => do
      checkPayer payer
      checkAuthoritySigner authority
      checkSystemProgram system
      let _ ← verifyDidAccount P L didAccount
      verifyKeyBuffer P L keyBuffer authority.address (some didAccount.address)
    | _ => .error (.program .notEnoughAccountKeys)
  | .closeKeyBuffer => match accounts with
    | payer :: authority :: keyBuffer :: _ => do
      checkPayer payer
      checkAuthoritySigner authority
      verifyKeyBuffer P L keyBuffer authority.address none
    | _ => .error (.program .notEnoughAccountKeys)
  | ix => do
    let _ ← ix.load P L accounts

end Checks

theorem Ix.checkAccounts_update {P : Platform} {L : Ledger} {ix : Ix} (hix : ix.isUpdate = true)
    (accounts : List AccountView) (args : Bytes) : ix.checkAccounts P L accounts args = (do
      let _ ← ix.load P L accounts) := by
  cases ix <;> first | rfl | cases hix

/-! ### The builders -/

/-- A builder with the values it is given. -/
inductive Builder
  | initializeDid (payer subject : Address)
  | initializeOwned (payer authority : Address) (nonce : UInt64)
  | update (payer authority subject : Address) (op : Op)
  | createKeyBuffer (payer authority subject : Address) (fragment : Bytes) (methodType : UInt8)
      (flags : UInt16) (keyLen : UInt32)
  | writeKeyBuffer (authority subject : Address) (offset : UInt32) (chunk : Bytes)
  | addVerificationMethodFromBuffer (payer authority subject : Address)
  | closeKeyBuffer (payer authority subject : Address)

/-- A nonce as the bytes the program reads. -/
def nonceBlock (nonce : UInt64) : Block 8 := ⟨u64Bytes nonce, by simp⟩

namespace Builder

def base (P : Platform) : Builder → Option Instruction
  | initializeDid payer subject => Client.initializeDid P payer subject
  | initializeOwned payer authority nonce => Client.initializeOwned P payer authority nonce
  | update payer authority subject op => Request.base P ⟨payer, authority, subject, none, op⟩
  | createKeyBuffer payer authority subject fragment methodType flags keyLen =>
    Client.createKeyBuffer P payer authority subject fragment methodType flags keyLen
  | writeKeyBuffer authority subject offset chunk =>
    Client.writeKeyBuffer P authority subject offset chunk
  | addVerificationMethodFromBuffer payer authority subject =>
    Client.addVerificationMethodFromBuffer P payer authority subject
  | closeKeyBuffer payer authority subject => Client.closeKeyBuffer P payer authority subject

def instruction (P : Platform) (via : Option Address) (b : Builder) : Option Instruction := do
  let i ← b.base P
  match via with
  | none => pure i
  | some controller => Client.viaController P controller i

def ix : Builder → Ix
  | initializeDid .. => .initializeDid
  | initializeOwned .. => .initializeOwned
  | update _ _ _ op => op.ix
  | createKeyBuffer .. => .createKeyBuffer
  | writeKeyBuffer .. => .writeKeyBuffer
  | addVerificationMethodFromBuffer .. => .addVerificationMethodFromBuffer
  | closeKeyBuffer .. => .closeKeyBuffer

def args : Builder → Bytes
  | initializeDid _ subject => subject.val
  | initializeOwned _ _ nonce => u64Bytes nonce
  | update _ _ _ op => op.args
  | createKeyBuffer _ _ _ fragment methodType flags keyLen =>
    NewMethod.args ⟨fragment, methodType, flags, keyLen.toNat⟩
  | writeKeyBuffer _ _ offset chunk => WriteKeyBuffer.chunkArgs offset chunk
  | addVerificationMethodFromBuffer .. | closeKeyBuffer .. => []

/-- Texts are strings, and strings, byte slices and lists are shorter than `2 ^ 32`. -/
def Encodable : Builder → Prop
  | update _ _ _ op => op.Encodable
  | createKeyBuffer _ _ _ fragment _ _ _ => IsStr fragment
  | writeKeyBuffer _ _ _ chunk => chunk.length < 2 ^ 32
  | _ => True

end Builder

/-- The values of an update, as the program is to read them. -/
def Op.values : Op → Values
  | addVm m => .method m
  | removeVm fragment => .fragment fragment
  | setFlags fragment flags => .flags fragment flags
  | addService svc => .service svc.toArgs
  | updateService svc => .service svc.toArgs
  | removeService fragment => .fragment fragment
  | setControllers natives others =>
    .controllers (.ofLists natives others (Op.setControllers natives others).args.length)
  | deactivate => .nothing

/-- The values the builder is given, as the program is to read them. -/
def Builder.values : Builder → Values
  | initializeDid _ subject => .subject subject
  | initializeOwned _ _ nonce => .nonce (nonceBlock nonce)
  | update _ _ _ op => op.values
  | createKeyBuffer _ _ _ fragment methodType flags keyLen =>
    .newMethod ⟨fragment, methodType, flags, keyLen.toNat⟩
  | writeKeyBuffer _ _ offset chunk => .chunk offset.toNat chunk
  | addVerificationMethodFromBuffer .. | closeKeyBuffer .. => .nothing

/-! ### The parsers are the inverse of the builders -/

namespace Ix

variable {ix : Ix} {args : Bytes} {v : Values}

theorem map_ok_iff {α β : Type} {f : α → β} {x : Except Fault α} {b : β} :
    f <$> x = .ok b ↔ ∃ a, x = .ok a ∧ b = f a := by
  cases x with
  | error e => exact iff_of_false nofun fun ⟨_, h, _⟩ => nomatch h
  | ok a =>
    constructor
    · intro h
      exact ⟨a, rfl, (Except.ok.inj h).symm⟩
    · rintro ⟨_, ha, rfl⟩
      cases ha
      rfl

/-- The arguments an update's parser accepts are those of the update. -/
theorem parse_update_ok_iff (hix : ix.isUpdate = true) : ix.parse args = .ok v ↔
    ∃ op : Op, op.ix = ix ∧ op.Encodable ∧ args = op.args ∧ v = op.values := by
  constructor
  · intro h
    cases ix with
    | addVerificationMethod =>
      obtain ⟨m, hparse, rfl⟩ := map_ok_iff.mp h
      obtain ⟨hargs, hop⟩ := (whole_ok_iff AddVerificationMethod.readMethod_reads).mp hparse
      exact ⟨.addVm m, rfl, hop, hargs, rfl⟩
    | removeVerificationMethod =>
      obtain ⟨fragment, hparse, rfl⟩ := map_ok_iff.mp h
      obtain ⟨hargs, hop⟩ := parseFragment_ok_iff.mp hparse
      exact ⟨.removeVm fragment, rfl, hop, hargs, rfl⟩
    | setVerificationMethodFlags =>
      obtain ⟨a, hparse, rfl⟩ := map_ok_iff.mp h
      obtain ⟨hargs, hop⟩ := SetVerificationMethodFlags.parse_ok_iff.mp hparse
      exact ⟨.setFlags a.1 a.2, rfl, hop, hargs, rfl⟩
    | addService =>
      obtain ⟨a, hparse, rfl⟩ := map_ok_iff.mp h
      obtain ⟨svc, hargs, hop, rfl⟩ := AddService.parse_ok_iff.mp hparse
      exact ⟨.addService svc, rfl, hop, hargs, rfl⟩
    | updateService =>
      obtain ⟨a, hparse, rfl⟩ := map_ok_iff.mp h
      obtain ⟨svc, hargs, hop, rfl⟩ := parseService_ok_iff.mp hparse
      exact ⟨.updateService svc, rfl, hop, hargs, rfl⟩
    | removeService =>
      obtain ⟨fragment, hparse, rfl⟩ := map_ok_iff.mp h
      obtain ⟨hargs, hop⟩ := parseFragment_ok_iff.mp hparse
      exact ⟨.removeService fragment, rfl, hop, hargs, rfl⟩
    | setControllers =>
      obtain ⟨a, hparse, rfl⟩ := map_ok_iff.mp h
      obtain ⟨natives, others, rfl, hop, rfl⟩ := SetControllers.parse_ok_iff.mp hparse
      exact ⟨.setControllers natives others, rfl, hop, rfl, rfl⟩
    | deactivate =>
      obtain ⟨_, hparse, rfl⟩ := map_ok_iff.mp h
      exact ⟨.deactivate, rfl, trivial, eval_finish_ok_iff.mp hparse, rfl⟩
    | initializeDid | initializeOwned | createKeyBuffer | writeKeyBuffer
    | addVerificationMethodFromBuffer | closeKeyBuffer => cases hix
  · rintro ⟨op, rfl, hop, rfl, rfl⟩
    cases op with
    | addVm m =>
      have hparse := (whole_ok_iff AddVerificationMethod.readMethod_reads).mpr ⟨rfl, hop⟩
      exact map_ok_iff.mpr ⟨m, hparse, rfl⟩
    | removeVm fragment =>
      exact map_ok_iff.mpr ⟨fragment, parseFragment_ok_iff.mpr ⟨rfl, hop⟩, rfl⟩
    | setFlags fragment flags =>
      have hparse := (SetVerificationMethodFlags.parse_ok_iff (a := (fragment, flags))).mpr
        ⟨rfl, hop⟩
      exact map_ok_iff.mpr ⟨_, hparse, rfl⟩
    | addService svc =>
      exact map_ok_iff.mpr ⟨_, AddService.parse_ok_iff.mpr ⟨svc, rfl, hop, rfl⟩, rfl⟩
    | updateService svc =>
      exact map_ok_iff.mpr ⟨_, parseService_ok_iff.mpr ⟨svc, rfl, hop, rfl⟩, rfl⟩
    | removeService fragment =>
      exact map_ok_iff.mpr ⟨fragment, parseFragment_ok_iff.mpr ⟨rfl, hop⟩, rfl⟩
    | setControllers natives others =>
      have hparse := SetControllers.parse_ok_iff.mpr ⟨natives, others, rfl, hop, rfl⟩
      exact map_ok_iff.mpr ⟨_, hparse, rfl⟩
    | deactivate => exact map_ok_iff.mpr ⟨(), eval_finish_ok_iff.mpr rfl, rfl⟩

end Ix

theorem nonceBlock_surjective (block : Block 8) : ∃ nonce, block = nonceBlock nonce := by
  obtain ⟨bs, hbs⟩ := block
  have hlt : leValue bs < 2 ^ 64 := by
    have hvalue := leValue_lt bs
    rw [hbs] at hvalue
    exact hvalue
  have hto : (UInt64.ofNat (leValue bs)).toNat = leValue bs := UInt64.toNat_ofNat_of_lt hlt
  refine ⟨UInt64.ofNat (leValue bs), Subtype.ext ?_⟩
  change bs = leBytes 8 (UInt64.ofNat (leValue bs)).toNat
  rw [hto, ← hbs, leBytes_leValue]

/-- The arguments a parser accepts are the encodings of its builder, and what it yields are
the builder's values. -/
theorem Ix.parse_ok_iff {ix : Ix} {args : Bytes} {v : Values} : ix.parse args = .ok v ↔
    ∃ b : Builder, b.ix = ix ∧ b.Encodable ∧ args = b.args ∧ v = b.values := by
  -- Addresses that the arguments do not hold are arbitrary.
  have a : Address := systemProgram
  constructor
  · intro h
    cases hix : ix.isUpdate with
    | true =>
      obtain ⟨op, hop⟩ := (Ix.parse_update_ok_iff hix).mp h
      exact ⟨.update a a a op, hop⟩
    | false =>
      cases ix with
      | initializeDid =>
        obtain ⟨subject, hparse, rfl⟩ := map_ok_iff.mp h
        exact ⟨.initializeDid a subject, rfl, trivial, subjectArg_ok_iff.mp hparse, rfl⟩
      | initializeOwned =>
        obtain ⟨block, hparse, rfl⟩ := map_ok_iff.mp h
        obtain ⟨nonce, rfl⟩ := nonceBlock_surjective block
        exact ⟨.initializeOwned a a nonce, rfl, trivial, nonceArg_ok_iff.mp hparse, rfl⟩
      | createKeyBuffer =>
        obtain ⟨nm, hparse, rfl⟩ := map_ok_iff.mp h
        obtain ⟨rfl, hfragment, hlen⟩ :=
          (whole_ok_iff CreateKeyBuffer.readNewMethod_reads).mp hparse
        obtain ⟨fragment, methodType, flags, keyLen⟩ := nm
        have hto : (UInt32.ofNat keyLen).toNat = keyLen := UInt32.toNat_ofNat_of_lt hlen
        refine ⟨.createKeyBuffer a a a fragment methodType flags (UInt32.ofNat keyLen), rfl,
          hfragment, ?_, ?_⟩
        · rw [Builder.args, hto]
        · rw [Builder.values, hto]
      | writeKeyBuffer =>
        obtain ⟨⟨n, chunk⟩, hparse, rfl⟩ := map_ok_iff.mp h
        obtain ⟨offset, hargs, hlen, rfl⟩ := WriteKeyBuffer.parse_ok_iff.mp hparse
        exact ⟨.writeKeyBuffer a a offset chunk, rfl, hlen, hargs, rfl⟩
      | addVerificationMethodFromBuffer =>
        obtain ⟨_, hparse, rfl⟩ := map_ok_iff.mp h
        exact ⟨.addVerificationMethodFromBuffer a a a, rfl, trivial, eval_finish_ok_iff.mp hparse,
          rfl⟩
      | closeKeyBuffer =>
        obtain ⟨_, hparse, rfl⟩ := map_ok_iff.mp h
        exact ⟨.closeKeyBuffer a a a, rfl, trivial, eval_finish_ok_iff.mp hparse, rfl⟩
      | addVerificationMethod | removeVerificationMethod | setVerificationMethodFlags | addService
      | updateService | removeService | setControllers | deactivate => cases hix
  · rintro ⟨b, rfl, hb, rfl, rfl⟩
    cases b with
    | update payer authority subject op =>
      exact (Ix.parse_update_ok_iff op.isUpdate_ix).mpr ⟨op, rfl, hb, rfl, rfl⟩
    | initializeDid payer subject =>
      exact map_ok_iff.mpr ⟨subject, subjectArg_ok_iff.mpr rfl, rfl⟩
    | initializeOwned payer authority nonce =>
      exact map_ok_iff.mpr ⟨nonceBlock nonce, nonceArg_ok_iff.mpr rfl, rfl⟩
    | createKeyBuffer payer authority subject fragment methodType flags keyLen =>
      have hnm : (⟨fragment, methodType, flags, keyLen.toNat⟩ : NewMethod).Encodable :=
        ⟨hb, keyLen.toNat_lt⟩
      exact map_ok_iff.mpr
        ⟨_, (whole_ok_iff CreateKeyBuffer.readNewMethod_reads).mpr ⟨rfl, hnm⟩, rfl⟩
    | writeKeyBuffer authority subject offset chunk =>
      exact map_ok_iff.mpr ⟨(offset.toNat, chunk),
        WriteKeyBuffer.parse_ok_iff.mpr ⟨offset, rfl, hb, rfl⟩, rfl⟩
    | addVerificationMethodFromBuffer | closeKeyBuffer =>
      exact map_ok_iff.mpr ⟨(), eval_finish_ok_iff.mpr rfl, rfl⟩

/-! ### No two encodings of one request -/

theorem Reader.eq_nil_of_append {α : Type} {p : Read .args α} {enc : α → Bytes} {ok : α → Prop}
    (h : Reads p enc ok) {a b : α} {t : Bytes} (ha : ok a) (hb : ok b)
    (hab : enc a ++ t = enc b) : t = [] := by
  have hpre : enc a <+: (new .args (enc b)).rest := ⟨t, hab⟩
  obtain rfl := h.unique ha hb hpre List.prefix_rfl
  simpa using hab

def SetControllers.readLists : Read .args (List Address × List Bytes) := do
  let natives ← vector (array 32)
  let others ← vector str
  pure (natives, others)

theorem SetControllers.readLists_reads :
    Reads readLists (fun a => (Op.setControllers a.1 a.2).args)
      fun a => (Op.setControllers a.1 a.2).Encodable := by
  intro r a r'
  simp only [readLists, (vector_reads (array_reads 32)).bind_ok_iff,
    (vector_reads str_reads).bind_ok_iff, pure_ok_iff, Op.args, append_prefix_iff, cursor_rest,
    rest_skip, advance_advance, List.length_append]
  constructor
  · rintro ⟨natives, ⟨⟨hn, -⟩, hpn⟩, others, ⟨ho, hpo⟩, rfl, rfl⟩
    exact ⟨⟨hn, ho⟩, ⟨hpn, hpo⟩, rfl⟩
  · rintro ⟨⟨hn, ho⟩, ⟨hpn, hpo⟩, rfl⟩
    exact ⟨_, ⟨⟨hn, fun _ _ => trivial⟩, hpn⟩, _, ⟨ho, hpo⟩, rfl, rfl⟩

/-- No bytes can follow the arguments of an update. -/
theorem Op.eq_nil_of_append {op op' : Op} {t : Bytes} (hix : op.ix = op'.ix) (hop : op.Encodable)
    (hop' : op'.Encodable) (h : op.args ++ t = op'.args) : t = [] := by
  cases op with
  | addVm m =>
    cases op' <;> cases hix
    exact Reader.eq_nil_of_append AddVerificationMethod.readMethod_reads hop hop' h
  | removeVm fragment =>
    cases op' <;> cases hix
    exact Reader.eq_nil_of_append str_reads hop hop' h
  | setFlags fragment flags =>
    cases op' with
    | setFlags fragment' flags' =>
      exact Reader.eq_nil_of_append SetVerificationMethodFlags.readFlags_reads
        (a := (fragment, flags)) (b := (fragment', flags')) hop hop' h
    | _ => cases hix
  | addService svc =>
    cases op' <;> cases hix
    exact Reader.eq_nil_of_append readService_reads hop hop' h
  | updateService svc =>
    cases op' <;> cases hix
    exact Reader.eq_nil_of_append readService_reads hop hop' h
  | removeService fragment =>
    cases op' <;> cases hix
    exact Reader.eq_nil_of_append str_reads hop hop' h
  | setControllers natives others =>
    cases op' with
    | setControllers natives' others' =>
      exact Reader.eq_nil_of_append SetControllers.readLists_reads (a := (natives, others))
        (b := (natives', others')) hop hop' h
    | _ => cases hix
  | deactivate =>
    cases op' <;> cases hix
    exact h

theorem Ix.eq_nil_of_append {ix : Ix} {args t : Bytes} {v v' : Values}
    (h : ix.parse args = .ok v) (h' : ix.parse (args ++ t) = .ok v') : t = [] := by
  cases hix : ix.isUpdate with
  | true =>
    obtain ⟨op, hop, hencodable, rfl, -⟩ := (Ix.parse_update_ok_iff hix).mp h
    obtain ⟨op', hop', hencodable', hargs, -⟩ := (Ix.parse_update_ok_iff hix).mp h'
    exact Op.eq_nil_of_append (hop.trans hop'.symm) hencodable hencodable' hargs
  | false =>
    cases ix with
    | initializeDid =>
      obtain ⟨subject, hparse, -⟩ := map_ok_iff.mp h
      obtain ⟨subject', hparse', -⟩ := map_ok_iff.mp h'
      have hlen := congrArg List.length (subjectArg_ok_iff.mp hparse')
      rw [subjectArg_ok_iff.mp hparse, List.length_append, subject.length_eq,
        subject'.length_eq] at hlen
      exact List.length_eq_zero_iff.mp (by omega)
    | initializeOwned =>
      obtain ⟨nonce, hparse, -⟩ := map_ok_iff.mp h
      obtain ⟨nonce', hparse', -⟩ := map_ok_iff.mp h'
      have hlen := congrArg List.length (nonceArg_ok_iff.mp hparse')
      rw [nonceArg_ok_iff.mp hparse, List.length_append, nonce.length_eq, nonce'.length_eq] at hlen
      exact List.length_eq_zero_iff.mp (by omega)
    | createKeyBuffer =>
      obtain ⟨nm, hparse, -⟩ := map_ok_iff.mp h
      obtain ⟨nm', hparse', -⟩ := map_ok_iff.mp h'
      obtain ⟨rfl, hnm⟩ := (whole_ok_iff CreateKeyBuffer.readNewMethod_reads).mp hparse
      obtain ⟨hargs, hnm'⟩ := (whole_ok_iff CreateKeyBuffer.readNewMethod_reads).mp hparse'
      exact Reader.eq_nil_of_append CreateKeyBuffer.readNewMethod_reads hnm hnm' hargs
    | writeKeyBuffer =>
      obtain ⟨a, hparse, -⟩ := map_ok_iff.mp h
      obtain ⟨a', hparse', -⟩ := map_ok_iff.mp h'
      obtain ⟨offset, rfl, hlen, -⟩ := WriteKeyBuffer.parse_ok_iff.mp hparse
      obtain ⟨offset', hargs, hlen', -⟩ := WriteKeyBuffer.parse_ok_iff.mp hparse'
      exact Reader.eq_nil_of_append WriteKeyBuffer.readChunk_reads (a := (offset, a.2))
        (b := (offset', a'.2)) hlen hlen' hargs
    | addVerificationMethodFromBuffer | closeKeyBuffer =>
      obtain ⟨_, hparse, -⟩ := map_ok_iff.mp h
      obtain ⟨_, hparse', -⟩ := map_ok_iff.mp h'
      have hargs := eval_finish_ok_iff.mp hparse'
      exact (List.append_eq_nil_iff.mp hargs).2
    | addVerificationMethod | removeVerificationMethod | setVerificationMethodFlags | addService
    | updateService | removeService | setControllers | deactivate => cases hix

namespace SetControllers

def Args.lists (a : Args) : List Bytes × List Bytes :=
  (a.natives.take a.nativeCount, a.others.take a.otherCount)

theorem Args.lists_ofLists {natives : List Address} {others : List Bytes} {len : ℕ}
    (h : (Values.controllers (.ofLists natives others len)).Kept) :
    (Args.ofLists natives others len).lists = (natives.map Subtype.val, others) := by
  obtain ⟨hn, ho⟩ := h
  change natives.length ≤ _ at hn
  change others.length ≤ _ at ho
  have hmap : (natives.map Subtype.val).length ≤ maxNativeControllers := by simpa using hn
  simp only [lists, ofLists, filled, if_pos hmap, if_pos ho, List.take_left]
  rw [← @List.length_map _ _ natives Subtype.val, List.take_left]

end SetControllers

theorem Service.toArgs_injective {svc svc' : Service} (h : svc.toArgs = svc'.toArgs) :
    svc = svc' := by
  cases svc
  cases svc'
  cases h
  rfl

/-- An update whose lists are kept is encoded in one way. -/
theorem Op.args_eq_of_values {op op' : Op} (hix : op.ix = op'.ix) (hkept : op.values.Kept)
    (h : op.values = op'.values) : op.args = op'.args := by
  cases op with
  | addVm m =>
    cases op' <;> cases hix
    cases h
    rfl
  | removeVm fragment =>
    cases op' <;> cases hix
    cases h
    rfl
  | setFlags fragment flags =>
    cases op' <;> cases hix
    cases h
    rfl
  | addService svc =>
    cases op' <;> cases hix
    rw [Service.toArgs_injective (Values.service.inj h)]
  | updateService svc =>
    cases op' <;> cases hix
    rw [Service.toArgs_injective (Values.service.inj h)]
  | removeService fragment =>
    cases op' <;> cases hix
    cases h
    rfl
  | setControllers natives others =>
    cases op' with
    | setControllers natives' others' =>
      have hlists := SetControllers.Args.lists_ofLists hkept
      rw [h] at hkept
      have hlists' := SetControllers.Args.lists_ofLists hkept
      rw [← Values.controllers.inj h, hlists, Prod.mk.injEq] at hlists'
      obtain ⟨hnatives, rfl⟩ := hlists'
      rw [Subtype.val_injective.list_map hnatives]
    | _ => cases hix
  | deactivate =>
    cases op' <;> cases hix
    rfl

theorem Ix.args_unique {ix : Ix} {args args' : Bytes} {v : Values} (h : ix.parse args = .ok v)
    (h' : ix.parse args' = .ok v) (hkept : v.Kept) : args = args' := by
  cases hix : ix.isUpdate with
  | true =>
    obtain ⟨op, hop, -, rfl, rfl⟩ := (Ix.parse_update_ok_iff hix).mp h
    obtain ⟨op', hop', -, rfl, hvalues⟩ := (Ix.parse_update_ok_iff hix).mp h'
    exact Op.args_eq_of_values (hop.trans hop'.symm) hkept hvalues
  | false =>
    cases ix with
    | initializeDid =>
      obtain ⟨subject, hparse, rfl⟩ := map_ok_iff.mp h
      obtain ⟨subject', hparse', hsame⟩ := map_ok_iff.mp h'
      rw [subjectArg_ok_iff.mp hparse, subjectArg_ok_iff.mp hparse', Values.subject.inj hsame]
    | initializeOwned =>
      obtain ⟨nonce, hparse, rfl⟩ := map_ok_iff.mp h
      obtain ⟨nonce', hparse', hsame⟩ := map_ok_iff.mp h'
      rw [nonceArg_ok_iff.mp hparse, nonceArg_ok_iff.mp hparse', Values.nonce.inj hsame]
    | createKeyBuffer =>
      obtain ⟨nm, hparse, rfl⟩ := map_ok_iff.mp h
      obtain ⟨nm', hparse', hsame⟩ := map_ok_iff.mp h'
      rw [((whole_ok_iff CreateKeyBuffer.readNewMethod_reads).mp hparse).1,
        ((whole_ok_iff CreateKeyBuffer.readNewMethod_reads).mp hparse').1,
        Values.newMethod.inj hsame]
    | writeKeyBuffer =>
      obtain ⟨⟨n, chunk⟩, hparse, rfl⟩ := map_ok_iff.mp h
      obtain ⟨⟨n', chunk'⟩, hparse', hsame⟩ := map_ok_iff.mp h'
      obtain ⟨offset, rfl, -, hn⟩ := WriteKeyBuffer.parse_ok_iff.mp hparse
      obtain ⟨offset', rfl, -, hn'⟩ := WriteKeyBuffer.parse_ok_iff.mp hparse'
      obtain ⟨rfl, rfl⟩ := Values.chunk.inj hsame
      rw [UInt32.toNat_inj.mp (hn.symm.trans hn')]
    | addVerificationMethodFromBuffer | closeKeyBuffer =>
      obtain ⟨_, hparse, -⟩ := map_ok_iff.mp h
      obtain ⟨_, hparse', -⟩ := map_ok_iff.mp h'
      rw [eval_finish_ok_iff.mp hparse, eval_finish_ok_iff.mp hparse']
    | addVerificationMethod | removeVerificationMethod | setVerificationMethodFlags | addService
    | updateService | removeService | setControllers | deactivate => cases hix

/-! ### What is built -/

theorem ensure_vacant {L : Ledger} {a : Address} (h : L.Vacant a) (e : ProgramError) :
    ensure ((L a).owner == systemProgram && (L a).data.length == 0) e = .ok () := by
  simp [h.1, h.2]

/-- The DID of `subject` exists. -/
def DidExists (P : Platform) (L : Ledger) (subject : Address) : Prop :=
  ∃ did ∈ Client.didAccount P subject, ∃ d, IsDid P L did d ∧ d.subject = subject

/-- The key buffer of `authority` for the DID of `subject` exists. -/
def BufferExists (P : Platform) (L : Ledger) (subject authority : Address) : Prop :=
  ∃ did ∈ Client.didAccount P subject, ∃ buffer ∈ Client.keyBuffer P subject authority,
    ∃ kb, IsBuffer P L buffer kb ∧ kb.didAccount = did ∧ kb.authority = authority

theorem Registered.didAccount {P : Platform} {L : Ledger} {a : Address} {d : Document}
    (hd : Registered P L a d) : Client.didAccount P d.subject = some a := by
  rw [Client.didAccount, hd.found]
  rfl

theorem Staged.keyBuffer {P : Platform} {L : Ledger} {a : Address} {kb : KeyBuffer} {d : Document}
    (hkb : Staged P L a kb) (hd : Registered P L kb.didAccount d) :
    Client.keyBuffer P d.subject kb.authority = some a := by
  rw [Client.keyBuffer, hd.didAccount]
  exact congrArg (Option.map Prod.fst) hkb.found

namespace Builder

variable {P : Platform} {L : Ledger} {did buffer : Address}

/-- The DID and the buffer the instruction is about exist, or are not there yet when it is
to create them. -/
def Named (P : Platform) (L : Ledger) : Builder → Prop
  | initializeDid _ subject => ∀ did ∈ Client.didAccount P subject, L.Vacant did
  | initializeOwned _ authority nonce => ∀ subject ∈ Client.ownedSubject P authority nonce,
      ∀ did ∈ Client.didAccount P subject, L.Vacant did
  | update _ _ subject _ => DidExists P L subject
  | createKeyBuffer _ authority subject _ _ _ _ => DidExists P L subject ∧
      ∀ buffer ∈ Client.keyBuffer P subject authority, L.Vacant buffer
  | writeKeyBuffer authority subject _ _ => BufferExists P L subject authority
  | addVerificationMethodFromBuffer _ authority subject =>
    DidExists P L subject ∧ BufferExists P L subject authority
  | closeKeyBuffer _ authority subject => BufferExists P L subject authority

/-- The addresses of the DID and of the buffer are `did` and `buffer`. -/
def Resolves (P : Platform) (did buffer : Address) : Builder → Prop
  | initializeDid _ subject | update _ _ subject _ => Client.didAccount P subject = some did
  | initializeOwned _ authority nonce => ∃ subject,
      Client.ownedSubject P authority nonce = some subject ∧
        Client.didAccount P subject = some did
  | createKeyBuffer _ authority subject _ _ _ _ | writeKeyBuffer authority subject _ _
  | addVerificationMethodFromBuffer _ authority subject | closeKeyBuffer _ authority subject =>
    Client.didAccount P subject = some did ∧ Client.keyBuffer P subject authority = some buffer

def accounts (did buffer : Address) : Builder → List AccountView
  | initializeDid payer _ =>
    [.writable payer true, .writable did false, .readonly systemProgram false]
  | initializeOwned payer authority _ => [.writable payer true, .readonly authority true,
      .writable did false, .readonly systemProgram false]
  | update payer authority subject op =>
    Request.accounts ⟨payer, authority, subject, none, op⟩ did
  | createKeyBuffer payer authority _ _ _ _ _ | addVerificationMethodFromBuffer payer authority _ =>
    [.writable payer true, .readonly authority true, .writable did false, .writable buffer false,
      .readonly systemProgram false]
  | writeKeyBuffer authority _ _ _ => [.readonly authority true, .writable buffer false]
  | closeKeyBuffer payer authority _ =>
    [.writable payer true, .readonly authority true, .writable buffer false]

theorem bufferAccounts_eq {payer authority subject : Address}
    (hdid : Client.didAccount P subject = some did)
    (hbuffer : Client.keyBuffer P subject authority = some buffer) :
    Client.bufferAccounts P payer authority subject =
      some [.writable payer true, .readonly authority true, .writable did false,
        .writable buffer false, .readonly systemProgram false] := by
  rw [Client.bufferAccounts, hdid, hbuffer]
  rfl

theorem exists_didAccount {subject authority buffer : Address}
    (h : Client.keyBuffer P subject authority = some buffer) :
    ∃ did, Client.didAccount P subject = some did := by
  obtain ⟨did, hdid, -⟩ := Option.bind_eq_some_iff.mp h
  exact ⟨did, hdid⟩

/-- Without an address for the DID there is no instruction. -/
theorem isSome_didAccount_of_base {r : Request} {i : Instruction} (h : r.base P = some i) :
    ∃ did, Client.didAccount P r.subject = some did := by
  have hupdate {accounts : List AccountView}
      (haccounts : Client.updateAccounts P r.payer r.authority r.subject = some accounts) :
      ∃ did, Client.didAccount P r.subject = some did := by
    obtain ⟨did, hdid, -⟩ := Option.bind_eq_some_iff.mp haccounts
    exact ⟨did, hdid⟩
  obtain ⟨payer, authority, subject, via, op⟩ := r
  cases op with
  | setFlags fragment flags =>
    obtain ⟨did, hdid, -⟩ := Option.bind_eq_some_iff.mp h
    exact ⟨did, hdid⟩
  | addVm | removeVm | addService | updateService | removeService | setControllers | deactivate =>
    obtain ⟨accounts, haccounts, -⟩ := Option.bind_eq_some_iff.mp h
    exact hupdate haccounts

theorem base_eq {b : Builder} (h : b.Resolves P did buffer) :
    b.base P = some ⟨programId, b.accounts did buffer, b.ix.discriminator ++ b.args⟩ := by
  cases b with
  | initializeDid payer subject => exact Option.bind_eq_some_iff.mpr ⟨did, h, rfl⟩
  | initializeOwned payer authority nonce =>
    obtain ⟨subject, hsubject, hdid⟩ := h
    refine Option.bind_eq_some_iff.mpr ⟨subject, hsubject, Option.bind_eq_some_iff.mpr ⟨_, ?_, rfl⟩⟩
    exact Option.bind_eq_some_iff.mpr ⟨did, hdid, rfl⟩
  | update payer authority subject op => exact Request.base_eq h
  | createKeyBuffer payer authority subject fragment methodType flags keyLen =>
    rw [base, Client.createKeyBuffer, bufferAccounts_eq h.1 h.2]
    simp [Instruction.new, Instruction.raw, Instruction.str, Instruction.bytes, accounts, ix, args,
      NewMethod.args, lenPrefix, u32Bytes]
  | writeKeyBuffer authority subject offset chunk =>
    rw [base, Client.writeKeyBuffer, h.2]
    simp [Instruction.new, Instruction.raw, Instruction.bytes, accounts, ix, args,
      WriteKeyBuffer.chunkArgs, lenPrefix, u32Bytes]
  | addVerificationMethodFromBuffer payer authority subject =>
    rw [base, Client.addVerificationMethodFromBuffer, bufferAccounts_eq h.1 h.2]
    rfl
  | closeKeyBuffer payer authority subject =>
    rw [base, Client.closeKeyBuffer, h.2]
    rfl

/-- An instruction is built only if there are addresses for its accounts. -/
theorem exists_resolves {b : Builder} {i : Instruction} (h : b.base P = some i) :
    ∃ did buffer, b.Resolves P did buffer := by
  have hbuffer {payer authority subject : Address} {accounts : List AccountView}
      (haccounts : Client.bufferAccounts P payer authority subject = some accounts) :
      ∃ did buffer, Client.didAccount P subject = some did ∧
        Client.keyBuffer P subject authority = some buffer := by
    obtain ⟨did, hdid, hrest⟩ := Option.bind_eq_some_iff.mp haccounts
    obtain ⟨buffer, hbuffer, -⟩ := Option.bind_eq_some_iff.mp hrest
    exact ⟨did, buffer, hdid, hbuffer⟩
  cases b with
  | initializeDid payer subject =>
    obtain ⟨did, hdid, -⟩ := Option.bind_eq_some_iff.mp h
    exact ⟨did, did, hdid⟩
  | initializeOwned payer authority nonce =>
    obtain ⟨subject, hsubject, hrest⟩ := Option.bind_eq_some_iff.mp h
    obtain ⟨accounts, haccounts, -⟩ := Option.bind_eq_some_iff.mp hrest
    obtain ⟨did, hdid, -⟩ := Option.bind_eq_some_iff.mp haccounts
    exact ⟨did, did, subject, hsubject, hdid⟩
  | update payer authority subject op =>
    obtain ⟨did, hdid⟩ := isSome_didAccount_of_base h
    exact ⟨did, did, hdid⟩
  | createKeyBuffer | addVerificationMethodFromBuffer =>
    obtain ⟨accounts, haccounts, -⟩ := Option.bind_eq_some_iff.mp h
    exact hbuffer haccounts
  | writeKeyBuffer | closeKeyBuffer =>
    obtain ⟨buffer, hkeyBuffer, -⟩ := Option.bind_eq_some_iff.mp h
    obtain ⟨did, hdid⟩ := exists_didAccount hkeyBuffer
    exact ⟨did, buffer, hdid, hkeyBuffer⟩

theorem base_eq_some {b : Builder} {i : Instruction} (h : b.base P = some i) :
    ∃ did buffer, b.Resolves P did buffer ∧
      i = ⟨programId, b.accounts did buffer, b.ix.discriminator ++ b.args⟩ := by
  obtain ⟨did, buffer, hresolves⟩ := exists_resolves h
  exact ⟨did, buffer, hresolves, Option.some.inj (h.symm.trans (base_eq hresolves))⟩

/-- The account appended for a controller. -/
def viaView (P : Platform) (via : Option Address) : Option AccountView :=
  via.bind fun s => (Client.didAccount P s).map fun a => .readonly a false

theorem instruction_eq_some {b : Builder} {via : Option Address} {i : Instruction}
    (h : b.instruction P via = some i) : ∃ did buffer, b.Resolves P did buffer ∧
      i = ⟨programId, b.accounts did buffer ++ (viaView P via).toList,
        b.ix.discriminator ++ b.args⟩ := by
  obtain ⟨j, hj, hvia⟩ := Option.bind_eq_some_iff.mp h
  obtain ⟨did, buffer, hresolves, rfl⟩ := base_eq_some hj
  refine ⟨did, buffer, hresolves, ?_⟩
  cases via with
  | none =>
    cases hvia
    simp [viaView]
  | some controller =>
    obtain ⟨account, haccount, hi⟩ := Option.bind_eq_some_iff.mp hvia
    cases hi
    simp [viaView, haccount]

theorem update_instruction {payer authority subject : Address} {op : Op}
    (hdid : Client.didAccount P subject = some did) :
    (update payer authority subject op).instruction P none =
      some ⟨programId, Request.accounts ⟨payer, authority, subject, none, op⟩ did,
        op.ix.discriminator ++ op.args⟩ := by
  have hbase := @Request.base_eq P ⟨payer, authority, subject, none, op⟩ did hdid
  exact Option.bind_eq_some_iff.mpr ⟨_, hbase, rfl⟩

/-! ### The accounts pass the checks -/

theorem exists_findPda {seeds : List Bytes} {a : Address}
    (h : (P.deriveProgramAddress seeds).map Prod.fst = some a) :
    ∃ bump, findPda P seeds = .ok (a, bump) := by
  obtain ⟨⟨b, bump⟩, hfound, hb⟩ := Option.map_eq_some_iff.mp h
  cases hb
  exact ⟨bump, findPda_ok_iff.mpr hfound⟩

theorem initialize_checkAccounts {payer subject : Address} (hvacant : L.Vacant did)
    (hdid : Client.didAccount P subject = some did) :
    Initialize.checkAccounts P L (.writable payer true) (.writable did false)
      (.readonly systemProgram false) subject = .ok () := by
  obtain ⟨bump, hfound⟩ := exists_findPda hdid
  refine except_bind_ok_iff.mpr ⟨(), rfl, except_bind_ok_iff.mpr ⟨(), rfl, ?_⟩⟩
  refine except_bind_ok_iff.mpr ⟨(), rfl, except_bind_ok_iff.mpr ⟨(did, bump), hfound, ?_⟩⟩
  refine except_bind_ok_iff.mpr ⟨(), ensure_eq_ok.mpr (beq_self_eq_true did), ?_⟩
  exact ensure_vacant hvacant _

theorem verifyKeyBuffer_named {subject authority : Address} {bound : Option Address}
    (h : BufferExists P L subject authority) (hdid : Client.didAccount P subject = some did)
    (hbuffer : Client.keyBuffer P subject authority = some buffer)
    (hbound : ∀ x ∈ bound, x = did) :
    verifyKeyBuffer P L (.writable buffer false) authority bound = .ok () := by
  obtain ⟨did', hdid', buffer', hbuffer', kb, hkb, hrecord, hauthority⟩ := h
  cases hdid.symm.trans hdid'
  cases hbuffer.symm.trans hbuffer'
  refine (verifyKeyBuffer_ok_iff hkb).mpr ⟨rfl, hauthority, fun x hx => ?_⟩
  rw [hbound x hx, hrecord]

theorem load_named {subject : Address} (h : DidExists P L subject)
    (hdid : Client.didAccount P subject = some did) (writable : Bool) :
    loadDidAccount P L ⟨did, false, writable⟩ = .ok subject := by
  obtain ⟨did', hdid', d, hd, rfl⟩ := h
  cases hdid.symm.trans hdid'
  exact hd.loadDidAccount rfl

theorem checkAccounts_named {b : Builder} (h : b.Named P L) (hresolves : b.Resolves P did buffer)
    (rest : List AccountView) :
    b.ix.checkAccounts P L (b.accounts did buffer ++ rest) b.args = .ok () := by
  cases b with
  | initializeDid payer subject =>
    refine except_bind_ok_iff.mpr ⟨subject, subjectArg_ok_iff.mpr rfl, ?_⟩
    exact initialize_checkAccounts (h did hresolves) hresolves
  | initializeOwned payer authority nonce =>
    obtain ⟨subject, hsubject, hdid⟩ := hresolves
    obtain ⟨bump, hfound⟩ := exists_findPda hsubject
    refine except_bind_ok_iff.mpr ⟨(), rfl, ?_⟩
    refine except_bind_ok_iff.mpr ⟨nonceBlock nonce, nonceArg_ok_iff.mpr rfl, ?_⟩
    refine except_bind_ok_iff.mpr ⟨(subject, bump), hfound, ?_⟩
    exact initialize_checkAccounts (h subject hsubject did hdid) hdid
  | update payer authority subject op =>
    obtain ⟨did', hdid', d, hd, hsubject⟩ := h
    cases hresolves.symm.trans hdid'
    have hload := @Request.load_ok P L ⟨payer, authority, subject, none, op⟩ did d hd hsubject rest
    rw [ix, Ix.checkAccounts_update op.isUpdate_ix]
    exact except_bind_ok_iff.mpr ⟨_, hload, rfl⟩
  | createKeyBuffer payer authority subject fragment methodType flags keyLen =>
    obtain ⟨hexists, hvacant⟩ := h
    obtain ⟨hdid, hbuffer⟩ := hresolves
    have hseeds := hbuffer
    rw [Client.keyBuffer, hdid] at hseeds
    obtain ⟨bump, hfound⟩ := exists_findPda hseeds
    refine except_bind_ok_iff.mpr ⟨(), rfl, except_bind_ok_iff.mpr ⟨(), rfl, ?_⟩⟩
    refine except_bind_ok_iff.mpr ⟨(), rfl, ?_⟩
    refine except_bind_ok_iff.mpr ⟨subject, load_named hexists hdid true, ?_⟩
    refine except_bind_ok_iff.mpr ⟨(), rfl, except_bind_ok_iff.mpr ⟨(buffer, bump), hfound, ?_⟩⟩
    refine except_bind_ok_iff.mpr ⟨(), ensure_eq_ok.mpr (beq_self_eq_true buffer), ?_⟩
    exact ensure_vacant (hvacant buffer hbuffer) _
  | writeKeyBuffer authority subject offset chunk =>
    refine except_bind_ok_iff.mpr ⟨(), rfl, ?_⟩
    exact verifyKeyBuffer_named h hresolves.1 hresolves.2 nofun
  | addVerificationMethodFromBuffer payer authority subject =>
    obtain ⟨hexists, hstaged⟩ := h
    obtain ⟨hdid, hbuffer⟩ := hresolves
    refine except_bind_ok_iff.mpr ⟨(), rfl, except_bind_ok_iff.mpr ⟨(), rfl, ?_⟩⟩
    refine except_bind_ok_iff.mpr ⟨(), rfl, ?_⟩
    refine except_bind_ok_iff.mpr ⟨subject, load_named hexists hdid true, ?_⟩
    refine verifyKeyBuffer_named hstaged hdid hbuffer ?_
    rintro x ⟨⟩
    rfl
  | closeKeyBuffer payer authority subject =>
    refine except_bind_ok_iff.mpr ⟨(), rfl, except_bind_ok_iff.mpr ⟨(), rfl, ?_⟩⟩
    exact verifyKeyBuffer_named h hresolves.1 hresolves.2 nofun

theorem length_accounts (b : Builder) (did buffer : Address) :
    (b.accounts did buffer).length = b.ix.arity := by
  cases b with
  | update payer authority subject op => cases op <;> rfl
  | _ => rfl

/-- The program takes the instruction `i` for what the builder was given. -/
structure Received (P : Platform) (sv : Sysvars) (L : Ledger) (b : Builder) (via : Option Address)
    (i : Instruction) : Prop where
  data : i.data = b.ix.discriminator ++ b.args
  dispatched : processInstruction P sv i.programId i.accounts i.data =
    handler P sv b.ix i.accounts b.args
  parsed : b.ix.parse b.args = .ok b.values
  checked : b.ix.checkAccounts P L i.accounts b.args = .ok ()
  /-- The controller's account is the one after the instruction's own, and loads if the
  controller's DID exists. -/
  controller : (i.call sv).controller = viaView P via
  loaded : ∀ s ∈ via, ∀ account ∈ viaView P via, DidExists P L s →
    loadDidAccount P L account = .ok s

theorem received (sv : Sysvars) {b : Builder} {via : Option Address} {i : Instruction}
    (hb : b.Encodable) (hnamed : b.Named P L) (hi : b.instruction P via = some i) :
    Received P sv L b via i := by
  obtain ⟨did, buffer, hresolves, rfl⟩ := instruction_eq_some hi
  let c : Call := ⟨b.accounts did buffer ++ (viaView P via).toList,
    b.ix.discriminator ++ b.args, sv⟩
  obtain ⟨hix, hargs⟩ := Call.ix_of_data (show c.data = b.ix.discriminator ++ b.args from rfl)
  refine ⟨rfl, ?_, Ix.parse_ok_iff.mpr ⟨b, rfl, hb, rfl, rfl⟩,
    checkAccounts_named hnamed hresolves _, ?_, fun s hs account haccount hexists => ?_⟩
  · change processInstruction P c.sysvars programId c.accounts c.data = _
    rw [processInstruction_eq, hix, hargs]
    rfl
  · change c.controller = _
    rw [Call.controller, Call.account_eq hix]
    change (b.accounts did buffer ++ (viaView P via).toList)[b.ix.arity]? = _
    rw [← b.length_accounts did buffer, List.getElem?_append_right le_rfl, Nat.sub_self]
    cases viaView P via <;> rfl
  · cases hs
    obtain ⟨a, ha, rfl⟩ := Option.map_eq_some_iff.mp haccount
    exact load_named hexists ha false

end Builder

/-! ### What goes through was built -/

section Accepted

variable {P : Platform} {sv : Sysvars} {accounts : List AccountView} {args : Bytes}
  {m m' : Machine}

/-- The check of a new pair of lists looks at both of them. -/
theorem SetControllers.kept_of_check {subject : Address} {doc : DidView} {a : Args} {tail : Tail}
    (h : check subject doc a = .ok tail) : (Values.controllers a).Kept := by
  obtain ⟨_, hfits, -⟩ := except_bind_ok_iff.mp h
  change a.nativeCount ≤ maxNativeControllers ∧ a.otherCount ≤ maxOtherControllers
  simpa using require_eq_ok.mp hfits

theorem Ix.kept_of_run {u : Update} {ix : Ix} {v : Values} (hparse : ix.parse args = .ok v)
    (h : Op.run P sv u args ix m = .ok () m') : v.Kept := by
  cases ix with
  | setControllers =>
    obtain ⟨a, ha, rfl⟩ := map_ok_iff.mp hparse
    simp only [Op.run, updateDocument, lift_bind_ok_iff, Exec.ledger_bind] at h
    obtain ⟨a', ha', view, -, _, -, plan, hcheck, -⟩ := h
    cases ha.symm.trans ha'
    exact SetControllers.kept_of_check hcheck
  | _ =>
    obtain ⟨_, -, rfl⟩ := map_ok_iff.mp hparse
    trivial

theorem checkPayer_ok {payer : AccountView} (hsigner : payer.isSigner = true)
    (hwritable : payer.isWritable = true) : checkPayer payer = .ok () :=
  except_bind_ok_iff.mpr ⟨(), ensure_eq_ok.mpr hsigner, ensure_eq_ok.mpr hwritable⟩

theorem checkAccounts_of_materializes {payer did system : AccountView} {subject key : Address}
    (hroles : payer.isSigner = true ∧ payer.isWritable = true ∧ system.address = systemProgram ∧
      did.isWritable = true) (h : Materializes P sv payer did subject key m m') :
    Initialize.checkAccounts P m.ledger payer did system subject = .ok () := by
  obtain ⟨hsigner, hwritable, hsystem, hdid⟩ := hroles
  obtain ⟨bump, need, now, L₁, hfound, howner, hdata, -⟩ := h
  refine except_bind_ok_iff.mpr ⟨(), checkPayer_ok hsigner hwritable, ?_⟩
  refine except_bind_ok_iff.mpr ⟨(), ensure_eq_ok.mpr (beq_iff_eq.mpr hsystem), ?_⟩
  refine except_bind_ok_iff.mpr ⟨(), ensure_eq_ok.mpr hdid, ?_⟩
  refine except_bind_ok_iff.mpr ⟨(did.address, bump), findPda_ok_iff.mpr hfound, ?_⟩
  refine except_bind_ok_iff.mpr ⟨(), ensure_eq_ok.mpr (beq_self_eq_true did.address), ?_⟩
  exact ensure_vacant ⟨howner, hdata⟩ _

/-- The arguments parse to values that the arrays hold, and the accounts pass their checks. -/
def Ix.Receives (P : Platform) (L : Ledger) (ix : Ix) (accounts : List AccountView)
    (args : Bytes) : Prop :=
  ∃ v, ix.parse args = .ok v ∧ v.Kept ∧ ix.checkAccounts P L accounts args = .ok ()

theorem Ix.initializeDid_received (hP : P.Lawful)
    (h : handler P sv .initializeDid accounts args m = .ok () m') :
    Ix.Receives P m.ledger .initializeDid accounts args := by
  obtain ⟨payer, did, system, rest, subject, rfl, rfl, -, hroles, hmade⟩ :=
    (initialize_ok_iff hP).mp h
  refine ⟨.subject subject, map_ok_iff.mpr ⟨subject, subjectArg_ok_iff.mpr rfl, rfl⟩,
    trivial, ?_⟩
  refine except_bind_ok_iff.mpr ⟨subject, subjectArg_ok_iff.mpr rfl, ?_⟩
  exact checkAccounts_of_materializes hroles hmade

theorem Ix.initializeOwned_received (hP : P.Lawful)
    (h : handler P sv .initializeOwned accounts args m = .ok () m') :
    Ix.Receives P m.ledger .initializeOwned accounts args := by
  obtain ⟨payer, authority, did, system, rest, nonce, subject, bump, rfl, rfl, hsigned, hfound,
    hroles, hmade⟩ := (initializeOwned_ok_iff hP).mp h
  refine ⟨.nonce nonce, map_ok_iff.mpr ⟨nonce, nonceArg_ok_iff.mpr rfl, rfl⟩, trivial, ?_⟩
  refine except_bind_ok_iff.mpr ⟨(), ensure_eq_ok.mpr hsigned, ?_⟩
  refine except_bind_ok_iff.mpr ⟨nonce, nonceArg_ok_iff.mpr rfl, ?_⟩
  refine except_bind_ok_iff.mpr ⟨(subject, bump), findPda_ok_iff.mpr hfound, ?_⟩
  exact checkAccounts_of_materializes hroles hmade

theorem Ix.createKeyBuffer_received (hP : P.Lawful)
    (h : handler P sv .createKeyBuffer accounts args m = .ok () m') :
    Ix.Receives P m.ledger .createKeyBuffer accounts args := by
  obtain ⟨payer, authority, did, buffer, system, rest, rfl⟩ := createKeyBuffer_accounts h
  obtain ⟨⟨hsigner, hwritable, hsigned, hsystem, hbuffer⟩, d, nm, kb, rfl, hnm, hopens, -⟩ :=
    (createKeyBuffer_ok_iff hP).mp h
  refine ⟨.newMethod nm, map_ok_iff.mpr ⟨nm,
    (whole_ok_iff CreateKeyBuffer.readNewMethod_reads).mpr ⟨rfl, hnm⟩, rfl⟩, trivial, ?_⟩
  refine except_bind_ok_iff.mpr ⟨(), checkPayer_ok hsigner hwritable, ?_⟩
  refine except_bind_ok_iff.mpr ⟨(), ensure_eq_ok.mpr hsigned, ?_⟩
  refine except_bind_ok_iff.mpr ⟨(), ensure_eq_ok.mpr (beq_iff_eq.mpr hsystem), ?_⟩
  refine except_bind_ok_iff.mpr ⟨d.subject, hopens.isDid.loadDidAccount rfl, ?_⟩
  refine except_bind_ok_iff.mpr ⟨(), ensure_eq_ok.mpr hbuffer, ?_⟩
  refine except_bind_ok_iff.mpr ⟨_, findPda_ok_iff.mpr hopens.found, ?_⟩
  refine except_bind_ok_iff.mpr ⟨(), ensure_eq_ok.mpr (beq_self_eq_true buffer.address), ?_⟩
  exact ensure_vacant hopens.vacant _

theorem Ix.writeKeyBuffer_received (h : handler P sv .writeKeyBuffer accounts args m = .ok () m') :
    Ix.Receives P m.ledger .writeKeyBuffer accounts args := by
  obtain ⟨authority, buffer, rest, rfl⟩ := writeKeyBuffer_accounts h
  change WriteKeyBuffer.process P (authority :: buffer :: rest) args m = _ at h
  simp only [WriteKeyBuffer.process, Exec.ledger_bind, lift_bind_ok_iff] at h
  obtain ⟨_, hsigned, found, hcheck, a, hparse, -⟩ := h
  refine ⟨.chunk a.1 a.2, map_ok_iff.mpr ⟨a, hparse, rfl⟩, trivial, ?_⟩
  refine except_bind_ok_iff.mpr ⟨(), hsigned, ?_⟩
  exact except_bind_ok_iff.mpr ⟨found, hcheck, rfl⟩

theorem Ix.finish_received
    (h : handler P sv .addVerificationMethodFromBuffer accounts args m = .ok () m') :
    Ix.Receives P m.ledger .addVerificationMethodFromBuffer accounts args := by
  obtain ⟨payer, authority, did, buffer, system, rest, rfl⟩ := finish_accounts h
  change AddVerificationMethodFromBuffer.process P sv
    (payer :: authority :: did :: buffer :: system :: rest) args m = _ at h
  simp only [AddVerificationMethodFromBuffer.process, Exec.ledger_bind, lift_bind_ok_iff] at h
  obtain ⟨_, hparse, _, hpayer, _, hsigned, _, hsystem, subject, hload, _, hverify, -⟩ := h
  refine ⟨.nothing, map_ok_iff.mpr ⟨(), hparse, rfl⟩, trivial, ?_⟩
  refine except_bind_ok_iff.mpr ⟨(), hpayer, except_bind_ok_iff.mpr ⟨(), hsigned, ?_⟩⟩
  refine except_bind_ok_iff.mpr ⟨(), hsystem, ?_⟩
  exact except_bind_ok_iff.mpr ⟨subject, hload, hverify⟩

theorem Ix.closeKeyBuffer_received (h : handler P sv .closeKeyBuffer accounts args m = .ok () m') :
    Ix.Receives P m.ledger .closeKeyBuffer accounts args := by
  obtain ⟨payer, authority, buffer, rest, rfl⟩ := closeKeyBuffer_accounts h
  change CloseKeyBuffer.process P (payer :: authority :: buffer :: rest) args m = _ at h
  simp only [CloseKeyBuffer.process, Exec.ledger_bind, lift_bind_ok_iff] at h
  obtain ⟨_, hparse, _, hpayer, _, hsigned, _, hverify, -⟩ := h
  refine ⟨.nothing, map_ok_iff.mpr ⟨(), hparse, rfl⟩, trivial, ?_⟩
  exact except_bind_ok_iff.mpr ⟨(), hpayer, except_bind_ok_iff.mpr ⟨(), hsigned, hverify⟩⟩

/-- A handler that succeeds has parsed its arguments and checked its accounts. -/
theorem Ix.received_of_run (hP : P.Lawful) {ix : Ix}
    (h : handler P sv ix accounts args m = .ok () m') : ix.Receives P m.ledger accounts args := by
  cases hix : ix.isUpdate with
  | true =>
    rw [handler_update_eq hix, lift_bind_ok_iff] at h
    obtain ⟨u, hload, hrun⟩ := h
    obtain ⟨op, rfl, rfl, hop, -⟩ := Op.exists_of_run hrun
    have hparse := (Ix.parse_update_ok_iff hix).mpr ⟨op, rfl, hop, rfl, rfl⟩
    refine ⟨op.values, hparse, Ix.kept_of_run hparse hrun, ?_⟩
    rw [Ix.checkAccounts_update hix]
    exact except_bind_ok_iff.mpr ⟨u, hload, rfl⟩
  | false =>
    cases ix with
    | initializeDid => exact Ix.initializeDid_received hP h
    | initializeOwned => exact Ix.initializeOwned_received hP h
    | createKeyBuffer => exact Ix.createKeyBuffer_received hP h
    | writeKeyBuffer => exact Ix.writeKeyBuffer_received h
    | addVerificationMethodFromBuffer => exact Ix.finish_received h
    | closeKeyBuffer => exact Ix.closeKeyBuffer_received h
    | addVerificationMethod | removeVerificationMethod | setVerificationMethodFlags | addService
    | updateService | removeService | setControllers | deactivate => cases hix

/-- The data of a call is the discriminator of its instruction and the arguments. -/
theorem Call.data_of_ix {c : Call} {ix : Ix} (h : c.ix = some ix) :
    c.data = ix.discriminator ++ c.args := by
  unfold Call.ix at h
  split_ifs at h
  have hfound : Ix.all.find? (fun ix => ix.discriminator == c.data.take 8) = some ix := h
  have hsame := List.find?_some hfound
  have hdisc : ix.discriminator = c.data.take 8 := beq_iff_eq.mp hsame
  rw [hdisc, Call.args, List.take_append_drop]

end Accepted

end BioDidRegistry
