import BioDidRegistry.Document.KeyBuffer
import BioDidRegistry.Registry.Creation
import BioDidRegistry.Registry.Handlers

/-!
# What the key buffer instructions do

A buffer account is opened empty, filled in order, and leaves the ledger when its
method enters the document or when its authority discards it.
-/

namespace BioDidRegistry

open BinaryFormat Verdict Reader

variable {P : Platform} {sv : Sysvars} {L L' : Ledger}

/-- The account at `a` is the `KeyBuffer` of `kb`. -/
structure IsBuffer (P : Platform) (L : Ledger) (a : Address) (kb : KeyBuffer) : Prop where
  owner : (L a).owner = programId
  data_eq : (L a).data = kb.encode
  address : P.deriveAddress [keyBufferSeed, kb.didAccount.val, kb.authority.val] kb.bump = a

theorem IsBuffer.unique {P : Platform} {L : Ledger} {a : Address} {kb kb' : KeyBuffer}
    (h : IsBuffer P L a kb) (h' : IsBuffer P L a kb') : kb = kb' :=
  KeyBuffer.encode_injective (h.data_eq.symm.trans h'.data_eq)

theorem IsBuffer.take_data {P : Platform} {L : Ledger} {a : Address} {kb : KeyBuffer}
    (h : IsBuffer P L a kb) : (L a).data.take 8 = keyBufferDiscriminator := by
  rw [h.data_eq, kb.take_discriminator]

/-! ### The layout under the writes -/

theorem writeHeader_eq (didAccount authority : Address) (bump : UInt8) (m : NewMethod)
    (hfragment : m.fragment.length ≤ maxFragmentLen) (hkeyLen : m.keyLen < 2 ^ 32) :
    CreateKeyBuffer.writeHeader (List.replicate (keyBufferHeader + m.keyLen) 0) didAccount
        authority bump m =
      .ok (KeyBuffer.opened didAccount authority bump m hfragment hkeyLen).encode := by
  have hdid := didAccount.length_eq
  have hauthority := authority.length_eq
  have hdisc : keyBufferDiscriminator.length = 8 := rfl
  have hle : m.fragment.length ≤ 32 := hfragment
  have hzeros : List.replicate (keyBufferHeader + m.keyLen) (0 : UInt8) =
      [] ++ List.replicate (88 + m.fragment.length) 0 ++
        List.replicate (32 - m.fragment.length + m.keyLen) 0 := by
    rw [List.nil_append, ← List.replicate_add, keyBufferHeader]
    congr 1
    omega
  have hlen : (List.replicate (keyBufferHeader + m.keyLen) (0 : UInt8)).length =
      120 + m.keyLen := by
    rw [List.length_replicate, keyBufferHeader]
  unfold CreateKeyBuffer.writeHeader
  simp only [kbOffDidAccount, kbOffAuthority, kbOffBump, kbOffMethodType, kbOffFlags, kbOffKeyLen,
    kbOffWritten, kbOffFragmentLen, kbOffFragment]
  -- Each write begins where the one before it ended.
  iterate 8
    rw [writeAt_bind_writeAt (by simp [hdisc, hdid, hauthority])
      (by rw [hlen]; simp [hdisc, hdid, hauthority]; omega)]
  rw [writeAt_writeAt (by simp [hdisc, hdid, hauthority])
    (by rw [hlen]; simp [hdisc, hdid, hauthority]; omega), hzeros,
    writeAt_append List.length_nil.symm (by simp [hdisc, hdid, hauthority]; omega)]
  simp [KeyBuffer.encode, KeyBuffer.header, KeyBuffer.keyField, KeyBuffer.fragmentField,
    KeyBuffer.opened, maxFragmentLen]

theorem writeChunk_run (kb : KeyBuffer) (chunk : Bytes)
    (h : kb.received.length + chunk.length ≤ kb.method.keyLen) :
    (do
      let data ← writeAt kb.encode (kbOffKey + kb.received.length) chunk
      writeAt data kbOffWritten (u32Bytes (kb.received.length + chunk.length))) =
      .ok (kb.append chunk h).encode := by
  have hzeros : List.replicate (kb.method.keyLen - kb.received.length) (0 : UInt8) =
      List.replicate chunk.length 0 ++
        List.replicate (kb.method.keyLen - (kb.received.length + chunk.length)) 0 := by
    rw [← List.replicate_add]
    congr 1
    omega
  have hsplit : kb.encode = (kb.header ++ kb.received) ++ List.replicate chunk.length 0 ++
      List.replicate (kb.method.keyLen - (kb.received.length + chunk.length)) 0 := by
    rw [KeyBuffer.encode, KeyBuffer.keyField, hzeros]
    simp only [List.append_assoc]
  have hkey : kbOffKey + kb.received.length = (kb.header ++ kb.received).length := by
    rw [List.length_append, kb.length_header]
    rfl
  have hwritten : (kb.header ++ kb.received) ++ chunk ++
      List.replicate (kb.method.keyLen - (kb.received.length + chunk.length)) 0 =
      (keyBufferDiscriminator ++ kb.didAccount.val ++ kb.authority.val ++ [kb.bump] ++
        [kb.method.methodType] ++ u16Bytes kb.method.flags ++ u32Bytes kb.method.keyLen) ++
        u32Bytes kb.received.length ++
        (u32Bytes kb.method.fragment.length ++ kb.fragmentField ++
          (kb.append chunk h).keyField) := by
    simp only [KeyBuffer.header, KeyBuffer.keyField, KeyBuffer.append, List.append_assoc,
      List.length_append]
  rw [hsplit, writeAt_append hkey (by simp), except_bind_ok, hwritten,
    writeAt_append (by simp [kbOffWritten, keyBufferDiscriminator, kb.didAccount.length_eq,
      kb.authority.length_eq]) (by simp)]
  simp only [KeyBuffer.encode, KeyBuffer.header, KeyBuffer.append, KeyBuffer.fragmentField,
    List.append_assoc, List.length_append]

/-- A chunk is taken exactly when it continues the bytes received and fits the key. -/
theorem writeChunk_ok_iff (kb : KeyBuffer) {offset : ℕ} {chunk data : Bytes} :
    WriteKeyBuffer.writeChunk kb.encode kb.received.length kb.method.keyLen (offset, chunk) =
        .ok data ↔
      (chunk ≠ [] ∧ offset = kb.received.length) ∧
        ∃ h : kb.received.length + chunk.length ≤ kb.method.keyLen,
          data = (kb.append chunk h).encode := by
  have hlt := kb.keyLen_lt
  unfold WriteKeyBuffer.writeChunk
  simp only [except_bind_ok_iff, require_eq_ok, Bool.and_eq_true, Bool.not_eq_true',
    List.isEmpty_eq_false_iff, beq_iff_eq, checkedAdd_eq_ok, decide_eq_true_eq, addUsize_eq_ok]
  constructor
  · rintro ⟨_, ⟨hne, rfl⟩, last, ⟨-, rfl⟩, _, hle, pos, ⟨-, rfl⟩, d, hkey, hwritten⟩
    have hrun := writeChunk_run kb chunk hle
    rw [hkey, except_bind_ok, hwritten] at hrun
    exact ⟨⟨hne, rfl⟩, hle, Except.ok.inj hrun⟩
  · rintro ⟨⟨hne, rfl⟩, hle, rfl⟩
    have hrun := writeChunk_run kb chunk hle
    obtain ⟨d, hkey, hwritten⟩ := except_bind_ok_iff.mp hrun
    refine ⟨(), ⟨hne, rfl⟩, _, ⟨by omega, rfl⟩, (), hle, _, ⟨?_, rfl⟩, d, hkey, hwritten⟩
    rw [kbOffKey]
    omega

/-! ### Accounts that hold a buffer -/

namespace IsBuffer

variable {a : Address} {kb : KeyBuffer} (h : IsBuffer P L a kb)

include h

theorem parse : KeyBufferRef.parse (L a).data = .ok kb.ref := by
  rw [h.data_eq, kb.parse_encode]

/-- The check of a buffer, asked of what it records. -/
theorem checkKeyBuffer_ok_iff {view : AccountView} (ha : view.address = a) {authority : Address}
    {did : Option Address} {found : ℕ × ℕ} :
    checkKeyBuffer P L view authority did = .ok found ↔
      view.isWritable = true ∧ kb.authority = authority ∧ (∀ x ∈ did, kb.didAccount = x) ∧
        found = (kb.received.length, kb.method.keyLen) := by
  subst ha
  have hdata : (decide (keyBufferHeader ≤ (L view.address).data.length) &&
      (L view.address).data.take 8 == keyBufferDiscriminator) = true := by
    rw [h.data_eq, kb.take_discriminator, kb.length_encode]
    simp
  have haddress : view.address =
      P.deriveAddress [keyBufferSeed, kb.ref.didAccount.val, kb.ref.authority.val] kb.ref.bump :=
    h.address.symm
  cases did with
  | none =>
    simp only [checkKeyBuffer, except_bind_ok_iff, ensure_eq_ok, hdata, h.owner, h.parse,
      require_eq_ok, beq_iff_eq, except_pure, Except.ok.injEq]
    constructor
    · rintro ⟨_, hw, _, -, _, -, _, rfl, _, hauthority, _, -, rfl⟩
      exact ⟨hw, hauthority, by simp, rfl⟩
    · rintro ⟨hw, hauthority, -, rfl⟩
      exact ⟨(), hw, (), trivial, (), trivial, kb.ref, rfl, (), hauthority, (), haddress, rfl⟩
  | some x =>
    simp only [checkKeyBuffer, except_bind_ok_iff, ensure_eq_ok, hdata, h.owner, h.parse,
      require_eq_ok, beq_iff_eq, except_pure, Except.ok.injEq]
    constructor
    · rintro ⟨_, hw, _, -, _, -, _, rfl, _, hauthority, _, hdid, _, -, rfl⟩
      exact ⟨hw, hauthority, fun y hy => hdid.trans (Option.some.inj hy), rfl⟩
    · rintro ⟨hw, hauthority, hdid, rfl⟩
      exact ⟨(), hw, (), trivial, (), trivial, kb.ref, rfl, (), hauthority, (), hdid x rfl, (),
        haddress, rfl⟩

end IsBuffer

/-! ### Opening -/

def NewMethod.args (m : NewMethod) : Bytes :=
  lenPrefix m.fragment ++ [m.methodType] ++ u16Bytes m.flags ++ u32Bytes m.keyLen

/-- The arguments have borsh encodings, and the program knows the method type. -/
def NewMethod.Encodable (m : NewMethod) : Prop := IsStr m.fragment ∧ m.keyLen < 2 ^ 32

namespace CreateKeyBuffer

/-- The arguments as a method without its key. -/
def readNewMethod : Read .args NewMethod := do
  let fragment ← str
  let methodType ← u8
  let flags ← u16
  let keyLen ← u32
  pure ⟨fragment, methodType, flags, keyLen.toNat⟩

theorem readNewMethod_reads : Reads readNewMethod NewMethod.args NewMethod.Encodable := by
  intro r m r'
  simp only [readNewMethod, str_reads.bind_ok_iff, u8_reads.bind_ok_iff, u16_reads.bind_ok_iff,
    u32_reads.bind_ok_iff, pure_ok_iff, NewMethod.args, u16Bytes, u32Bytes, append_prefix_iff,
    cursor_rest, rest_skip, true_and, Cursor.advance_advance, List.length_append]
  constructor
  · rintro ⟨fragment, ⟨hf, hpf⟩, t, ht, flags, hfl, keyLen, hk, rfl, rfl⟩
    exact ⟨⟨hf, keyLen.toNat_lt⟩, ⟨⟨⟨hpf, ht⟩, hfl⟩, hk⟩, rfl⟩
  · rintro ⟨⟨hf, hlt⟩, ⟨⟨⟨hpf, ht⟩, hfl⟩, hk⟩, rfl⟩
    have hto : (UInt32.ofNat m.keyLen).toNat = m.keyLen := UInt32.toNat_ofNat_of_lt hlt
    exact ⟨_, ⟨hf, hpf⟩, _, ht, _, hfl, UInt32.ofNat m.keyLen, by rwa [hto], by rw [hto],
      by rw [hto]⟩

theorem parse_eq : parse = (readNewMethod >>= fun m => finish >>= fun _ =>
    liftM (ensure (expectedKeyLen m.methodType).isSome .invalidInstructionData >>= fun _ =>
      Except.ok m)) := by
  simp only [parse, readNewMethod, bind_assoc, pure_bind, liftM_bind]
  rfl

theorem parse_ok_iff {args : Bytes} {m : NewMethod} : eval parse (new .args args) = .ok m ↔
    args = m.args ∧ m.Encodable ∧ (expectedKeyLen m.methodType).isSome = true := by
  rw [parse_eq, eval_whole_ok_iff readNewMethod_reads]
  simp only [except_bind_ok_iff, ensure_eq_ok, Except.ok.injEq, exists_const]
  constructor
  · rintro ⟨_, hargs, hm, hknown, rfl⟩
    exact ⟨hargs, hm, hknown⟩
  · rintro ⟨hargs, hm, hknown⟩
    exact ⟨m, hargs, hm, hknown, rfl⟩

end CreateKeyBuffer

/-- The buffer of `authority` for the DID of `d` opened for `nm`. -/
structure Opens (P : Platform) (sv : Sysvars) (payer authority did buffer : AccountView)
    (controller : Option AccountView) (d : Document) (nm : NewMethod) (kb : KeyBuffer)
    (L L' : Ledger) : Prop where
  isDid : IsDid P L did.address d
  authorized : Authorized P L d authority.address controller
  admitted : d.body.admits nm = .ok ()
  record : kb.didAccount = did.address ∧ kb.authority = authority.address ∧ kb.method = nm ∧
    kb.received = []
  found : P.deriveProgramAddress [keyBufferSeed, did.address.val, authority.address.val] =
    some (buffer.address, kb.bump)
  vacant : L.Vacant buffer.address
  created : ∃ need L₁, rentMinimumBalance P sv (keyBufferHeader + nm.keyLen) = .ok need ∧
    Funds L payer buffer need L₁ ∧ L' = L₁.create buffer.address kb.encode

theorem KeyBuffer.eq_opened (kb : KeyBuffer) {did authority : Address} {nm : NewMethod}
    (h : kb.didAccount = did ∧ kb.authority = authority ∧ kb.method = nm ∧ kb.received = []) :
    ∃ hf hk, kb = KeyBuffer.opened did authority kb.bump nm hf hk := by
  obtain ⟨d, a, bump, method, received, hle, hf, hk⟩ := kb
  obtain ⟨rfl, rfl, rfl, rfl⟩ := h
  exact ⟨hf, hk, rfl⟩

theorem fits_of_admits {b : Body} {nm : NewMethod} {u : Unit} (h : b.admits nm = .ok u) :
    nm.fragment.length ≤ maxFragmentLen ∧ nm.keyLen ≤ 2592 := by
  obtain ⟨-, hfragment, -, -, hlen, -⟩ := Body.admits_ok_iff.mp h
  exact ⟨(validFragment_iff.mp hfragment).1.2, (expectedKeyLen_eq_some_iff.mp hlen).le⟩

theorem createKeyBuffer_ok_iff (hP : P.Lawful) {payer authority did buffer system : AccountView}
    {rest : List AccountView} {args : Bytes} {m m' : Machine} {u : Unit} :
    CreateKeyBuffer.process P sv (payer :: authority :: did :: buffer :: system :: rest) args m =
        .ok u m' ↔
      (payer.isSigner = true ∧ payer.isWritable = true ∧ authority.isSigner = true ∧
        system.address = systemProgram ∧ buffer.isWritable = true) ∧
      ∃ d nm kb, args = nm.args ∧ nm.Encodable ∧
        Opens P sv payer authority did buffer rest.head? d nm kb m.ledger m'.ledger ∧
        m'.log = m.log := by
  simp only [CreateKeyBuffer.process, Exec.ledger_bind, lift_bind_ok_iff, checkPayer,
    checkAuthoritySigner, checkSystemProgram, except_bind_ok_iff, ensure_eq_ok, beq_iff_eq,
    Bool.and_eq_true, findPda_ok_iff, CreateKeyBuffer.parse_ok_iff, addUsize_eq_ok]
  constructor
  · rintro ⟨_, ⟨_, hsigner, hwritable⟩, _, hauthority, _, hsystem, s, hload, _, hbuffer, nm,
      ⟨hargs, hnm, -⟩, view, hview, _, hauth, _, hadmits, ⟨pda, bump⟩, hfind, _, haddress, _,
      ⟨howner, hempty⟩, space, ⟨-, rfl⟩, need, hneed, hrun⟩
    obtain ⟨d, hd, -, hshows⟩ := isDid_of_load hload hview
    obtain ⟨_, hadmitted, -⟩ := (hadmits ▸ hshows.checkNewMethod_agrees nm).of_ok
    obtain ⟨hfragment, hkeyLen⟩ := fits_of_admits hadmitted
    dsimp only at haddress hrun
    subst haddress
    obtain ⟨_, _, hcreate, hrest⟩ := bind_ok_iff.mp hrun
    have hspace : keyBufferHeader + nm.keyLen ≤ maxPermittedDataIncrease := by
      rw [keyBufferHeader, maxPermittedDataIncrease]
      omega
    obtain ⟨L₁, hfunds, rfl⟩ := (createProgramAccount_ok_iff hP hfind howner
      (List.length_eq_zero_iff.mp hempty) hspace).mp hcreate
    simp only [Exec.borrow_bind, lift_bind_ok_iff, Ledger.create_data, ensure_eq_ok,
      writeHeader_eq _ _ _ nm hfragment hnm.2, Except.ok.injEq, exists_eq_left'] at hrest
    obtain ⟨_, -, hstore⟩ := hrest
    cases hstore
    refine ⟨⟨hsigner, hwritable, hauthority, hsystem, hbuffer⟩, d, nm,
      .opened did.address authority.address bump nm hfragment hnm.2, hargs, hnm,
      ⟨hd, (authorize_ok_iff hshows).mp hauth, hadmitted, ⟨rfl, rfl, rfl, rfl⟩, hfind,
        ⟨howner, List.length_eq_zero_iff.mp hempty⟩, need, L₁, hneed, hfunds, ?_⟩, rfl⟩
    exact Ledger.create_store ..
  · rintro ⟨⟨hsigner, hwritable, hauthority, hsystem, hbuffer⟩, d, nm, kb, hargs, hnm,
      ⟨hd, hauth, hadmitted, hrecord, hfind, ⟨howner, hdata⟩, need, L₁, hneed, hfunds, hL'⟩, hlog⟩
    obtain ⟨view, hview, hshows⟩ := hd.exists_view
    obtain ⟨_, hcheck, -⟩ := (hadmitted ▸ hshows.checkNewMethod_agrees nm).ok_of
    obtain ⟨hfragment, hkeyLen⟩ := fits_of_admits hadmitted
    obtain ⟨-, -, -, -, hknown, -⟩ := Body.admits_ok_iff.mp hadmitted
    have hspace : keyBufferHeader + nm.keyLen ≤ maxPermittedDataIncrease := by
      rw [keyBufferHeader, maxPermittedDataIncrease]
      omega
    refine ⟨(), ⟨(), hsigner, hwritable⟩, (), hauthority, (), hsystem, d.subject,
      hd.loadDidAccount rfl, (), hbuffer, nm, ⟨hargs, hnm, by rw [hknown]; rfl⟩, view, hview, (),
      (authorize_ok_iff hshows).mpr hauth, (), hcheck, (buffer.address, kb.bump), hfind, (), rfl,
      (), ⟨howner, by rw [hdata]; rfl⟩, _, ⟨?_, rfl⟩, need, hneed, ?_⟩
    · rw [keyBufferHeader]
      omega
    · rw [bind_of_ok ((createProgramAccount_ok_iff hP (u := ()) hfind howner hdata hspace).mpr
        ⟨L₁, hfunds, rfl⟩)]
      simp only [Exec.borrow_bind, lift_bind_ok_iff, Ledger.create_data, ensure_eq_ok,
        writeHeader_eq _ _ _ nm hfragment hnm.2, Except.ok.injEq, exists_eq_left',
        List.length_replicate, beq_self_eq_true, exists_const, true_and]
      obtain ⟨_, _, hkb⟩ := kb.eq_opened hrecord
      obtain ⟨L', log⟩ := m'
      dsimp only at hL' hlog
      rw [hL', hlog, hkb]
      change EStateM.Result.ok _ _ = _
      rw [Ledger.create_store]
      rfl

/-! ### Writing -/

namespace WriteKeyBuffer

def chunkArgs (offset : UInt32) (chunk : Bytes) : Bytes :=
  u32Bytes offset.toNat ++ lenPrefix chunk

def readChunk : Read .args (UInt32 × Bytes) := do
  let offset ← u32
  let chunk ← lenPrefixed
  pure (offset, chunk)

theorem readChunk_reads :
    Reads readChunk (fun a => chunkArgs a.1 a.2) fun a => a.2.length < 2 ^ 32 := by
  intro r a r'
  simp only [readChunk, u32_reads.bind_ok_iff, lenPrefixed_reads.bind_ok_iff, pure_ok_iff,
    chunkArgs, u32Bytes, append_prefix_iff, cursor_rest, rest_skip, true_and,
    Cursor.advance_advance, List.length_append]
  constructor
  · rintro ⟨offset, ho, chunk, ⟨hc, hpc⟩, rfl, rfl⟩
    exact ⟨hc, ⟨ho, hpc⟩, rfl⟩
  · rintro ⟨hc, ⟨ho, hpc⟩, rfl⟩
    exact ⟨_, ho, _, ⟨hc, hpc⟩, rfl, rfl⟩

theorem parse_ok_iff {args : Bytes} {a : ℕ × Bytes} : eval parse (new .args args) = .ok a ↔
    ∃ offset : UInt32, args = chunkArgs offset a.2 ∧ a.2.length < 2 ^ 32 ∧
      a.1 = offset.toNat := by
  have hparse : parse = (readChunk >>= fun a => finish >>= fun _ =>
      liftM (Except.ok (a.1.toNat, a.2) : Except Fault (ℕ × Bytes))) := by
    simp only [parse, readChunk, bind_assoc, pure_bind]
    rfl
  rw [hparse, eval_whole_ok_iff readChunk_reads]
  constructor
  · rintro ⟨⟨offset, chunk⟩, hargs, hlen, hc⟩
    cases hc
    exact ⟨offset, hargs, hlen, rfl⟩
  · rintro ⟨offset, hargs, hlen, hoffset⟩
    exact ⟨(offset, a.2), hargs, hlen, by rw [← hoffset]⟩

end WriteKeyBuffer

theorem writeKeyBuffer_ok_iff {authority buffer : AccountView} {rest : List AccountView}
    {args : Bytes} {m m' : Machine} {u : Unit} {kb : KeyBuffer}
    (hkb : IsBuffer P m.ledger buffer.address kb) :
    WriteKeyBuffer.process P (authority :: buffer :: rest) args m = .ok u m' ↔
      (authority.isSigner = true ∧ buffer.isWritable = true ∧ kb.authority = authority.address) ∧
      ∃ (offset : UInt32) (chunk : Bytes), args = WriteKeyBuffer.chunkArgs offset chunk ∧
        chunk ≠ [] ∧ offset.toNat = kb.received.length ∧
        ∃ h : kb.received.length + chunk.length ≤ kb.method.keyLen,
          m' = ⟨m.ledger.store buffer.address (kb.append chunk h).encode, m.log⟩ := by
  simp only [WriteKeyBuffer.process, Exec.ledger_bind, lift_bind_ok_iff, checkAuthoritySigner,
    ensure_eq_ok, hkb.checkKeyBuffer_ok_iff rfl, WriteKeyBuffer.parse_ok_iff, Exec.borrow_bind,
    hkb.data_eq]
  constructor
  · rintro ⟨_, hsigner, ⟨written, keyLen⟩, ⟨hwritable, hauthority, -, hfound⟩, ⟨n, chunk⟩,
      ⟨offset, hargs, -, hoffset⟩, data, hwrite, hstore⟩
    cases hfound
    obtain ⟨⟨hne, hn⟩, hle, rfl⟩ := (writeChunk_ok_iff kb).mp hwrite
    cases hstore
    exact ⟨⟨hsigner, hwritable, hauthority⟩, offset, chunk, hargs, hne, hoffset.symm.trans hn, hle,
      rfl⟩
  · rintro ⟨⟨hsigner, hwritable, hauthority⟩, offset, chunk, hargs, hne, hoffset, hle, rfl⟩
    have hchunk : chunk.length < 2 ^ 32 := by
      have hlt := kb.keyLen_lt
      omega
    refine ⟨(), hsigner, (kb.received.length, kb.method.keyLen),
      ⟨hwritable, hauthority, by simp, rfl⟩, (offset.toNat, chunk), ⟨offset, hargs, hchunk, rfl⟩,
      _, (writeChunk_ok_iff kb).mpr ⟨⟨hne, hoffset⟩, hle, rfl⟩, rfl⟩

/-! ### Closing -/

/-- The account at `a` closed, and its balance paid to `b`. -/
def Ledger.closed (L : Ledger) (a b : Address) : Ledger :=
  (L.setLamports b ((L b).lamports + (L a).lamports)).modify a fun _ => ⟨0, [], systemProgram⟩

namespace Ledger

variable (L : Ledger) (a b c : Address)

@[simp] theorem closed_self : L.closed a b a = ⟨0, [], systemProgram⟩ := by simp [closed]

theorem closed_data {a c : Address} (h : c ≠ a) : (L.closed a b c).data = (L c).data := by
  simp [closed, modify_of_ne _ _ h]

theorem closed_owner {a c : Address} (h : c ≠ a) : (L.closed a b c).owner = (L c).owner := by
  simp [closed, modify_of_ne _ _ h]

theorem closed_of_ne {a b c : Address} (ha : c ≠ a) (hb : c ≠ b) : L.closed a b c = L c := by
  simp [closed, modify_of_ne _ _ ha, setLamports_of_ne _ _ hb]

end Ledger

theorem closeTo_ok_iff (hP : P.Lawful) {account payer : AccountView} {m m' : Machine} {u : Unit} :
    closeTo P account payer m = .ok u m' ↔
      (m.ledger payer.address).lamports + (m.ledger account.address).lamports < 2 ^ 64 ∧
        m' = ⟨m.ledger.closed account.address payer.address, m.log⟩ := by
  have hmodify (L : Ledger) (a : Address) (x : Account) :
      (L.setLamports a 0).modify a (fun _ => x) = L.modify a fun _ => x := by
    simp [Ledger.setLamports, Ledger.modify]
  simp only [closeTo, Exec.lamports_bind, lift_bind_ok_iff, checkedAdd_eq_ok,
    Exec.setLamports_bind, Exec.call_ok_iff, hP.close_eq, Except.ok.injEq, exists_eq_left', hmodify]
  constructor
  · rintro ⟨_, ⟨hlt, rfl⟩, rfl⟩
    exact ⟨hlt, rfl⟩
  · rintro ⟨hlt, rfl⟩
    exact ⟨_, ⟨hlt, rfl⟩, rfl⟩

theorem verifyKeyBuffer_ok_iff {view : AccountView} {kb : KeyBuffer}
    (hkb : IsBuffer P L view.address kb) {authority : Address} {did : Option Address} {u : Unit} :
    verifyKeyBuffer P L view authority did = .ok u ↔
      view.isWritable = true ∧ kb.authority = authority ∧ ∀ x ∈ did, kb.didAccount = x := by
  simp only [verifyKeyBuffer, except_bind_ok_iff, hkb.checkKeyBuffer_ok_iff rfl, except_pure,
    and_true]
  constructor
  · rintro ⟨_, hw, hauthority, hdid, -⟩
    exact ⟨hw, hauthority, hdid⟩
  · rintro ⟨hw, hauthority, hdid⟩
    exact ⟨_, hw, hauthority, hdid, rfl⟩

theorem closeKeyBuffer_ok_iff (hP : P.Lawful) {payer authority buffer : AccountView}
    {rest : List AccountView} {args : Bytes} {m m' : Machine} {u : Unit} {kb : KeyBuffer}
    (hkb : IsBuffer P m.ledger buffer.address kb) :
    CloseKeyBuffer.process P (payer :: authority :: buffer :: rest) args m = .ok u m' ↔
      (payer.isSigner = true ∧ payer.isWritable = true ∧ authority.isSigner = true ∧
        buffer.isWritable = true ∧ kb.authority = authority.address) ∧ args = [] ∧
      (m.ledger payer.address).lamports + (m.ledger buffer.address).lamports < 2 ^ 64 ∧
      m' = ⟨m.ledger.closed buffer.address payer.address, m.log⟩ := by
  simp only [CloseKeyBuffer.process, Exec.ledger_bind, lift_bind_ok_iff, checkPayer,
    checkAuthoritySigner, except_bind_ok_iff, ensure_eq_ok, eval_finish_ok_iff,
    verifyKeyBuffer_ok_iff hkb, closeTo_ok_iff hP]
  constructor
  · rintro ⟨_, hargs, _, ⟨_, hsigner, hwritable⟩, _, hauthority, _, ⟨hbuffer, hown, -⟩, hclosed⟩
    exact ⟨⟨hsigner, hwritable, hauthority, hbuffer, hown⟩, hargs, hclosed⟩
  · rintro ⟨⟨hsigner, hwritable, hauthority, hbuffer, hown⟩, hargs, hclosed⟩
    exact ⟨(), hargs, (), ⟨(), hsigner, hwritable⟩, (), hauthority, (),
      ⟨hbuffer, hown, by simp⟩, hclosed⟩

/-! ### Finishing -/

namespace KeyBuffer

theorem slice_received (kb : KeyBuffer) :
    slice kb.encode kbOffKey (kbOffKey + kb.received.length) = .ok kb.received := by
  have hsplit : kb.encode = kb.header ++ kb.received ++
      List.replicate (kb.method.keyLen - kb.received.length) 0 := by
    rw [encode, keyField, List.append_assoc]
  rw [hsplit]
  exact slice_append kb.length_header.symm (by rw [kb.length_header]; rfl)

theorem addUsize_received (kb : KeyBuffer) :
    addUsize kbOffKey kb.received.length = .ok (kbOffKey + kb.received.length) := by
  have hle := kb.received_le
  have hlt := kb.keyLen_lt
  refine addUsize_of_lt ?_
  rw [kbOffKey]
  omega

/-- A complete buffer describes its method as a direct addition does. -/
theorem toNew_toMethod {kb : KeyBuffer} (h : kb.received.length = kb.method.keyLen) :
    kb.toMethod.toNew = kb.method := by
  simp only [Method.toNew, toMethod, h]

end KeyBuffer

namespace AddVerificationMethodFromBuffer

variable {authority did buffer : AccountView} {controller : Option AccountView} {kb : KeyBuffer}

/-- The checks of a finish, asked of what the buffer records. -/
theorem check_eq (hkb : IsBuffer P L buffer.address kb) :
    check P L authority did buffer controller = (do
      require (kb.received.length == kb.method.keyLen) .keyBufferIncomplete
      ensure (expectedKeyLen kb.method.methodType).isSome .invalidInstructionData
      let doc ← DidView.parse (L did.address).data
      authorize P L doc authority.address controller
      doc.checkNewMethod kb.method
      checkNewKey P.isCurvePoint kb.method kb.received authority.address
      pure (kb.method, doc.sections)) := by
  have hkey : kb.ref.key (L buffer.address).data = .ok kb.received := by
    unfold KeyBufferRef.key
    rw [hkb.data_eq]
    change (addUsize kbOffKey kb.received.length >>= _) = _
    rw [kb.addUsize_received, except_bind_ok, kb.slice_received]
  unfold check
  dsimp only
  rw [hkb.parse, except_bind_ok]
  simp only [hkey, except_bind_ok]
  rfl

/-- The commit of a finish, whatever account it takes the key from. -/
theorem commit_edits (hP : P.Lawful) {payer : AccountView} {d : Document} {m : Machine}
    {method : Method} (hd : IsDid P m.ledger did.address d) (hsmall : d.encode.length < 2 ^ 63)
    (hkey : slice (m.ledger buffer.address).data kbOffKey (kbOffKey + method.key.length) =
      .ok method.key) (hne : did.address ≠ buffer.address) (hm : method.WellFormed) :
    Edits P sv did payer d (.addVm method)
      { d.body with methods := d.body.methods ++ [method] } m
      (commit P sv payer did buffer method.toNew d.body.sections m) := by
  have hbound := hm.length_encode_le
  have hfits : method.Fits := by
    have hlen := hbound
    rw [Method.length_encode] at hlen
    exact ⟨by omega, by omega⟩
  have hcount := hd.fits.methods.1
  have hlen := d.length_encode
  have hspace : vmSpace method.toNew.fragment.length method.toNew.keyLen =
      .ok method.encode.length := vmSpace_eq hfits
  have hend : addUsize d.body.sections.endPos method.encode.length =
      .ok (d.encode.length + method.encode.length) := by
    rw [show d.body.sections.endPos = d.encode.length from hlen.symm]
    exact addUsize_of_lt (by omega)
  have hlast : addUsize kbOffKey method.toNew.keyLen = .ok (kbOffKey + method.key.length) := by
    apply addUsize_of_lt
    change kbOffKey + method.key.length < _
    rw [Method.length_encode] at hbound
    rw [kbOffKey]
    omega
  unfold commit
  rw [lift_bind_run hspace, lift_bind_run hend]
  refine grow_edits hP hd.data_eq (by simp) ?_ (by simp)
    (by rw [maxPermittedDataIncrease]; omega) ?_ ?_
  · exact Body.length_addMethod ..
  · intro m₁ now hothers hm₁ hnow
    have hread : slice (m₁.ledger buffer.address).data kbOffKey
        (kbOffKey + method.key.length) = .ok method.key := by
      rw [hothers _ hne.symm, hkey]
    rw [lift_bind_run (orFault_eq_ok.mpr hnow), Exec.borrow_bind, hm₁,
      lift_bind_run ((ensure_eq_ok (u := ())).mpr (bne_iff_ne.mpr hne)), Exec.borrow_bind,
      lift_bind_run hlast, lift_bind_run hread]
    refine lift_bind_run (insertVm_encode d.length_head hfits (by simp) ?_ (by omega)) _ m₁
    rw [List.length_append, List.length_replicate, ← Document.encode]
    omega
  · intro m₁ e hclock
    rw [hclock]
    rfl

end AddVerificationMethodFromBuffer

/-- An account is never a DID and a buffer at once. -/
theorem IsDid.not_isBuffer {a : Address} {d : Document} {kb : KeyBuffer} (hd : IsDid P L a d)
    (hkb : IsBuffer P L a kb) : False := by
  have hsame : accountDiscriminator = keyBufferDiscriminator :=
    hd.take_data.symm.trans hkb.take_data
  exact absurd hsame (by decide)

theorem finish_ok_iff (hP : P.Lawful) {payer authority did buffer system : AccountView}
    {rest : List AccountView} {args : Bytes} {m m' : Machine} {u : Unit} {d : Document}
    {kb : KeyBuffer} (hd : IsDid P m.ledger did.address d) (hwf : d.WellFormed)
    (hkb : IsBuffer P m.ledger buffer.address kb) :
    AddVerificationMethodFromBuffer.process P sv
        (payer :: authority :: did :: buffer :: system :: rest) args m = .ok u m' ↔
      (payer.isSigner = true ∧ payer.isWritable = true ∧ authority.isSigner = true ∧
        system.address = systemProgram ∧ did.isWritable = true ∧ buffer.isWritable = true ∧
        kb.authority = authority.address ∧ kb.didAccount = did.address) ∧ args = [] ∧
      kb.received.length = kb.method.keyLen ∧
      Authorized P m.ledger d authority.address rest.head? ∧
      ∃ body, d.body.apply P.isCurvePoint authority.address d.subject (.addVm kb.toMethod) =
          .ok body ∧
        ∃ v m₁, Commits P sv did payer d (.addVm kb.toMethod) body m v m₁ ∧
          (m₁.ledger payer.address).lamports + (m₁.ledger buffer.address).lamports < 2 ^ 64 ∧
          m' = ⟨m₁.ledger.closed buffer.address payer.address,
            m₁.log ++ [eventBytes didModified did.address d.subject v]⟩ := by
  have hne : did.address ≠ buffer.address := by
    intro h
    rw [h] at hd
    exact hd.not_isBuffer hkb
  obtain ⟨view, hview, hshows⟩ := hd.exists_view
  -- What a complete buffer commits.
  have hedits (hcomplete : kb.received.length = kb.method.keyLen) (hm : kb.toMethod.WellFormed) :
      Edits P sv did payer d (.addVm kb.toMethod)
        { d.body with methods := d.body.methods ++ [kb.toMethod] } m
        (AddVerificationMethodFromBuffer.commit P sv payer did buffer kb.method d.body.sections
          m) := by
    rw [← KeyBuffer.toNew_toMethod hcomplete]
    apply AddVerificationMethodFromBuffer.commit_edits hP hd _ _ hne hm
    · exact hwf.length_lt
    · rw [hkb.data_eq]
      exact kb.slice_received
  simp only [AddVerificationMethodFromBuffer.process, Exec.ledger_bind, lift_bind_ok_iff,
    checkPayer, checkAuthoritySigner, checkSystemProgram, verifyDidAccount, except_bind_ok_iff,
    ensure_eq_ok, beq_iff_eq, eval_finish_ok_iff, verifyKeyBuffer_ok_iff hkb,
    hd.loadDidAccount rfl, AddVerificationMethodFromBuffer.check_eq hkb, hview, Except.ok.injEq,
    require_eq_ok, except_pure]
  constructor
  · rintro ⟨_, hargs, _, ⟨_, hsigner, hwritable⟩, _, hauthority, _, hsystem, s, ⟨_, hdid, rfl⟩, _,
      ⟨hbuffer, hown, hbound⟩, ⟨nm, sections⟩, ⟨_, hcomplete, _, -, _, rfl, _, hauth, _, hadmits, _,
      hkey, hplan⟩, hrun⟩
    cases hplan
    have hnew := KeyBuffer.toNew_toMethod hcomplete
    rw [← hnew] at hadmits hkey
    obtain ⟨_, hadmitted, -⟩ := (hadmits ▸ hshows.checkNewMethod_agrees _).of_ok
    obtain ⟨_, hkeyed, -⟩ := (hkey ▸ checkNewKey_agrees P.isCurvePoint authority.address
      kb.toMethod).of_ok
    have hm := Body.wellFormed_of_admits hadmitted hkeyed
    obtain ⟨v, m₁, hcommit, hrest⟩ := bind_ok_iff.mp hrun
    rw [hshows.sections_eq] at hcommit
    obtain ⟨_, m₂, hclose, hemit⟩ := bind_ok_iff.mp hrest
    obtain ⟨hlt, rfl⟩ := (closeTo_ok_iff hP).mp hclose
    cases hemit
    exact ⟨⟨hsigner, hwritable, hauthority, hsystem, hdid, hbuffer, hown, hbound _ rfl⟩, hargs,
      hcomplete, (authorize_ok_iff hshows).mp hauth, _,
      Body.addVm_ok_iff.mpr ⟨hadmitted, hkeyed, rfl⟩, v, m₁,
      ((hedits hcomplete hm).ok_iff v m₁).mp hcommit, hlt, rfl⟩
  · rintro ⟨⟨hsigner, hwritable, hauthority, hsystem, hdid, hbuffer, hown, hbound⟩, hargs,
      hcomplete, hauth, body, happly, v, m₁, hcommit, hlt, rfl⟩
    obtain ⟨hadmitted, hkeyed, rfl⟩ := Body.addVm_ok_iff.mp happly
    have hm := Body.wellFormed_of_admits hadmitted hkeyed
    obtain ⟨_, hadmits, -⟩ := (hadmitted ▸ hshows.checkNewMethod_agrees _).ok_of
    obtain ⟨_, hkey, -⟩ := (hkeyed ▸ checkNewKey_agrees P.isCurvePoint authority.address
      kb.toMethod).ok_of
    rw [KeyBuffer.toNew_toMethod hcomplete] at hadmits hkey
    have hknown : (expectedKeyLen kb.method.methodType).isSome = true := by
      have hlen := expectedKeyLen_eq_some_iff.mpr hm.keyLen
      change expectedKeyLen kb.method.methodType = _ at hlen
      rw [hlen]
      rfl
    refine ⟨(), hargs, (), ⟨(), hsigner, hwritable⟩, (), hauthority, (), hsystem, d.subject,
      ⟨(), hdid, rfl⟩, (), ⟨hbuffer, hown, fun x hx => hbound.trans (Option.some.inj hx)⟩,
      (kb.method, view.sections), ⟨(), hcomplete, (), hknown, view, rfl, (),
        (authorize_ok_iff hshows).mpr hauth, (), hadmits, (), hkey, rfl⟩, ?_⟩
    have hrun := ((hedits hcomplete hm).ok_iff v m₁).mpr hcommit
    rw [← hshows.sections_eq] at hrun
    rw [bind_of_ok hrun, bind_of_ok ((closeTo_ok_iff hP (u := ())).mpr ⟨hlt, rfl⟩)]
    rfl

end BioDidRegistry
