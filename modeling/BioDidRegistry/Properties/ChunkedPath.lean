import BioDidRegistry.Document.Authority
import BioDidRegistry.Properties.TypedAccounts
import BioDidRegistry.Registry.Additions
import BioDidRegistry.Registry.Builders

/-!
# The chunked path equals the direct path

A method is added directly in one instruction, or through a key buffer in several: open,
write every chunk, finish. From the same ledger both end with the same account of the DID
or with the same error. A refusal that no key of the length would change already stops
the opening, and any other is that of the finish.
-/

namespace BioDidRegistry

open BinaryFormat Transition Reader

variable {P : Platform} {sv : Sysvars} {L L₀ L₁ L₂ : Ledger}

/-! ### Sequences of instructions -/

/-- The instructions one after the other. An error comes with the number of instructions
that went through before it. -/
def invokeAll (P : Platform) (sv : Sysvars) : List Instruction → Ledger → Except (ℕ × Fault) Ledger
  | [], L => .ok L
  | i :: is, L =>
    match invoke P (i.call sv) L with
    | .error e => .error (0, e)
    | .ok (L', _) => (invokeAll P sv is L').mapError fun e => (e.1 + 1, e.2)

theorem invokeAll_cons_error {i : Instruction} {e : Fault}
    (h : invoke P (i.call sv) L = .error e) (is : List Instruction) :
    invokeAll P sv (i :: is) L = .error (0, e) := by
  rw [invokeAll, h]

theorem invokeAll_cons_ok {i : Instruction} {log : List Bytes}
    (h : invoke P (i.call sv) L = .ok (L₁, log)) (is : List Instruction) :
    invokeAll P sv (i :: is) L = (invokeAll P sv is L₁).mapError fun e => (e.1 + 1, e.2) := by
  rw [invokeAll, h]

theorem invokeAll_append_ok {is : List Instruction} (h : invokeAll P sv is L = .ok L₁)
    (js : List Instruction) : invokeAll P sv (is ++ js) L =
      (invokeAll P sv js L₁).mapError fun e => (is.length + e.1, e.2) := by
  induction is generalizing L with
  | nil =>
    cases h
    rw [List.nil_append]
    cases invokeAll P sv js L₁ with
    | error e => simp [Except.mapError]
    | ok L' => rfl
  | cons i is ih =>
    rw [invokeAll] at h
    split at h
    · cases h
    · rename_i L' log hrun
      have hrest : invokeAll P sv is L' = .ok L₁ := by
        cases hrest : invokeAll P sv is L' with
        | error e =>
          rw [hrest] at h
          cases h
        | ok L'' =>
          rw [hrest] at h
          exact h
      rw [List.cons_append, invokeAll_cons_ok hrun, ih hrest]
      cases invokeAll P sv js L₁ with
      | error e => simp [Except.mapError, Nat.add_right_comm]
      | ok L' => rfl

/-! ### The two paths -/

/-- The instruction with `controller` after its own accounts. -/
def Instruction.followedBy (i : Instruction) (controller : Option AccountView) : Instruction :=
  { i with accounts := i.accounts ++ controller.toList }

/-- A method to add to the DID of `subject` on behalf of `authority`. -/
structure Addition where
  payer : Address
  authority : Address
  subject : Address
  controller : Option AccountView
  method : Method

namespace Addition

variable (P : Platform) (a : Addition)

def direct : Option Instruction := do
  let i ← Client.addVerificationMethod P a.payer a.authority a.subject a.method.fragment
    a.method.methodType a.method.flags a.method.key
  pure (i.followedBy a.controller)

/-- The chunks, each at the offset where the one before it ended. -/
def writes (offset : ℕ) : List Bytes → Option (List Instruction)
  | [] => some []
  | chunk :: chunks => do
    let i ← Client.writeKeyBuffer P a.authority a.subject (UInt32.ofNat offset) chunk
    let is ← writes (offset + chunk.length) chunks
    pure (i :: is)

def opening : Option Instruction := do
  let i ← Client.createKeyBuffer P a.payer a.authority a.subject a.method.fragment
    a.method.methodType a.method.flags (UInt32.ofNat a.method.key.length)
  pure (i.followedBy a.controller)

def finishing : Option Instruction := do
  let i ← Client.addVerificationMethodFromBuffer P a.payer a.authority a.subject
  pure (i.followedBy a.controller)

def chunked (chunks : List Bytes) : Option (List Instruction) := do
  let first ← a.opening P
  let is ← a.writes P 0 chunks
  let last ← a.finishing P
  pure (first :: is ++ [last])

/-- The payer is a system account, other than the buffer, that can pay the rent of the
buffer and what the DID still needs for its new length. -/
structure Funded (sv : Sysvars) (L : Ledger) (did buffer : Address) : Prop where
  owner : (L a.payer).owner = systemProgram
  dataless : (L a.payer).data = []
  apart : a.payer ≠ buffer
  enough : ∃ forBuffer forDid,
    rentMinimumBalance P sv (keyBufferHeader + a.method.key.length) = .ok forBuffer ∧
    rentMinimumBalance P sv ((L did).data.length + a.method.encode.length) = .ok forDid ∧
    (forBuffer - (L buffer).lamports) + (forDid - (L did).lamports) ≤ (L a.payer).lamports
  bounded : (L a.payer).lamports + (L did).lamports + (L buffer).lamports < 2 ^ 64

/-- The payer, a system account other than the buffer, can make the balance of the buffer up
to `forBuffer` and then that of the DID up to `forDid`. -/
structure Covers (forBuffer forDid : ℕ) (L : Ledger) (did buffer : Address) : Prop where
  owner : (L a.payer).owner = systemProgram
  dataless : (L a.payer).data = []
  apart : a.payer ≠ buffer
  enough : (forBuffer - (L buffer).lamports) + (forDid - (L did).lamports) ≤ (L a.payer).lamports
  bounded : (L a.payer).lamports + (L did).lamports + (L buffer).lamports < 2 ^ 64

theorem Funded.covers {P : Platform} {a : Addition} {did buffer : Address}
    (h : a.Funded P sv L did buffer) : ∃ forBuffer forDid,
      rentMinimumBalance P sv (keyBufferHeader + a.method.key.length) = .ok forBuffer ∧
      rentMinimumBalance P sv ((L did).data.length + a.method.encode.length) = .ok forDid ∧
      a.Covers forBuffer forDid L did buffer := by
  obtain ⟨forBuffer, forDid, hbuffer, hdid, henough⟩ := h.enough
  exact ⟨forBuffer, forDid, hbuffer, hdid, h.owner, h.dataless, h.apart, henough, h.bounded⟩

def after (d : Document) (now : Int64) : Document :=
  d.updated (.addVm a.method) { d.body with methods := d.body.methods ++ [a.method] } now

theorem length_after (d : Document) (now : Int64) :
    (a.after d now).encode.length = d.encode.length + a.method.encode.length := by
  rw [Addition.after, d.length_updated, d.length_encode, Body.length_addMethod, Nat.add_assoc]

def withKey (key : Bytes) : Addition := { a with method := { a.method with key } }

def request : Request := ⟨a.payer, a.authority, a.subject, none, .addVm a.method⟩

/-- The DID of the addition is `d` at `did`, and its buffer belongs at `buffer`. -/
structure Located (L : Ledger) (did buffer : Address) (d : Document) : Prop where
  didAccount : Client.didAccount P a.subject = some did
  keyBuffer : Client.keyBuffer P a.subject a.authority = some buffer
  encodable : (Op.addVm a.method).Encodable
  isDid : IsDid P L did d
  subject : d.subject = a.subject
  wellFormed : d.WellFormed

/-- The DID of the addition is `d` at `did`, its buffer is at `buffer` and not in use. -/
structure Ready (L : Ledger) (did buffer : Address) (bump : UInt8) (d : Document) : Prop where
  didAccount : Client.didAccount P a.subject = some did
  found : P.deriveProgramAddress [keyBufferSeed, did.val, a.authority.val] = some (buffer, bump)
  encodable : (Op.addVm a.method).Encodable
  isDid : IsDid P L did d
  subject : d.subject = a.subject
  wellFormed : d.WellFormed
  vacant : L.Vacant buffer

end Addition

/-! ### The instructions as the program reads them -/

namespace Addition.Located

variable {a : Addition} {did buffer : Address} {d : Document} (h : a.Located P L did buffer d)

include h

theorem exists_direct : ∃ i, a.direct P = some i ∧ a.request.Asks P L i did d a.controller := by
  have hbase := Request.base_eq (r := a.request) h.didAccount
  refine ⟨_, ?_, rfl, h.encodable, h.isDid, h.subject, h.wellFormed⟩
  change (a.request.base P).bind (fun i => some (i.followedBy a.controller)) = _
  rw [hbase]
  rfl

theorem opening_eq : a.opening P = some ⟨programId, .writable a.payer true ::
    .readonly a.authority true :: .writable did false :: .writable buffer false ::
    .readonly systemProgram false :: a.controller.toList,
    Ix.createKeyBuffer.discriminator ++ a.method.toNew.args⟩ := by
  have hlen : (UInt32.ofNat a.method.key.length).toNat = a.method.key.length :=
    UInt32.toNat_ofNat_of_lt h.encodable.2
  have hbase := Builder.base_eq (b := .createKeyBuffer a.payer a.authority a.subject
    a.method.fragment a.method.methodType a.method.flags (UInt32.ofNat a.method.key.length))
    ⟨h.didAccount, h.keyBuffer⟩
  rw [Builder.args, hlen] at hbase
  exact Option.bind_eq_some_iff.mpr ⟨_, hbase, rfl⟩

theorem finishing_eq : a.finishing P = some ⟨programId, .writable a.payer true ::
    .readonly a.authority true :: .writable did false :: .writable buffer false ::
    .readonly systemProgram false :: a.controller.toList,
    Ix.addVerificationMethodFromBuffer.discriminator ++ []⟩ := by
  have hbase := Builder.base_eq
    (b := .addVerificationMethodFromBuffer a.payer a.authority a.subject)
    ⟨h.didAccount, h.keyBuffer⟩
  exact Option.bind_eq_some_iff.mpr ⟨_, hbase, rfl⟩

theorem write_eq (offset : UInt32) (chunk : Bytes) :
    Client.writeKeyBuffer P a.authority a.subject offset chunk =
      some ⟨programId, [.readonly a.authority true, .writable buffer false],
        Ix.writeKeyBuffer.discriminator ++ WriteKeyBuffer.chunkArgs offset chunk⟩ :=
  Builder.base_eq (b := .writeKeyBuffer a.authority a.subject offset chunk)
    ⟨h.didAccount, h.keyBuffer⟩

theorem apply_eq (hadmitted : admission P L did a.authority a.controller a.method.toNew = .ok ())
    (hkey : checkNewKey P.isCurvePoint a.method.toNew a.method.key a.authority = .ok ()) :
    d.body.apply P.isCurvePoint a.authority d.subject (.addVm a.method) =
      .ok { d.body with methods := d.body.methods ++ [a.method] } := by
  obtain ⟨-, hadmits⟩ := (admission_ok_iff h.isDid).mp hadmitted
  obtain ⟨_, hallowed, -⟩ := (hkey ▸ checkNewKey_agrees P.isCurvePoint a.authority a.method).of_ok
  exact Body.addVm_ok_iff.mpr ⟨hadmits, hallowed, rfl⟩

theorem direct_refused {i : Instruction} {e : Fault}
    (hasks : a.request.Asks P L i did d a.controller) (hrefused : (do
      admission P L did a.authority a.controller a.method.toNew
      checkNewKey P.isCurvePoint a.method.toNew a.method.key a.authority) = .error e) :
    invoke P (i.call sv) L = .error e := by
  have hrun : Op.run P sv (a.request.update did a.controller) a.request.op.args a.request.op.ix
      ⟨L, []⟩ = .error e ⟨L, []⟩ := addVerificationMethod_refused h.encodable hrefused
  rw [hasks.invoke_eq, hrun, outcome]

end Addition.Located

namespace Addition.Ready

variable {a : Addition} {did buffer : Address} {bump : UInt8} {d : Document}
  (h : a.Ready P L did buffer bump d)

include h

theorem located : a.Located P L did buffer d where
  didAccount := h.didAccount
  keyBuffer := by
    rw [Client.keyBuffer, h.didAccount]
    exact congrArg (Option.map Prod.fst) h.found
  encodable := h.encodable
  isDid := h.isDid
  subject := h.subject
  wellFormed := h.wellFormed

theorem did_ne_buffer : did ≠ buffer := by
  intro hsame
  exact h.isDid.owner_ne h.vacant.1 hsame

theorem exists_direct : ∃ i, a.direct P = some i ∧ a.request.Asks P L i did d a.controller :=
  h.located.exists_direct

/-! ### The opening -/

theorem opening_refused (sv : Sysvars) {e : Fault}
    (hrefused : admission P L did a.authority a.controller a.method.toNew = .error e) :
    ∃ i, a.opening P = some i ∧ invoke P (i.call sv) L = .error e := by
  have hrun : CreateKeyBuffer.process P sv (.writable a.payer true :: .readonly a.authority true ::
      .writable did false :: .writable buffer false :: .readonly systemProgram false ::
      a.controller.toList) a.method.toNew.args ⟨L, []⟩ = .error e ⟨L, []⟩ := by
    refine createKeyBuffer_refused ⟨rfl, rfl, rfl, rfl, rfl⟩ h.isDid h.encodable ?_
    rw [Option.head?_toList]
    exact hrefused
  exact ⟨_, h.located.opening_eq, Instruction.invoke_error rfl hrun⟩

end Addition.Ready

/-- The buffer of the addition is open in `L₁` and holds `kb`. The payer made its balance up
to `need`, and nothing else of `L` is different. -/
structure Addition.Staging (P : Platform) (a : Addition) (L : Ledger) (did buffer : Address)
    (need : ℕ) (kb : KeyBuffer) (L₁ : Ledger) : Prop where
  isBuffer : IsBuffer P L₁ buffer kb
  record : kb.didAccount = did ∧ kb.authority = a.authority ∧ kb.method = a.method.toNew
  others : ∀ x, x ≠ buffer → x ≠ a.payer → L₁ x = L x
  payer : (L₁ a.payer).data = (L a.payer).data ∧ (L₁ a.payer).owner = (L a.payer).owner
  held : (L₁ buffer).lamports = max need (L buffer).lamports
  paid : (L₁ a.payer).lamports + (need - (L buffer).lamports) = (L a.payer).lamports

/-- The data and the owners of all accounts but the buffer are as they were. -/
theorem Addition.Staging.frame {a : Addition} {did buffer x : Address} {need : ℕ} {kb : KeyBuffer}
    (hs : a.Staging P L did buffer need kb L₁) (hx : x ≠ buffer) :
    (L₁ x).data = (L x).data ∧ (L₁ x).owner = (L x).owner := by
  by_cases hpayer : x = a.payer
  · rw [hpayer]
    exact hs.payer
  · rw [hs.others x hx hpayer]
    exact ⟨rfl, rfl⟩

namespace Addition.Ready

variable {a : Addition} {did buffer : Address} {bump : UInt8} {d : Document}
  (h : a.Ready P L did buffer bump d)

include h

theorem opening_accepted (hP : P.Lawful) {need needDid : ℕ}
    (hcovers : a.Covers need needDid L did buffer)
    (hneed : rentMinimumBalance P sv (keyBufferHeader + a.method.key.length) = .ok need)
    (hadmitted : admission P L did a.authority a.controller a.method.toNew = .ok ()) :
    ∃ i kb log L₁, a.opening P = some i ∧ invoke P (i.call sv) L = .ok (L₁, log) ∧
      a.Staging P L did buffer need kb L₁ ∧ kb.received = [] := by
  have henough := hcovers.enough
  have hbounded := hcovers.bounded
  obtain ⟨hauth, hadmits⟩ := (admission_ok_iff h.isDid).mp hadmitted
  obtain ⟨hfragment, -⟩ := fits_of_admits hadmits
  obtain ⟨L₁, hfunded⟩ : ∃ L₁, Funds L (.writable a.payer true) (.writable buffer false) need L₁ :=
    exists_funds ⟨rfl, rfl⟩ rfl hcovers.owner hcovers.dataless hcovers.apart
      (show need - (L buffer).lamports ≤ (L a.payer).lamports by omega)
      (show (L buffer).lamports + (L a.payer).lamports < 2 ^ 64 by omega)
  let kb := KeyBuffer.opened did a.authority bump a.method.toNew hfragment h.encodable.2
  have hrun : CreateKeyBuffer.process P sv (.writable a.payer true :: .readonly a.authority true ::
      .writable did false :: .writable buffer false :: .readonly systemProgram false ::
      a.controller.toList) a.method.toNew.args ⟨L, []⟩ =
      .ok () ⟨L₁.create buffer kb.encode, []⟩ := by
    refine (createKeyBuffer_ok_iff hP).mpr ⟨⟨rfl, rfl, rfl, rfl, rfl⟩, d, a.method.toNew, kb, rfl,
      h.encodable, ⟨h.isDid, ?_, hadmits, ⟨rfl, rfl, rfl, rfl⟩, h.found, h.vacant,
        ⟨need, L₁, hneed, hfunded, rfl⟩⟩, rfl⟩
    rw [Option.head?_toList]
    exact hauth
  have hbalance := hfunded.balance hcovers.apart
  have hpayer : L₁.create buffer kb.encode a.payer = L₁ a.payer :=
    Ledger.create_of_ne _ _ hcovers.apart
  refine ⟨_, kb, [], _, h.located.opening_eq, Instruction.invoke_ok rfl hrun, ⟨⟨?_, ?_, ?_⟩,
    ⟨rfl, rfl, rfl⟩, fun x hbuffer hx => ?_, ?_, ?_, ?_⟩, rfl⟩
  · exact Ledger.create_owner ..
  · exact Ledger.create_data ..
  · exact hP.derive_found h.found
  · rw [Ledger.create_of_ne _ _ hbuffer]
    exact hfunded.of_ne hx hbuffer
  · rw [hpayer]
    exact ⟨hfunded.data _, hfunded.owner _⟩
  · rw [Ledger.create_lamports]
    exact hbalance.1
  · rw [Ledger.create_lamports]
    exact hbalance.2

/-! ### The chunks -/

theorem write_accepted (sv : Sysvars) {need : ℕ} {kb : KeyBuffer} {chunk : Bytes}
    (hs : a.Staging P L did buffer need kb L₁) (hapart : a.payer ≠ buffer) (hchunk : chunk ≠ [])
    (hle : kb.received.length + chunk.length ≤ kb.method.keyLen) :
    ∃ i L₂, Client.writeKeyBuffer P a.authority a.subject (UInt32.ofNat kb.received.length) chunk =
        some i ∧ invoke P (i.call sv) L₁ = .ok (L₂, []) ∧
      a.Staging P L did buffer need (kb.append chunk hle) L₂ := by
  have hlt : kb.received.length < 2 ^ 32 := kb.received_le.trans_lt kb.keyLen_lt
  have hoffset : (UInt32.ofNat kb.received.length).toNat = kb.received.length :=
    UInt32.toNat_ofNat_of_lt hlt
  have hrun : WriteKeyBuffer.process P [.readonly a.authority true, .writable buffer false]
      (WriteKeyBuffer.chunkArgs (UInt32.ofNat kb.received.length) chunk) ⟨L₁, []⟩ =
      .ok () ⟨L₁.store buffer (kb.append chunk hle).encode, []⟩ :=
    (writeKeyBuffer_ok_iff hs.isBuffer).mpr ⟨⟨rfl, rfl, hs.record.2.1⟩, _, chunk, rfl, hchunk,
      hoffset, hle, rfl⟩
  refine ⟨_, _, h.located.write_eq _ chunk, Instruction.invoke_ok rfl hrun,
    ⟨?_, Ledger.store_data .., hs.isBuffer.address⟩, hs.record, ?_, ?_, ?_, ?_⟩
  · rw [Ledger.store_owner]
    exact hs.isBuffer.owner
  · intro x hx hpayer
    rw [Ledger.store_of_ne _ _ hx]
    exact hs.others x hx hpayer
  · rw [Ledger.store_of_ne _ _ hapart]
    exact hs.payer
  · rw [Ledger.store_lamports]
    exact hs.held
  · rw [Ledger.store_lamports]
    exact hs.paid

theorem writes_accepted (sv : Sysvars) {need : ℕ} {kb : KeyBuffer} {chunks : List Bytes}
    (hs : a.Staging P L did buffer need kb L₁) (hapart : a.payer ≠ buffer)
    (hchunks : ∀ chunk ∈ chunks, chunk ≠ [])
    (hfits : kb.received.length + chunks.flatten.length ≤ kb.method.keyLen) :
    ∃ is kb' L₂, a.writes P kb.received.length chunks = some is ∧
      invokeAll P sv is L₁ = .ok L₂ ∧ a.Staging P L did buffer need kb' L₂ ∧
      kb'.received = kb.received ++ chunks.flatten := by
  induction chunks generalizing kb L₁ with
  | nil => exact ⟨[], kb, L₁, rfl, rfl, hs, by simp⟩
  | cons chunk chunks ih =>
    obtain ⟨hchunk, hrest⟩ := List.forall_mem_cons.mp hchunks
    rw [List.flatten_cons, List.length_append] at hfits
    have hle : kb.received.length + chunk.length ≤ kb.method.keyLen := by omega
    obtain ⟨i, L₂, hi, hwritten, hstaged⟩ := h.write_accepted sv hs hapart hchunk hle
    have hreceived : (kb.append chunk hle).received = kb.received ++ chunk := rfl
    obtain ⟨is, kb', L₃, his, hall, hs', hkb'⟩ := ih hstaged hrest
      (by rw [hreceived, List.length_append]; exact (Nat.add_assoc ..).trans_le hfits)
    rw [hreceived, List.length_append] at his
    refine ⟨i :: is, kb', L₃, ?_, ?_, hs', ?_⟩
    · rw [writes, hi, his]
      rfl
    · rw [invokeAll_cons_ok hwritten, hall]
      rfl
    · rw [hkb', hreceived, List.flatten_cons, List.append_assoc]

/-! ### The finish -/

section Finish

variable {need : ℕ} {kb : KeyBuffer} (hs : a.Staging P L did buffer need kb L₁)
  (hcomplete : kb.received = a.method.key)
  (hadmitted : admission P L did a.authority a.controller a.method.toNew = .ok ())

include hs

theorem isDid_staged : IsDid P L₁ did d :=
  h.isDid.of_same (hs.frame h.did_ne_buffer)

/-- The upload changed nothing that the DID's authority depends on. -/
theorem admission_staged
    (hadmitted : admission P L did a.authority a.controller a.method.toNew = .ok ()) :
    admission P L₁ did a.authority a.controller a.method.toNew = .ok () := by
  obtain ⟨⟨hlive, hauth⟩, hadmits⟩ := (admission_ok_iff h.isDid).mp hadmitted
  refine (admission_ok_iff (h.isDid_staged hs)).mpr ⟨⟨hlive, hauth.imp_right ?_⟩, hadmits⟩
  rintro ⟨c, p, hc, hp, hrest⟩
  exact ⟨c, p, hc, hp.of_same (hs.frame (hp.owner_ne h.vacant.1)), hrest⟩

include hcomplete hadmitted

theorem finishing_refused (sv : Sysvars) {e : Fault}
    (hkey : checkNewKey P.isCurvePoint a.method.toNew a.method.key a.authority = .error e) :
    ∃ i, a.finishing P = some i ∧ invoke P (i.call sv) L₁ = .error e := by
  have hrun : AddVerificationMethodFromBuffer.process P sv (.writable a.payer true ::
      .readonly a.authority true :: .writable did false :: .writable buffer false ::
      .readonly systemProgram false :: a.controller.toList) [] ⟨L₁, []⟩ = .error e ⟨L₁, []⟩ := by
    obtain ⟨hdid, hauthority, hmethod⟩ := hs.record
    refine finish_refused ⟨rfl, rfl, rfl, rfl, rfl, rfl⟩ (h.isDid_staged hs) hs.isBuffer
      ⟨hauthority, hdid⟩ (by rw [hcomplete, hmethod]; rfl) ?_
      (by rw [hmethod, hcomplete]; exact hkey)
    rw [Option.head?_toList, hmethod]
    exact h.admission_staged hs hadmitted
  exact ⟨_, h.located.finishing_eq, Instruction.invoke_error rfl hrun⟩

end Finish

/-! ### What both paths come to -/

theorem exists_settles {L₁ : Ledger} (hd : IsDid P L₁ did d) {need : ℕ} (now : Int64)
    (hneed : rentMinimumBalance P sv ((L did).data.length + a.method.encode.length) = .ok need)
    (hpayer : (L₁ a.payer).owner = systemProgram ∧ (L₁ a.payer).data = [])
    (henough : need ≤ (L₁ did).lamports + (L₁ a.payer).lamports)
    (hbounded : (L₁ did).lamports + (L₁ a.payer).lamports < 2 ^ 64) :
    ∃ L₂, Resettles P sv L₁ (.writable did false) (.writable a.payer true) d.encode.length
        (a.after d now).encode.length L₂ ∧
      (L₂ did).lamports = need ∧
      (L₂ a.payer).lamports + need = (L₁ did).lamports + (L₁ a.payer).lamports ∧
      ∀ x, x ≠ did → x ≠ a.payer → L₂ x = L₁ x := by
  have hlen := a.length_after d now
  have hmethod := a.method.length_encode
  rw [h.isDid.data_eq, ← hlen] at hneed
  have haffords : Affords P sv L₁ a.payer did (a.after d now).encode.length :=
    ⟨⟨need, hneed, henough⟩, hpayer.1, hpayer.2, hbounded⟩
  obtain ⟨L₂, hsettled⟩ : ∃ L₂, Settles P sv L₁ (.writable did false) (.writable a.payer true)
      (a.after d now).encode.length L₂ := Affords.exists_settles haffords hd.owner rfl rfl rfl
  have hne : did ≠ a.payer := hd.owner_ne hpayer.1
  obtain ⟨need', hneed', hdid, hpaid⟩ := hsettled.balance hne
  obtain rfl : need' = need := Except.ok.inj (hneed'.symm.trans hneed)
  exact ⟨L₂, Or.inr ⟨by omega, hsettled⟩, hdid, hpaid, fun x hx hx' => hsettled.of_ne hx hx'⟩

section Outcome

variable (hadmitted : admission P L did a.authority a.controller a.method.toNew = .ok ())
  (hkey : checkNewKey P.isCurvePoint a.method.toNew a.method.key a.authority = .ok ())

include hadmitted hkey

theorem direct_accepted (hP : P.Lawful) {needBuffer need : ℕ}
    (hcovers : a.Covers needBuffer need L did buffer)
    (hneed : rentMinimumBalance P sv ((L did).data.length + a.method.encode.length) = .ok need)
    {now : Int64} (hclock : sv.clock = .ok now) {i : Instruction}
    (hasks : a.request.Asks P L i did d a.controller) :
    ∃ L' log, invoke P (i.call sv) L = .ok (L', log) ∧
      (L' did).data = (a.after d now).encode ∧ (L' did).lamports = need ∧
      (L' a.payer).lamports + need = (L did).lamports + (L a.payer).lamports := by
  have henough := hcovers.enough
  have hbounded := hcovers.bounded
  obtain ⟨hauth, hadmits⟩ := (admission_ok_iff h.isDid).mp hadmitted
  obtain ⟨-, -, -, -, hlen, -⟩ := Body.admits_ok_iff.mp hadmits
  have hknown : a.request.op.KnownType := Option.isSome_of_mem hlen
  obtain ⟨L₁, hsettled, hdid, hpaid, -⟩ := h.exists_settles h.isDid now hneed
    ⟨hcovers.owner, hcovers.dataless⟩ (by omega) (by omega)
  refine ⟨_, _, hasks.accepted hP hknown hauth (h.located.apply_eq hadmitted hkey) hclock
    hsettled, Ledger.store_data .., ?_, ?_⟩
  · rw [Ledger.store_lamports]
    exact hdid
  · rw [Ledger.store_lamports]
    exact hpaid

theorem finishing_accepted (hP : P.Lawful) {need₀ need : ℕ}
    (hcovers : a.Covers need₀ need L did buffer)
    (hneed : rentMinimumBalance P sv ((L did).data.length + a.method.encode.length) = .ok need)
    {now : Int64} (hclock : sv.clock = .ok now) {kb : KeyBuffer}
    (hs : a.Staging P L did buffer need₀ kb L₁) (hcomplete : kb.received = a.method.key) :
    ∃ i L' log, a.finishing P = some i ∧ invoke P (i.call sv) L₁ = .ok (L', log) ∧
      (L' did).data = (a.after d now).encode ∧ (L' did).lamports = need ∧
      L' buffer = ⟨0, [], systemProgram⟩ ∧
      ((L buffer).lamports = 0 →
        (L' a.payer).lamports + need = (L did).lamports + (L a.payer).lamports) := by
  have henough := hcovers.enough
  have hbounded := hcovers.bounded
  have hpaid := hs.paid
  have hheld := hs.held
  have hnepayer : did ≠ a.payer := h.isDid.owner_ne hcovers.owner
  have hdid₁ : L₁ did = L did := hs.others did h.did_ne_buffer hnepayer
  have hd₁ := h.isDid_staged hs
  obtain ⟨hdid, hauthority, hmethod⟩ := hs.record
  have hkb : kb.toMethod = a.method := by
    rw [KeyBuffer.toMethod, hmethod, hcomplete]
    rfl
  obtain ⟨hauth, -⟩ := (admission_ok_iff hd₁).mp (h.admission_staged hs hadmitted)
  obtain ⟨L₂, hsettled, hlamports, hbalance, hothers⟩ := h.exists_settles hd₁ now hneed
    ⟨hs.payer.2.trans hcovers.owner, hs.payer.1.trans hcovers.dataless⟩
    (by rw [hdid₁]; omega) (by rw [hdid₁]; omega)
  have hbuffer : L₂ buffer = L₁ buffer := hothers buffer h.did_ne_buffer.symm hcovers.apart.symm
  rw [hdid₁] at hbalance
  have hrun : AddVerificationMethodFromBuffer.process P sv (.writable a.payer true ::
      .readonly a.authority true :: .writable did false :: .writable buffer false ::
      .readonly systemProgram false :: a.controller.toList) [] ⟨L₁, []⟩ =
      .ok () ⟨(L₂.store did (a.after d now).encode).closed buffer a.payer,
        [eventBytes didModified did d.subject (saturatingSucc d.version)]⟩ := by
    refine (finish_ok_iff hP hd₁ h.wellFormed hs.isBuffer).mpr ⟨⟨rfl, rfl, rfl, rfl, rfl, rfl,
      hauthority, hdid⟩, rfl, by rw [hcomplete, hmethod]; rfl, ?_, _, ?_, _,
      ⟨L₂.store did (a.after d now).encode, []⟩, ⟨now, L₂, hclock, hsettled, ?_, rfl⟩, ?_, rfl⟩
    · rw [Option.head?_toList]
      exact hauth
    · rw [hkb]
      exact h.located.apply_eq hadmitted hkey
    · rw [hkb]
      rfl
    · change ((L₂.store did _) a.payer).lamports + ((L₂.store did _) buffer).lamports < 2 ^ 64
      rw [Ledger.store_lamports, Ledger.store_lamports, hbuffer]
      omega
  refine ⟨_, _, _, h.located.finishing_eq, Instruction.invoke_ok rfl hrun, ?_, ?_,
    Ledger.closed_self .., fun hzero => ?_⟩
  · rw [Ledger.closed_data _ _ h.did_ne_buffer, Ledger.store_data]
  · rw [Ledger.closed_of_ne _ h.did_ne_buffer hnepayer, Ledger.store_lamports]
    exact hlamports
  · rw [Ledger.closed, Ledger.modify_of_ne _ _ hcovers.apart, Ledger.setLamports_self,
      Ledger.store_lamports, Ledger.store_lamports, hbuffer]
    omega

end Outcome

theorem direct_refused {i : Instruction} {e : Fault}
    (hasks : a.request.Asks P L i did d a.controller) (hrefused : (do
      admission P L did a.authority a.controller a.method.toNew
      checkNewKey P.isCurvePoint a.method.toNew a.method.key a.authority) = .error e) :
    invoke P (i.call sv) L = .error e :=
  h.located.direct_refused hasks hrefused

/-! ### Sequences -/

theorem exists_writes (offset : ℕ) (chunks : List Bytes) :
    ∃ is, a.writes P offset chunks = some is := by
  induction chunks generalizing offset with
  | nil => exact ⟨[], rfl⟩
  | cons chunk chunks ih =>
    obtain ⟨is, his⟩ := ih (offset + chunk.length)
    exact ⟨_, by rw [writes, h.located.write_eq, his]; rfl⟩

theorem chunked_refused (sv : Sysvars) (chunks : List Bytes) {e : Fault}
    (hrefused : admission P L did a.authority a.controller a.method.toNew = .error e) :
    ∃ is, a.chunked P chunks = some is ∧ invokeAll P sv is L = .error (0, e) := by
  obtain ⟨first, hfirst, hrun⟩ := h.opening_refused sv hrefused
  obtain ⟨is, his⟩ := h.exists_writes 0 chunks
  obtain ⟨last, hlast⟩ : ∃ last, a.finishing P = some last := ⟨_, h.located.finishing_eq⟩
  refine ⟨first :: is ++ [last], ?_, invokeAll_cons_error hrun _⟩
  rw [chunked, hfirst, his, hlast]
  rfl

theorem chunked_staged (hP : P.Lawful) {need needDid : ℕ}
    (hcovers : a.Covers need needDid L did buffer)
    (hneed : rentMinimumBalance P sv (keyBufferHeader + a.method.key.length) = .ok need)
    {chunks : List Bytes} (hchunks : ∀ chunk ∈ chunks, chunk ≠ [])
    (hsplit : chunks.flatten = a.method.key)
    (hadmitted : admission P L did a.authority a.controller a.method.toNew = .ok ()) :
    ∃ first is kb L₁,
      (∀ last, a.finishing P = some last → a.chunked P chunks = some (first :: is ++ [last])) ∧
      invokeAll P sv (first :: is) L = .ok L₁ ∧
      a.Staging P L did buffer need kb L₁ ∧ kb.received = a.method.key := by
  obtain ⟨first, kb, log, L₁, hfirst, hrun, hs, hempty⟩ :=
    h.opening_accepted hP hcovers hneed hadmitted
  have hlen : kb.received.length + chunks.flatten.length ≤ kb.method.keyLen := by
    rw [hempty, hsplit, hs.record.2.2, List.length_nil, Nat.zero_add]
    exact le_rfl
  obtain ⟨is, kb', L₂, his, hall, hs', hkb'⟩ :=
    h.writes_accepted sv hs hcovers.apart hchunks hlen
  rw [hempty] at his hkb'
  refine ⟨first, is, kb', L₂, fun last hlast => ?_, ?_, hs',
    by rw [hkb', hsplit, List.nil_append]⟩
  · rw [chunked, hfirst, show a.writes P 0 chunks = some is from his, hlast]
    rfl
  · rw [invokeAll_cons_ok hrun, hall]
    rfl

end Addition.Ready

namespace Addition

variable {a : Addition} {did buffer : Address} {bump : UInt8} {d : Document} {key : Bytes}

theorem Ready.withKey (h : a.Ready P L did buffer bump d)
    (hlen : key.length = a.method.key.length) : (a.withKey key).Ready P L did buffer bump d :=
  { h with encodable := ⟨h.encodable.1, hlen ▸ h.encodable.2⟩ }

theorem Funded.withKey (h : a.Funded P sv L did buffer) (hlen : key.length = a.method.key.length) :
    (a.withKey key).Funded P sv L did buffer := by
  have hmethod : (a.withKey key).method.encode.length = a.method.encode.length := by
    rw [Method.length_encode, Method.length_encode]
    exact congrArg _ hlen
  refine { h with enough := ?_ }
  rw [hmethod, show (a.withKey key).method.key.length = a.method.key.length from hlen]
  exact h.enough

theorem toNew_withKey (hlen : key.length = a.method.key.length) :
    (a.withKey key).method.toNew = a.method.toNew := by
  simp [withKey, Method.toNew, hlen]

namespace Ready

variable (h : a.Ready P L did buffer bump d)

include h

theorem direct_refused_withKey {e : Fault}
    (hrefused : admission P L did a.authority a.controller a.method.toNew = .error e)
    (hlen : key.length = a.method.key.length) {i : Instruction}
    (hi : (a.withKey key).direct P = some i) : invoke P (i.call sv) L = .error e := by
  have hother := h.withKey hlen
  obtain ⟨j, hj, hasks⟩ := hother.exists_direct
  cases hi.symm.trans hj
  refine hother.direct_refused hasks ?_
  rw [toNew_withKey hlen]
  exact except_bind_error_iff.mpr (Or.inl hrefused)

/-- Past the opening, some key of the length is accepted. -/
theorem exists_accepted_key (hP : P.Lawful) (hfunds : a.Funded P sv L did buffer) {now : Int64}
    (hclock : sv.clock = .ok now)
    (hadmitted : admission P L did a.authority a.controller a.method.toNew = .ok ()) :
    ∃ key i L' log, key.length = a.method.key.length ∧ (a.withKey key).direct P = some i ∧
      invoke P (i.call sv) L = .ok (L', log) := by
  obtain ⟨-, hadmits⟩ := (admission_ok_iff h.isDid).mp hadmitted
  obtain ⟨key, hlen, hallowed⟩ := Body.exists_key_of_admits P.isCurvePoint a.authority hadmits
  have hother := h.withKey hlen
  obtain ⟨i, hi, hasks⟩ := hother.exists_direct
  obtain ⟨_, hkey, -⟩ := (hallowed ▸ checkNewKey_agrees P.isCurvePoint a.authority
    (a.withKey key).method).ok_of
  obtain ⟨forBuffer, forDid, -, hneed, hcovers⟩ := (hfunds.withKey hlen).covers
  obtain ⟨L', log, hrun, -⟩ := hother.direct_accepted
    (by rw [toNew_withKey hlen]; exact hadmitted) hkey hP hcovers hneed hclock hasks
  exact ⟨key, i, L', log, hlen, hi, hrun⟩

end Ready

end Addition

/-! ### The same outcome -/

/-- Every way of adding a method in chunks comes to what the direct addition comes to. -/
theorem chunked_path_equals_direct_path (hP : P.Lawful) {turns : List Turn} (h₀ : Fresh L₀)
    (hrun : Run (Step P) L₀ turns L) {a : Addition} {did buffer : Address} {d : Document}
    {chunks : List Bytes} {now : Int64} (hd : L.DidAt P did d) (hsubject : d.subject = a.subject)
    (hbuffer : Client.keyBuffer P a.subject a.authority = some buffer)
    (hvacant : L.Vacant buffer)
    (hencodable : (Op.addVm a.method).Encodable) (hchunks : ∀ chunk ∈ chunks, chunk ≠ [])
    (hsplit : chunks.flatten = a.method.key) (hclock : sv.clock = .ok now)
    (hfunds : d.body.admits a.method.toNew = .ok () → a.Funded P sv L did buffer) :
    ∃ i is, a.direct P = some i ∧ a.chunked P chunks = some is ∧
      ((∃ L'', invokeAll P sv is L = .ok L'') ↔ ∃ L' log, invoke P (i.call sv) L = .ok (L', log)) ∧
      (∀ L' log L'', invoke P (i.call sv) L = .ok (L', log) → invokeAll P sv is L = .ok L'' →
        (L'' did).data = (L' did).data ∧ (L'' did).lamports = (L' did).lamports ∧
          L'' buffer = ⟨0, [], systemProgram⟩ ∧
          ((L buffer).lamports = 0 → (L'' a.payer).lamports = (L' a.payer).lamports)) ∧
      ∀ e, invoke P (i.call sv) L = .error e → ∃ n, invokeAll P sv is L = .error (n, e) ∧
        (n = 0 ↔ ∀ key j, key.length = a.method.key.length →
          (a.withKey key).direct P = some j → invoke P (j.call sv) L = .error e) := by
  have hS : Sound P L := sound_of_run hP h₀ hrun
  obtain ⟨bump, hready⟩ : ∃ bump, a.Ready P L did buffer bump d := by
    have hd₀ : Registered P L did d := hS.registered_of_didAt hd
    have hdid : Client.didAccount P a.subject = some did := by
      rw [Client.didAccount, ← hsubject, hd₀.found]
      rfl
    rw [Client.keyBuffer, hdid] at hbuffer
    obtain ⟨⟨_, bump⟩, hfound, rfl⟩ := Option.map_eq_some_iff.mp hbuffer
    exact ⟨bump, hdid, hfound, hencodable, hd₀.toIsDid, hsubject, hd₀.wellFormed, hvacant⟩
  obtain ⟨i, hi, hasks⟩ := hready.exists_direct
  cases hadmitted : admission P L did a.authority a.controller a.method.toNew with
  | error e =>
    have hdirect : invoke P (i.call sv) L = .error e :=
      hready.direct_refused hasks (by rw [hadmitted]; rfl)
    obtain ⟨is, his, hall⟩ := hready.chunked_refused sv chunks hadmitted
    refine ⟨i, is, hi, his, ?_, fun L' log L'' hok => ?_, fun e' he' => ⟨0, ?_, ?_⟩⟩
    · rw [hdirect, hall]
      simp
    · exact absurd (hok.symm.trans hdirect) (by simp)
    · cases hdirect.symm.trans he'
      exact hall
    · cases hdirect.symm.trans he'
      exact iff_of_true rfl fun key j hlen hj => hready.direct_refused_withKey hadmitted hlen hj
  | ok u =>
    obtain ⟨-, hadmits⟩ := (admission_ok_iff hready.isDid).mp hadmitted
    have hfunded := hfunds hadmits
    obtain ⟨forBuffer, forDid, hbufferNeed, hdidNeed, hcovers⟩ := hfunded.covers
    obtain ⟨first, is, kb, L₁, hall, hstaged, hs, hcomplete⟩ :=
      hready.chunked_staged hP hcovers hbufferNeed hchunks hsplit hadmitted
    cases hkey : checkNewKey P.isCurvePoint a.method.toNew a.method.key a.authority with
    | error e =>
      have hdirect : invoke P (i.call sv) L = .error e :=
        hready.direct_refused hasks (by rw [hadmitted]; exact hkey)
      obtain ⟨last, hlast, hrefused⟩ :=
        hready.finishing_refused hs hcomplete hadmitted sv hkey
      have hfailed : invokeAll P sv (first :: is ++ [last]) L =
          .error ((first :: is).length + 0, e) := by
        rw [invokeAll_append_ok hstaged, invokeAll_cons_error hrefused]
        rfl
      refine ⟨i, _, hi, hall last hlast, ?_, fun L' log L'' hok => ?_, fun e' he' =>
        ⟨(first :: is).length + 0, ?_, ?_⟩⟩
      · rw [hdirect, hfailed]
        simp
      · exact absurd (hok.symm.trans hdirect) (by simp)
      · cases hdirect.symm.trans he'
        exact hfailed
      · refine iff_of_false (Nat.succ_ne_zero _) fun hnever => ?_
        obtain ⟨key, j, L', log, hlen, hj, hok⟩ :=
          hready.exists_accepted_key hP hfunded hclock hadmitted
        exact absurd (hok.symm.trans (hnever key j hlen hj)) (by simp)
    | ok u' =>
      obtain ⟨L', log, hdirect, hdata, hlamports, hpaid⟩ :=
        hready.direct_accepted hadmitted hkey hP hcovers hdidNeed hclock hasks
      obtain ⟨last, L'', log', hlast, hfinished, hdata', hlamports', hgone, hpaid'⟩ :=
        hready.finishing_accepted hadmitted hkey hP hcovers hdidNeed hclock hs hcomplete
      have hdone : invokeAll P sv (first :: is ++ [last]) L = .ok L'' := by
        rw [invokeAll_append_ok hstaged, invokeAll_cons_ok hfinished]
        rfl
      refine ⟨i, _, hi, hall last hlast, ?_, fun M log M' hM hM' => ?_, fun e he => ?_⟩
      · exact iff_of_true ⟨_, hdone⟩ ⟨_, _, hdirect⟩
      · cases hdirect.symm.trans hM
        cases hdone.symm.trans hM'
        refine ⟨hdata'.trans hdata.symm, hlamports'.trans hlamports.symm, hgone, fun hzero => ?_⟩
        have hbalance := hpaid' hzero
        omega
      · exact absurd (hdirect.symm.trans he) (by simp)

/-- An X25519 key in two chunks, which the DID's own subject adds. -/
def Sample.keyAddition : Addition where
  payer := payer
  authority := subject
  subject := subject
  controller := none
  method := ⟨[97], vmTypeX25519, vmFlagKeyAgreement, List.replicate 32 9⟩

theorem chunked_path_equals_direct_path_sample :
    let L := afterAll Sample.platform [Sample.creation] Sample.ledger
    ∃ i is, Sample.keyAddition.direct Sample.platform = some i ∧
      Sample.keyAddition.chunked Sample.platform [List.replicate 20 9, List.replicate 12 9] =
        some is ∧ ((∃ L'', invokeAll Sample.platform Sample.sysvars is L = .ok L'') ↔
          ∃ L' log, invoke Sample.platform (i.call Sample.sysvars) L = .ok (L', log)) := by
  intro L
  have hd : L.DidAt Sample.platform Sample.did Sample.document := by decide +kernel
  have hfunded : Sample.keyAddition.Funded Sample.platform Sample.sysvars L Sample.did
      Sample.buffer :=
    ⟨by decide +kernel, by decide +kernel, by decide, ⟨(128 + 152) * 6960, (128 + 168) * 6960,
      by decide +kernel, by decide +kernel, by decide +kernel⟩, by decide +kernel⟩
  obtain ⟨i, is, hi, his, hiff, -⟩ := chunked_path_equals_direct_path Sample.platform_lawful
    Sample.ledger_fresh (run_of_calls [Sample.creation] Sample.ledger) (a := Sample.keyAddition) hd
    rfl (by decide +kernel) (by decide +kernel) ⟨⟨by decide, by decide⟩, by decide⟩
    (show ∀ chunk ∈ [List.replicate 20 9, List.replicate 12 9], chunk ≠ [] by decide)
    (by decide) rfl fun _ => hfunded
  exact ⟨i, is, hi, his, hiff⟩

end BioDidRegistry
