import BioDidRegistry.Foundation.Schedules
import BioDidRegistry.Registry.Builders
import BioDidRegistry.Registry.Runs

/-!
# Uploads of a key

The instructions of `uploadKey` as a plan, and how far an upload has come. In every stage
the one instruction that can go through is the next one of the plan: the buffer is opened
once while the fragment is free, a chunk fits only where the one before it ended, and the
finish needs the whole key.
-/

namespace BioDidRegistry

open BinaryFormat Reader Transition

/-- An instruction as it is sent at one time. -/
structure Attempt where
  instruction : Instruction
  sysvars : Sysvars

/-- The ledger an attempt that goes through leads to. -/
def Attempt.run (P : Platform) (x : Attempt) (L : Ledger) : Option Ledger :=
  (invoke P (x.instruction.call x.sysvars) L).toOption.map Prod.fst

theorem Attempt.run_eq_some_iff {P : Platform} {x : Attempt} {L L' : Ledger} :
    x.run P L = some L' ↔ ∃ log, invoke P (x.instruction.call x.sysvars) L = .ok (L', log) := by
  unfold Attempt.run
  cases invoke P (x.instruction.call x.sysvars) L with
  | error e => simp [Except.toOption]
  | ok r => simp [Except.toOption, Prod.ext_iff]

/-- An upload of the key of `method`, with the addresses of the DID and of the buffer. -/
structure KeyUpload where
  payer : Address
  authority : Address
  did : Address
  buffer : Address
  method : Method

namespace KeyUpload

variable (u : KeyUpload)

def accounts : List AccountView :=
  [.writable u.payer true, .readonly u.authority true, .writable u.did false,
    .writable u.buffer false, .readonly systemProgram false]

def opening : Instruction :=
  ⟨programId, u.accounts, Ix.createKeyBuffer.discriminator ++ u.method.toNew.args⟩

def writing (k : ℕ) (chunk : Bytes) : Instruction :=
  ⟨programId, [.readonly u.authority true, .writable u.buffer false],
    Ix.writeKeyBuffer.discriminator ++
      WriteKeyBuffer.chunkArgs (UInt32.ofNat (k * Client.keyChunkLen)) chunk⟩

def finishing : Instruction :=
  ⟨programId, u.accounts, Ix.addVerificationMethodFromBuffer.discriminator ++ []⟩

def chunks : List Bytes := BinaryFormat.chunks Client.keyChunkLen u.method.key

def plan : List Instruction :=
  u.opening :: u.chunks.zipIdx.map (fun c => u.writing c.2 c.1) ++ [u.finishing]

/-! ### The plan -/

theorem length_plan : u.plan.length = u.chunks.length + 2 := by
  simp [plan]

variable {u}

theorem getElem?_plan_writing {k : ℕ} (hk : k < u.chunks.length) :
    u.plan[k + 1]? = (u.chunks[k]?).map fun chunk => u.writing k chunk := by
  rw [plan, List.cons_append, List.getElem?_cons_succ,
    List.getElem?_append_left (by simpa using hk)]
  simp only [List.getElem?_map, List.getElem?_zipIdx, Option.map_map, Nat.zero_add]
  rfl

theorem getElem?_plan_finishing : u.plan[u.chunks.length + 1]? = some u.finishing := by
  rw [plan, List.cons_append, List.getElem?_cons_succ, List.getElem?_append_right (by simp)]
  simp

theorem mem_plan {i : Instruction} (h : i ∈ u.plan) : i = u.opening ∨
    (∃ (k : ℕ) (chunk : Bytes), u.chunks[k]? = some chunk ∧ i = u.writing k chunk) ∨
      i = u.finishing := by
  rw [plan, List.cons_append, List.mem_cons, List.mem_append, List.mem_singleton,
    List.mem_map] at h
  refine h.imp_right (Or.imp_left ?_)
  rintro ⟨⟨chunk, k⟩, hmem, rfl⟩
  exact ⟨k, chunk, List.mk_mem_zipIdx_iff_getElem?.mp hmem, rfl⟩

theorem mapM_eq_some {α β : Type} {f : α → Option β} {g : α → β} {xs : List α}
    (h : ∀ x ∈ xs, f x = some (g x)) : xs.mapM f = some (xs.map g) := by
  induction xs with
  | nil => rfl
  | cons x xs ih =>
    obtain ⟨hx, hrest⟩ := List.forall_mem_cons.mp h
    rw [List.mapM_cons, hx, ih hrest]
    rfl

section Addresses

variable {P : Platform} {subject : Address} (hdid : Client.didAccount P subject = some u.did)
  (hbuffer : Client.keyBuffer P subject u.authority = some u.buffer)

include hdid hbuffer

theorem createKeyBuffer_eq (hkey : u.method.key.length < 2 ^ 32) :
    Client.createKeyBuffer P u.payer u.authority subject u.method.fragment u.method.methodType
      u.method.flags (UInt32.ofNat u.method.key.length) = some u.opening := by
  have hlen : (UInt32.ofNat u.method.key.length).toNat = u.method.key.length :=
    UInt32.toNat_ofNat_of_lt hkey
  have hbase := Builder.base_eq (b := .createKeyBuffer u.payer u.authority subject
    u.method.fragment u.method.methodType u.method.flags (UInt32.ofNat u.method.key.length))
    ⟨hdid, hbuffer⟩
  rw [Builder.args, hlen] at hbase
  exact hbase

theorem writeKeyBuffer_eq (k : ℕ) (chunk : Bytes) :
    Client.writeKeyBuffer P u.authority subject (UInt32.ofNat (k * Client.keyChunkLen)) chunk =
      some (u.writing k chunk) :=
  Builder.base_eq (b := .writeKeyBuffer u.authority subject _ chunk) ⟨hdid, hbuffer⟩

theorem addVerificationMethodFromBuffer_eq :
    Client.addVerificationMethodFromBuffer P u.payer u.authority subject = some u.finishing :=
  Builder.base_eq (b := .addVerificationMethodFromBuffer u.payer u.authority subject)
    ⟨hdid, hbuffer⟩

/-- The plan is what the client builds. -/
theorem uploadKey_eq (hkey : u.method.key.length < 2 ^ 32) :
    Client.uploadKey P u.payer u.authority subject u.method.fragment u.method.methodType
      u.method.flags u.method.key = some u.plan := by
  have hwrites : u.chunks.zipIdx.mapM (fun chunk => Client.writeKeyBuffer P u.authority subject
      (UInt32.ofNat (chunk.2 * Client.keyChunkLen)) chunk.1) =
      some (u.chunks.zipIdx.map fun c => u.writing c.2 c.1) :=
    mapM_eq_some fun chunk _ => writeKeyBuffer_eq hdid hbuffer chunk.2 chunk.1
  have hchunks : BinaryFormat.chunks Client.keyChunkLen u.method.key = u.chunks := rfl
  rw [Client.uploadKey, createKeyBuffer_eq hdid hbuffer hkey, hchunks, hwrites,
    addVerificationMethodFromBuffer_eq hdid hbuffer]
  rfl

end Addresses

end KeyUpload

/-! ### The arguments of an accepted call -/

/-- An accepted instruction ran the handler its data names. -/
theorem Instruction.run_of_invoke {P : Platform} {sv : Sysvars} {L L' : Ledger} {i : Instruction}
    {ix : Ix} {args : Bytes} {log : List Bytes} (hdata : i.data = ix.discriminator ++ args)
    (h : invoke P (i.call sv) L = .ok (L', log)) :
    handler P sv ix i.accounts args ⟨L, []⟩ = .ok () ⟨L', log⟩ := by
  obtain ⟨hix, hargs⟩ := Call.ix_of_data (c := i.call sv) hdata
  obtain ⟨ix', hix', hrun⟩ := invoke_ok_iff.mp h
  cases hix.symm.trans hix'
  rw [hargs] at hrun
  exact hrun

/-- Read arguments describe one method, also when the fragment written was not checked. -/
theorem NewMethod.eq_of_args {nm nm' : NewMethod} (hnm : nm.Encodable) (hlen : nm'.keyLen < 2 ^ 32)
    (h : nm.args = nm'.args) : nm = nm' := by
  have hsame : nm.fragment.length = nm'.fragment.length := by
    have htotal := congrArg List.length h
    simp only [args, lenPrefix, List.length_append, List.length_cons, List.length_nil,
      length_u32Bytes, length_u16Bytes, length_leBytes] at htotal
    omega
  have hfragment : nm.fragment = nm'.fragment := by
    have hcut := congrArg (fun bs => (bs.drop 4).take nm.fragment.length) h
    simpa [args, lenPrefix, hsame] using hcut
  have hnm' : nm'.Encodable := ⟨hfragment ▸ hnm.1, hlen⟩
  have hpre : nm.args <+: (new .args nm'.args).rest := by
    rw [h]
    exact List.prefix_rfl
  exact CreateKeyBuffer.readNewMethod_reads.unique hnm hnm' hpre List.prefix_rfl

theorem WriteKeyBuffer.eq_of_chunkArgs {offset offset' : UInt32} {chunk chunk' : Bytes}
    (hlen : chunk.length < 2 ^ 32) (h : chunkArgs offset chunk = chunkArgs offset' chunk') :
    offset = offset' ∧ chunk = chunk' := by
  have hlen' : chunk'.length < 2 ^ 32 := by
    have htotal := congrArg List.length h
    simp only [chunkArgs, lenPrefix, List.length_append, length_u32Bytes, length_leBytes] at htotal
    omega
  have hpre : chunkArgs offset chunk <+: (new .args (chunkArgs offset' chunk')).rest := by
    rw [h]
    exact List.prefix_rfl
  have hpair := readChunk_reads.unique (a := (offset, chunk)) (b := (offset', chunk')) hlen hlen'
    hpre List.prefix_rfl
  exact Prod.mk.inj hpair

namespace KeyUpload

variable {P : Platform} {sv : Sysvars} {L L' L₀ : Ledger} {u : KeyUpload} {log : List Bytes}

theorem opens_of_invoke (hP : P.Lawful) (hkey : u.method.key.length < 2 ^ 32)
    (h : invoke P (u.opening.call sv) L = .ok (L', log)) :
    ∃ d kb, Opens P sv (.writable u.payer true) (.readonly u.authority true)
      (.writable u.did false) (.writable u.buffer false) none d u.method.toNew kb L L' := by
  have hrun : handler P sv .createKeyBuffer _ _ ⟨L, []⟩ = .ok () ⟨L', log⟩ :=
    Instruction.run_of_invoke rfl h
  obtain ⟨-, d, nm, kb, hargs, hnm, hopens, -⟩ := (createKeyBuffer_ok_iff hP).mp hrun
  obtain rfl := NewMethod.eq_of_args hnm hkey hargs.symm
  exact ⟨d, kb, hopens⟩

theorem writes_of_invoke (hP : P.Lawful) (hS : Sound P L) {k : ℕ} {chunk : Bytes}
    (h : invoke P ((u.writing k chunk).call sv) L = .ok (L', log)) :
    ∃ kb, Staged P L u.buffer kb ∧
      (UInt32.ofNat (k * Client.keyChunkLen)).toNat = kb.received.length ∧
        ∃ hfits, L' = L.store u.buffer (kb.append chunk hfits).encode := by
  have hrun : handler P sv .writeKeyBuffer _ _ ⟨L, []⟩ = .ok () ⟨L', log⟩ :=
    Instruction.run_of_invoke rfl h
  obtain ⟨-, -, -, hchecked⟩ := Ix.received_of_run hP hrun
  obtain ⟨_, -, hverify⟩ := except_bind_ok_iff.mp hchecked
  obtain ⟨kb, hkb⟩ := hS.staged_of_verify hverify
  have hwrite : WriteKeyBuffer.process P [.readonly u.authority true, .writable u.buffer false]
      (WriteKeyBuffer.chunkArgs (UInt32.ofNat (k * Client.keyChunkLen)) chunk) ⟨L, []⟩ =
      .ok () ⟨L', log⟩ := hrun
  obtain ⟨-, offset, chunk', hargs, -, hoffset, hfits, hL'⟩ :=
    (writeKeyBuffer_ok_iff hkb.toIsBuffer).mp hwrite
  have hshort : chunk'.length < 2 ^ 32 := by
    have hlt := kb.keyLen_lt
    omega
  obtain ⟨rfl, rfl⟩ := WriteKeyBuffer.eq_of_chunkArgs hshort hargs.symm
  exact ⟨kb, hkb, hoffset, hfits, congrArg Machine.ledger hL'⟩

theorem finishes_of_invoke (hP : P.Lawful) (hS : Sound P L)
    (h : invoke P (u.finishing.call sv) L = .ok (L', log)) :
    ∃ d kb body now L₁, Registered P L u.did d ∧ Staged P L u.buffer kb ∧
      kb.received.length = kb.method.keyLen ∧ Authorized P L d u.authority none ∧
      d.body.apply P.isCurvePoint u.authority d.subject (.addVm kb.toMethod) = .ok body ∧
      Resettles P sv L (.writable u.did false) (.writable u.payer true) d.encode.length
        (d.updated (.addVm kb.toMethod) body now).encode.length L₁ ∧
      L' = (L₁.store u.did (d.updated (.addVm kb.toMethod) body now).encode).closed u.buffer
        u.payer := by
  have hrun : handler P sv .addVerificationMethodFromBuffer _ _ ⟨L, []⟩ = .ok () ⟨L', log⟩ :=
    Instruction.run_of_invoke rfl h
  obtain ⟨-, -, -, hchecked⟩ := Ix.received_of_run hP hrun
  obtain ⟨_, -, hchecked⟩ := except_bind_ok_iff.mp hchecked
  obtain ⟨_, -, hchecked⟩ := except_bind_ok_iff.mp hchecked
  obtain ⟨_, -, hchecked⟩ := except_bind_ok_iff.mp hchecked
  obtain ⟨s, hdid, hverify⟩ := except_bind_ok_iff.mp hchecked
  obtain ⟨_, -, hload⟩ := except_bind_ok_iff.mp hdid
  obtain ⟨d, hd, -⟩ := hS.registered_of_load hload
  obtain ⟨kb, hkb⟩ := hS.staged_of_verify hverify
  obtain ⟨-, -, hcomplete, hauth, body, happly, v, m₁, ⟨now, L₁, -, hsettled, rfl, -⟩, -, hL'⟩ :=
    (finish_ok_iff hP hd.toIsDid hd.wellFormed hkb.toIsBuffer).mp hrun
  exact ⟨d, kb, body, now, L₁, hd, hkb, hcomplete, hauth, happly, hsettled,
    congrArg Machine.ledger hL'⟩

end KeyUpload

/-! ### Stages -/

def Document.withMethod (d : Document) (m : Method) (now : Int64) : Document :=
  d.updated (.addVm m) { d.body with methods := d.body.methods ++ [m] } now

namespace KeyUpload

variable {P : Platform} {sv : Sysvars} {L L' L₀ : Ledger} {u : KeyUpload} {log : List Bytes} {k : ℕ}

/-- How far the upload that started on `L₀` has come. -/
inductive Stage (P : Platform) (u : KeyUpload) (L₀ : Ledger) : ℕ → Ledger → Prop
  | idle : Stage P u L₀ 0 L₀
  | staged {k : ℕ} {L : Ledger} {kb : KeyBuffer} (le : k ≤ u.chunks.length)
      (isBuffer : IsBuffer P L u.buffer kb)
      (record : kb.didAccount = u.did ∧ kb.authority = u.authority ∧ kb.method = u.method.toNew)
      (received : kb.received = (u.chunks.take k).flatten)
      (others : ∀ x, x ≠ u.buffer → (L x).data = (L₀ x).data ∧ (L x).owner = (L₀ x).owner) :
      Stage P u L₀ (k + 1) L
  | done {L : Ledger} {d : Document} {now : Int64} (before : Registered P L₀ u.did d)
      (after : Registered P L u.did (d.withMethod u.method now))
      (gone : L u.buffer = ⟨0, [], systemProgram⟩)
      (others : ∀ x, x ≠ u.did → x ≠ u.buffer →
        (L x).data = (L₀ x).data ∧ (L x).owner = (L₀ x).owner) :
      Stage P u L₀ (u.chunks.length + 2) L

theorem keyChunkLen_pos : 0 < Client.keyChunkLen := by decide

theorem flatten_chunks : u.chunks.flatten = u.method.key :=
  BinaryFormat.flatten_chunks keyChunkLen_pos _

/-- The chunks before number `k` are as long as its offset, unless they are the whole key. -/
theorem length_received (hk : k ≤ u.chunks.length) :
    (k < u.chunks.length ∧ (u.chunks.take k).flatten.length = k * Client.keyChunkLen ∧
      k * Client.keyChunkLen < u.method.key.length) ∨
    (k = u.chunks.length ∧ (u.chunks.take k).flatten = u.method.key) := by
  rcases Nat.lt_or_eq_of_le hk with hlt | rfl
  · have hbound := (lt_length_chunks_iff keyChunkLen_pos).mp hlt
    exact Or.inl ⟨hlt, length_take_chunks keyChunkLen_pos hlt, hbound⟩
  · refine Or.inr ⟨rfl, ?_⟩
    rw [List.take_length, flatten_chunks]

/-- A method that is there is not admitted again. -/
theorem not_admits_withMethod {d : Document} {m : Method} {now : Int64} {v : Unit} :
    (d.withMethod m now).body.admits m.toNew ≠ .ok v := by
  intro hadmits
  obtain ⟨-, -, hfree, -⟩ := Body.admits_ok_iff.mp hadmits
  simp [Document.withMethod, Document.updated, Body.taken, Method.toNew] at hfree

namespace Stage

theorem opened (hP : P.Lawful) (hkey : u.method.key.length < 2 ^ 32) (hs : Stage P u L₀ k L)
    (h : invoke P (u.opening.call sv) L = .ok (L', log)) : k = 0 ∧ Stage P u L₀ 1 L' := by
  obtain ⟨d, kb, hopens⟩ := opens_of_invoke hP hkey h
  cases hs with
  | idle =>
    obtain ⟨hdid, hauthority, hmethod, hnone⟩ := hopens.record
    obtain ⟨need, L₁, -, hfunds, rfl⟩ := hopens.created
    have hfound := hopens.found
    rw [← hdid, ← hauthority] at hfound
    refine ⟨rfl, .staged (Nat.zero_le _) ⟨Ledger.create_owner .., Ledger.create_data ..,
      hP.derive_found hfound⟩ ⟨hdid, hauthority, hmethod⟩ hnone ?_⟩
    intro x hx
    have hother : L₁.create u.buffer kb.encode x = L₁ x := Ledger.create_of_ne _ _ hx
    change (L₁.create u.buffer kb.encode x).data = _ ∧ (L₁.create u.buffer kb.encode x).owner = _
    rw [hother]
    exact ⟨hfunds.data x, hfunds.owner x⟩
  | staged le isBuffer =>
    exact absurd rfl (isBuffer.owner_ne hopens.vacant.1)
  | done before after gone others =>
    have hadmitted := hopens.admitted
    rw [hopens.isDid.unique after.toIsDid] at hadmitted
    exact absurd hadmitted not_admits_withMethod

/-- A chunk goes through only where the one before it ended. -/
theorem written (hP : P.Lawful) (hS : Sound P L) (hkey : u.method.key.length < 2 ^ 32)
    (hnone : ¬L₀.HasBuffer u.buffer) (hs : Stage P u L₀ k L) {j : ℕ} {chunk : Bytes}
    (hj : u.chunks[j]? = some chunk)
    (h : invoke P ((u.writing j chunk).call sv) L = .ok (L', log)) :
    k = j + 1 ∧ Stage P u L₀ (k + 1) L' := by
  obtain ⟨kb, hkb, hoffset, hfits, rfl⟩ := writes_of_invoke hP hS h
  cases hs with
  | idle => exact absurd hkb.toIsBuffer.hasBuffer hnone
  | staged le isBuffer record received others =>
    obtain rfl := isBuffer.unique hkb.toIsBuffer
    obtain ⟨hlt, -⟩ := chunks_eq_some keyChunkLen_pos hj
    have hto : (UInt32.ofNat (j * Client.keyChunkLen)).toNat = j * Client.keyChunkLen :=
      UInt32.toNat_ofNat_of_lt (hlt.trans hkey)
    rw [hto, received] at hoffset
    rename_i k kb
    have hnext : k = j := by
      rcases length_received le with ⟨-, hlen, -⟩ | ⟨-, hall⟩
      · rw [hlen] at hoffset
        exact (Nat.eq_of_mul_eq_mul_right keyChunkLen_pos hoffset).symm
      · rw [hall] at hoffset
        omega
    subst hnext
    obtain ⟨hcount, hget⟩ := List.getElem?_eq_some_iff.mp hj
    refine ⟨rfl, .staged hcount ⟨?_, Ledger.store_data .., hkb.address⟩ record ?_ ?_⟩
    · rw [Ledger.store_owner]
      exact hkb.owner
    · have happended : (kb.append chunk hfits).received = kb.received ++ chunk := rfl
      rw [happended, received, List.take_add_one, hj, List.flatten_append]
      simp
    · intro x hx
      rw [Ledger.store_of_ne _ _ hx]
      exact others x hx
  | done before after gone others =>
    have howner : (L u.buffer).owner = systemProgram := by rw [gone]
    exact absurd rfl (hkb.toIsBuffer.owner_ne howner)

theorem finished (hP : P.Lawful) (hS : Sound P L) (hnone : ¬L₀.HasBuffer u.buffer)
    (hs : Stage P u L₀ k L) (h : invoke P (u.finishing.call sv) L = .ok (L', log)) :
    k = u.chunks.length + 1 ∧ Stage P u L₀ (k + 1) L' := by
  obtain ⟨d, kb, body, now, L₁, hd, hkb, hcomplete, hauth, happly, hsettled, rfl⟩ :=
    finishes_of_invoke hP hS h
  cases hs with
  | idle => exact absurd hkb.toIsBuffer.hasBuffer hnone
  | staged le isBuffer record received others =>
    obtain rfl := isBuffer.unique hkb.toIsBuffer
    rename_i k kb
    obtain ⟨-, -, hmethod⟩ := record
    rw [received, hmethod] at hcomplete
    obtain ⟨rfl, hall⟩ : k = u.chunks.length ∧ (u.chunks.take k).flatten = u.method.key := by
      rcases length_received le with ⟨-, hlen, hlt⟩ | hwhole
      · rw [hlen] at hcomplete
        exact absurd hcomplete hlt.ne
      · exact hwhole
    have hsame : kb.toMethod = u.method := by
      rw [KeyBuffer.toMethod, received, hmethod, hall]
      rfl
    rw [hsame] at happly hsettled ⊢
    obtain ⟨-, -, rfl⟩ := Body.addVm_ok_iff.mp happly
    have hne : u.did ≠ u.buffer := hd.toIsDid.ne_buffer hkb.toIsBuffer
    have hbefore : Registered P L₀ u.did d := by
      obtain ⟨hdata, howner⟩ := others u.did hne
      exact hd.of_same ⟨hdata.symm, howner.symm⟩
    have hadded : Registered P ((L₁.store u.did (d.withMethod u.method now).encode).closed
        u.buffer u.payer) u.did (d.withMethod u.method now) := by
      apply hd.of_updated hauth happly
      · rw [Ledger.closed_owner _ _ hne, Ledger.store_owner, hsettled.owner, hd.owner]
      · rw [Ledger.closed_data _ _ hne, Ledger.store_data]
        rfl
    refine ⟨rfl, .done hbefore hadded (Ledger.closed_self ..) ?_⟩
    intro x hdid hbuffer
    rw [Ledger.closed_data _ _ hbuffer, Ledger.closed_owner _ _ hbuffer,
      Ledger.store_of_ne _ _ hdid, hsettled.data, hsettled.owner]
    exact others x hbuffer
  | done before after gone others =>
    have howner : (L u.buffer).owner = systemProgram := by rw [gone]
    exact absurd rfl (hkb.toIsBuffer.owner_ne howner)

/-- What goes through is the next instruction of the plan. -/
theorem turn (hP : P.Lawful) (hS : Sound P L) (hkey : u.method.key.length < 2 ^ 32)
    (hnone : ¬L₀.HasBuffer u.buffer) (hs : Stage P u L₀ k L) {i : Instruction} (hi : i ∈ u.plan)
    (h : invoke P (i.call sv) L = .ok (L', log)) :
    u.plan[k]? = some i ∧ Stage P u L₀ (k + 1) L' := by
  rcases mem_plan hi with rfl | ⟨j, chunk, hj, rfl⟩ | rfl
  · obtain ⟨rfl, hnext⟩ := hs.opened hP hkey h
    exact ⟨rfl, hnext⟩
  · obtain ⟨rfl, hnext⟩ := hs.written hP hS hkey hnone hj h
    obtain ⟨hlt, -⟩ := List.getElem?_eq_some_iff.mp hj
    refine ⟨?_, hnext⟩
    rw [getElem?_plan_writing hlt, hj]
    rfl
  · obtain ⟨rfl, hnext⟩ := hs.finished hP hS hnone h
    exact ⟨getElem?_plan_finishing, hnext⟩

end Stage

/-- The plan goes through in its order. -/
theorem inOrder (hP : P.Lawful) (hkey : u.method.key.length < 2 ^ 32)
    (hnone : ¬L₀.HasBuffer u.buffer) :
    InOrder (Attempt.run P) Attempt.instruction u.plan (fun _ => True) fun k L =>
      Sound P L ∧ Stage P u L₀ k L where
  refused := by
    intro k L x hstage _ hplan hother
    obtain ⟨hS, hs⟩ := hstage
    cases hrun : x.run P L with
    | none => rfl
    | some L' =>
      obtain ⟨log, hok⟩ := Attempt.run_eq_some_iff.mp hrun
      obtain ⟨hnext, -⟩ := hs.turn hP hS hkey hnone hplan hok
      exact absurd hnext hother
  next := by
    intro k L x L' hstage _ hnext hrun
    obtain ⟨hS, hs⟩ := hstage
    obtain ⟨log, hok⟩ := Attempt.run_eq_some_iff.mp hrun
    have hplan : x.instruction ∈ u.plan := List.mem_of_getElem? hnext
    exact ⟨(Step.accepted hok).sound hP hS, (hs.turn hP hS hkey hnone hplan hok).2⟩

end KeyUpload

end BioDidRegistry
