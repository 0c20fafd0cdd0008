import BioDidRegistry.Properties.ChunkedPath
import BioDidRegistry.Properties.FailingCalls
import BioDidRegistry.Properties.Lamports
import BioDidRegistry.Registry.Locality

/-!
# Resumed uploads

An interrupted upload resumes from what its buffer has received, whatever has become of
the DID since. The rest of the key is taken in chunks of any size, and the finish then does
what the addition in one instruction would have done when the upload was resumed.
-/

namespace BioDidRegistry

open BinaryFormat Transition Reader

variable {P : Platform} {sv : Sysvars} {L L₀ : Ledger}

/-! ### What a buffer holds -/

theorem IsBuffer.loadDidAccount_refused {view : AccountView} {kb : KeyBuffer}
    (hkb : IsBuffer P L view.address kb) :
    loadDidAccount P L view = .error (.program .invalidAccountData) := by
  have hother : ((L view.address).data.take 8 == accountDiscriminator) = false := by
    rw [hkb.take_data]
    decide
  unfold loadDidAccount
  simp only [hkb.owner, beq_self_eq_true, hother, Bool.and_false]
  rfl

/-- Whether a method is admitted does not depend on what the buffers hold. -/
theorem admission_of_buffers {M : Ledger} {a did signer : Address} {kb kb' : KeyBuffer}
    {controller : Option AccountView} {nm : NewMethod} (hkb : IsBuffer P L a kb)
    (hkb' : IsBuffer P M a kb') (hothers : ∀ x, x ≠ a → M x = L x) (hdid : did ≠ a) :
    admission P M did signer controller nm = admission P L did signer controller nm := by
  have hauth (doc : DidView) : authorize P M doc signer controller =
      authorize P L doc signer controller := by
    cases controller with
    | none => rfl
    | some c =>
      unfold authorize
      by_cases hc : c.address = a
      · subst hc
        simp only [hkb.loadDidAccount_refused, hkb'.loadDidAccount_refused]
        rfl
      · simp only [loadDidAccount_agree (hothers _ hc), hothers _ hc]
  unfold admission
  simp only [hothers _ hdid, hauth]

/-! ### The rest of the key -/

namespace Addition

/-- The addition is under way: its buffer holds `kb` of it, and its DID is `d`. -/
structure Begun (P : Platform) (a : Addition) (L : Ledger) (did buffer : Address) (d : Document)
    (kb : KeyBuffer) : Prop extends a.Located P L did buffer d where
  isBuffer : IsBuffer P L buffer kb
  record : kb.didAccount = did ∧ kb.authority = a.authority ∧ kb.method = a.method.toNew

namespace Begun

variable {a : Addition} {did buffer : Address} {d : Document} {kb : KeyBuffer}
  (h : a.Begun P L did buffer d kb)

include h

theorem did_ne_buffer : did ≠ buffer := by
  rintro rfl
  exact h.isDid.not_isBuffer h.isBuffer

theorem store {chunk : Bytes} (hle : kb.received.length + chunk.length ≤ kb.method.keyLen) :
    a.Begun P (L.store buffer (kb.append chunk hle).encode) did buffer d (kb.append chunk hle) := by
  have hsame : L.store buffer (kb.append chunk hle).encode did = L did :=
    Ledger.store_of_ne _ _ h.did_ne_buffer
  refine { h with isDid := h.isDid.agree hsame, isBuffer := ⟨?_, Ledger.store_data .., ?_⟩ }
  · rw [Ledger.store_owner]
    exact h.isBuffer.owner
  · exact h.isBuffer.address

theorem write_accepted (sv : Sysvars) {chunk : Bytes} (hchunk : chunk ≠ [])
    (hle : kb.received.length + chunk.length ≤ kb.method.keyLen) :
    ∃ i, Client.writeKeyBuffer P a.authority a.subject (UInt32.ofNat kb.received.length) chunk =
        some i ∧
      invoke P (i.call sv) L = .ok (L.store buffer (kb.append chunk hle).encode, []) := by
  have hlt : kb.received.length < 2 ^ 32 := kb.received_le.trans_lt kb.keyLen_lt
  have hoffset : (UInt32.ofNat kb.received.length).toNat = kb.received.length :=
    UInt32.toNat_ofNat_of_lt hlt
  have hrun : WriteKeyBuffer.process P [.readonly a.authority true, .writable buffer false]
      (WriteKeyBuffer.chunkArgs (UInt32.ofNat kb.received.length) chunk) ⟨L, []⟩ =
      .ok () ⟨L.store buffer (kb.append chunk hle).encode, []⟩ :=
    (writeKeyBuffer_ok_iff h.isBuffer).mpr ⟨⟨rfl, rfl, h.record.2.1⟩, _, chunk, rfl, hchunk,
      hoffset, hle, rfl⟩
  exact ⟨_, h.write_eq _ chunk, Instruction.invoke_ok rfl hrun⟩

end Begun

/-- Chunks that continue the buffer are taken one after the other, and nothing but the buffer
changes. -/
theorem Begun.writes_accepted {a : Addition} {did buffer : Address} {d : Document}
    {kb : KeyBuffer} (h : a.Begun P L did buffer d kb) (sv : Sysvars) {chunks : List Bytes}
    (hchunks : ∀ chunk ∈ chunks, chunk ≠ [])
    (hfits : kb.received.length + chunks.flatten.length ≤ kb.method.keyLen) :
    ∃ is kb' M, a.writes P kb.received.length chunks = some is ∧ invokeAll P sv is L = .ok M ∧
      a.Begun P M did buffer d kb' ∧ kb'.received = kb.received ++ chunks.flatten ∧
      (∀ x, x ≠ buffer → M x = L x) ∧ (M buffer).lamports = (L buffer).lamports := by
  induction chunks generalizing kb L with
  | nil => exact ⟨[], kb, L, rfl, rfl, h, by simp, fun _ _ => rfl, rfl⟩
  | cons chunk chunks ih =>
    obtain ⟨hchunk, hrest⟩ := List.forall_mem_cons.mp hchunks
    rw [List.flatten_cons, List.length_append] at hfits
    have hle : kb.received.length + chunk.length ≤ kb.method.keyLen := by omega
    obtain ⟨i, hi, hwritten⟩ := h.write_accepted sv hchunk hle
    have hreceived : (kb.append chunk hle).received = kb.received ++ chunk := rfl
    obtain ⟨is, kb', M, his, hall, hbegun, hkb', hothers, hheld⟩ :=
      ih (h.store hle) hrest
        (by rw [hreceived, List.length_append]; exact (Nat.add_assoc ..).trans_le hfits)
    rw [hreceived, List.length_append] at his
    refine ⟨i :: is, kb', M, ?_, ?_, hbegun, ?_, fun x hx => ?_, ?_⟩
    · rw [writes, hi, his]
      rfl
    · rw [invokeAll_cons_ok hwritten, hall]
      rfl
    · rw [hkb', hreceived, List.flatten_cons, List.append_assoc]
    · rw [hothers x hx, Ledger.store_of_ne _ _ hx]
    · rw [hheld, Ledger.store_lamports]

/-! ### The finish -/

section Finish

variable {a : Addition} {did buffer : Address} {d : Document} {kb kb' : KeyBuffer} {M : Ledger}

theorem Begun.admission_eq (h : a.Begun P L did buffer d kb) (h' : a.Begun P M did buffer d kb')
    (hothers : ∀ x, x ≠ buffer → M x = L x) :
    admission P M did a.authority a.controller a.method.toNew =
      admission P L did a.authority a.controller a.method.toNew :=
  admission_of_buffers h.isBuffer h'.isBuffer hothers h.did_ne_buffer

theorem Begun.finish_refused (h : a.Begun P L did buffer d kb)
    (hcomplete : kb.received = a.method.key) {e : Fault} (hrefused : (do
      admission P L did a.authority a.controller a.method.toNew
      checkNewKey P.isCurvePoint a.method.toNew a.method.key a.authority) = .error e) :
    ∃ last, a.finishing P = some last ∧ invoke P (last.call sv) L = .error e := by
  obtain ⟨hdid, hauthority, hmethod⟩ := h.record
  have hrun : AddVerificationMethodFromBuffer.process P sv (.writable a.payer true ::
      .readonly a.authority true :: .writable did false :: .writable buffer false ::
      .readonly systemProgram false :: a.controller.toList) [] ⟨L, []⟩ = .error e ⟨L, []⟩ := by
    refine finish_refused_of ⟨rfl, rfl, rfl, rfl, rfl, rfl⟩ h.isDid h.isBuffer ⟨hauthority, hdid⟩
      (by rw [hcomplete, hmethod]; rfl) ?_
    rw [Option.head?_toList, hmethod, hcomplete]
    exact hrefused
  exact ⟨_, h.finishing_eq, Instruction.invoke_error rfl hrun⟩

/-- The payer settles the rent of the DID with the method in it, which leaves `L₁`. -/
def Settled (P : Platform) (sv : Sysvars) (a : Addition) (L : Ledger) (did : Address)
    (d : Document) (now : Int64) (L₁ : Ledger) : Prop :=
  sv.clock = .ok now ∧ Settles P sv L (.writable did false) (.writable a.payer true)
    (a.after d now).encode.length L₁

theorem length_ne_after (a : Addition) (d : Document) (now : Int64) :
    d.encode.length ≠ (a.after d now).encode.length := by
  rw [a.length_after, a.method.length_encode]
  omega

variable (hadmitted : admission P L did a.authority a.controller a.method.toNew = .ok ())
  (hkey : checkNewKey P.isCurvePoint a.method.toNew a.method.key a.authority = .ok ())

include hadmitted hkey

theorem Located.direct_ok_iff (h : a.Located P L did buffer d) (hP : P.Lawful) {i : Instruction}
    (hasks : a.request.Asks P L i did d a.controller) {L' : Ledger} {log : List Bytes} :
    invoke P (i.call sv) L = .ok (L', log) ↔ ∃ now L₁, a.Settled P sv L did d now L₁ ∧
      L' = L₁.store did (a.after d now).encode ∧
      log = [eventBytes didModified did d.subject (saturatingSucc d.version)] := by
  obtain ⟨hauth, hadmits⟩ := (admission_ok_iff h.isDid).mp hadmitted
  obtain ⟨-, -, -, -, hlen, -⟩ := Body.admits_ok_iff.mp hadmits
  have hknown : a.request.op.KnownType := Option.isSome_of_mem hlen
  have happly := h.apply_eq hadmitted hkey
  have hsubject : d.subject = (a.request.update did a.controller).subject := h.subject
  rw [hasks.invoke_eq, outcome_ok_iff, (hasks.renders hP hknown sv).ok_iff, hsubject]
  constructor
  · rintro ⟨-, body, hbody, v, m₁, ⟨now, L₁, hclock, hsettled, rfl, rfl⟩, hm⟩
    cases happly.symm.trans hbody
    cases hm
    exact ⟨now, L₁, ⟨hclock, (resettles_of_ne (a.length_ne_after d now)).mp hsettled⟩, rfl, rfl⟩
  · rintro ⟨now, L₁, ⟨hclock, hsettled⟩, rfl, rfl⟩
    exact ⟨hauth, _, happly, _, _, ⟨now, L₁, hclock,
      (resettles_of_ne (a.length_ne_after d now)).mpr hsettled, rfl, rfl⟩, rfl⟩

theorem Begun.finish_ok_iff (h : a.Begun P L did buffer d kb) (hP : P.Lawful)
    (hcomplete : kb.received = a.method.key) : ∃ last, a.finishing P = some last ∧
      ∀ L' log, invoke P (last.call sv) L = .ok (L', log) ↔ ∃ now L₁,
        a.Settled P sv L did d now L₁ ∧ (L₁ a.payer).lamports + (L₁ buffer).lamports < 2 ^ 64 ∧
        L' = (L₁.store did (a.after d now).encode).closed buffer a.payer ∧
        log = [eventBytes didModified did d.subject (saturatingSucc d.version)] := by
  obtain ⟨hdid, hauthority, hmethod⟩ := h.record
  obtain ⟨hauth, -⟩ := (admission_ok_iff h.isDid).mp hadmitted
  have hkb : kb.toMethod = a.method := by
    rw [KeyBuffer.toMethod, hmethod, hcomplete]
    rfl
  have hlen : kb.received.length = kb.method.keyLen := by
    rw [hcomplete, hmethod]
    rfl
  have happly := h.apply_eq hadmitted hkey
  refine ⟨_, h.finishing_eq, fun L' log => ?_⟩
  rw [Instruction.invoke_eq rfl, outcome_ok_iff]
  change AddVerificationMethodFromBuffer.process P sv (.writable a.payer true ::
    .readonly a.authority true :: .writable did false :: .writable buffer false ::
    .readonly systemProgram false :: a.controller.toList) [] ⟨L, []⟩ = .ok () ⟨L', log⟩ ↔ _
  rw [BioDidRegistry.finish_ok_iff hP h.isDid h.wellFormed h.isBuffer, hkb, Option.head?_toList]
  constructor
  · rintro ⟨-, -, -, -, body, hbody, v, m₁, ⟨now, L₁, hclock, hsettled, rfl, rfl⟩, hlt, hm⟩
    cases happly.symm.trans hbody
    cases hm
    rw [Ledger.store_lamports, Ledger.store_lamports] at hlt
    exact ⟨now, L₁, ⟨hclock, (resettles_of_ne (a.length_ne_after d now)).mp hsettled⟩, hlt, rfl,
      rfl⟩
  · rintro ⟨now, L₁, ⟨hclock, hsettled⟩, hlt, rfl, rfl⟩
    refine ⟨⟨rfl, rfl, rfl, rfl, rfl, rfl, hauthority, hdid⟩, rfl, hlen, hauth, _, happly, _, _,
      ⟨now, L₁, hclock, (resettles_of_ne (a.length_ne_after d now)).mpr hsettled, rfl, rfl⟩, ?_,
      rfl⟩
    rw [Ledger.store_lamports, Ledger.store_lamports]
    exact hlt

end Finish

/-- The upload of the addition was interrupted: the account at `buffer` is its key buffer with
the header `ref`, and has received that much of its key. -/
structure Interrupted (P : Platform) (a : Addition) (L : Ledger) (did buffer : Address)
    (d : Document) (ref : KeyBufferRef) : Prop where
  didAt : L.DidAt P did d
  subject : d.subject = a.subject
  bufferAt : L.BufferAt P buffer ref
  bound : ref.didAccount = did ∧ ref.authority = a.authority
  method : (⟨ref.fragment, ref.methodType, ref.flags, ref.keyLen⟩ : NewMethod) = a.method.toNew
  received : ((L buffer).data.drop keyBufferHeader).take ref.written = a.method.key.take ref.written

theorem Interrupted.begun {a : Addition} {did buffer : Address} {d : Document}
    {ref : KeyBufferRef} (h : a.Interrupted P L did buffer d ref) (hS : Sound P L)
    (hencodable : (Op.addVm a.method).Encodable) : ∃ kb, a.Begun P L did buffer d kb ∧
      kb.received = a.method.key.take ref.written ∧ ref.written = kb.received.length := by
  have hd : Registered P L did d := hS.registered_of_didAt h.didAt
  obtain ⟨kb, hkb⟩ := hS.exists_staged h.bufferAt.1
  have href : kb.ref = ref := by
    have hparse := h.bufferAt.2.1
    rw [hkb.data_eq, kb.parse_encode] at hparse
    exact Except.ok.inj hparse
  subst href
  obtain ⟨hdid, hauthority⟩ := h.bound
  change kb.didAccount = did at hdid
  change kb.authority = a.authority at hauthority
  have hdidAccount : Client.didAccount P a.subject = some did := h.subject ▸ hd.didAccount
  have hkeyBuffer : Client.keyBuffer P a.subject a.authority = some buffer := by
    rw [← h.subject, ← hauthority]
    exact hkb.keyBuffer (hdid ▸ hd)
  have hreceived := h.received
  rw [hkb.data_eq, show kb.ref.written = kb.received.length from rfl, ← kb.received_eq] at hreceived
  exact ⟨kb, ⟨⟨hdidAccount, hkeyBuffer, hencodable, hd.toIsDid, h.subject, hd.wellFormed⟩,
    hkb.toIsBuffer, hdid, hauthority, h.method⟩, hreceived, rfl⟩

end Addition

/-! ### Resuming -/

section Resuming

variable {a : Addition} {did buffer : Address} {d : Document} {M L₁ : Ledger} {now : Int64}

theorem Addition.Settled.agree (h : a.Settled P sv L did d now L₁) (hdid : did ≠ buffer)
    (hpayer : a.payer ≠ buffer) (hothers : ∀ x, x ≠ buffer → M x = L x) :
    ∃ M₁, a.Settled P sv M did d now M₁ ∧ M₁ buffer = M buffer ∧
      ∀ x, x ≠ buffer → M₁ x = L₁ x := by
  obtain ⟨M₁, hM₁, hagree⟩ := h.2.agree (hothers did hdid) (hothers a.payer hpayer)
  exact ⟨M₁, ⟨h.1, hM₁⟩, hM₁.of_ne hdid.symm hpayer.symm, fun x hx => hagree x (hothers x hx)⟩

theorem Addition.Settled.bounded (h : a.Settled P sv L did d now L₁) (hsupply : L.supply < 2 ^ 64)
    (hdid : did ≠ buffer) (hpayer : a.payer ≠ buffer) (hne : did ≠ a.payer) :
    (L₁ a.payer).lamports + (L₁ buffer).lamports < 2 ^ 64 := by
  have hnodup : [did, a.payer, buffer].Nodup := by simp [hne, hdid, hpayer]
  have hle := L.held_le_supply hnodup
  simp only [Ledger.held_cons, Ledger.held_nil] at hle
  have hsum : (L₁ did).lamports + (L₁ a.payer).lamports =
      (L did).lamports + (L a.payer).lamports := (h.2.trades hne).sum
  rw [h.2.of_ne hdid.symm hpayer.symm]
  omega

/-- The instruction `last` does to `M` what `direct` does to `L`, beside closing the buffer in
favour of the payer, and refuses what `direct` refuses if the payer can pay for both. -/
structure Addition.FinishesAs (P : Platform) (sv : Sysvars) (a : Addition)
    (direct last : Instruction) (L M : Ledger) (did buffer : Address) (d : Document) : Prop where
  accepted_iff : (∃ r, invoke P (last.call sv) M = .ok r) ↔ ∃ r, invoke P (direct.call sv) L = .ok r
  same : ∀ L' log L'' log', invoke P (direct.call sv) L = .ok (L', log) →
    invoke P (last.call sv) M = .ok (L'', log') →
      log' = log ∧ L'' buffer = ⟨0, [], systemProgram⟩ ∧
      (L'' a.payer).lamports = (L' a.payer).lamports + (L buffer).lamports ∧
      ∀ x, x ≠ buffer → x ≠ a.payer → L'' x = L' x
  refused : ∀ now, sv.clock = .ok now →
    Affords P sv L a.payer did (d.encode.length + a.method.encode.length) →
      ∀ e, invoke P (direct.call sv) L = .error e → invoke P (last.call sv) M = .error e

namespace Addition.Begun

variable {kb kb' : KeyBuffer} {i : Instruction} (h : a.Begun P L did buffer d kb)
  (h' : a.Begun P M did buffer d kb') (hcomplete : kb'.received = a.method.key)
  (hasks : a.request.Asks P L i did d a.controller) (hothers : ∀ x, x ≠ buffer → M x = L x)

include h h' hcomplete hasks hothers

/-- What the rules refuse, they refuse either way. -/
theorem finishesAs_of_refused {e : Fault} (hrefused : (do
      admission P L did a.authority a.controller a.method.toNew
      checkNewKey P.isCurvePoint a.method.toNew a.method.key a.authority) = .error e) :
    ∃ last, a.finishing P = some last ∧ a.FinishesAs P sv i last L M did buffer d := by
  have hdirect : invoke P (i.call sv) L = .error e := h.direct_refused hasks hrefused
  obtain ⟨last, hlast, hfinish⟩ : ∃ last, a.finishing P = some last ∧
      invoke P (last.call sv) M = .error e :=
    h'.finish_refused hcomplete (by rw [h.admission_eq h' hothers]; exact hrefused)
  refine ⟨last, hlast, ?_, ?_, fun now _ _ e' he' => ?_⟩
  · rw [hdirect, hfinish]
  · intro L' log L'' log' hok
    exact absurd (hok.symm.trans hdirect) (by simp)
  · rw [hfinish, ← hdirect, he']

/-- What the rules allow depends on the rent only, which does not involve the buffer. -/
theorem finishesAs_of_allowed (hP : P.Lawful) (hpb : a.payer ≠ buffer) (hdp : did ≠ a.payer)
    (hheld : (M buffer).lamports = (L buffer).lamports) (hsupply : M.supply < 2 ^ 64)
    (hadmission : admission P L did a.authority a.controller a.method.toNew = .ok ())
    (hkey : checkNewKey P.isCurvePoint a.method.toNew a.method.key a.authority = .ok ()) :
    ∃ last, a.finishing P = some last ∧ a.FinishesAs P sv i last L M did buffer d := by
  have hdid : did ≠ buffer := h.did_ne_buffer
  have hdirect (L' : Ledger) (log : List Bytes) :
      invoke P (i.call sv) L = .ok (L', log) ↔ ∃ now L₁, a.Settled P sv L did d now L₁ ∧
        L' = L₁.store did (a.after d now).encode ∧
        log = [eventBytes didModified did d.subject (saturatingSucc d.version)] :=
    h.direct_ok_iff hadmission hkey hP hasks
  obtain ⟨last, hlast, hfinish⟩ : ∃ last, a.finishing P = some last ∧
      ∀ L' log, invoke P (last.call sv) M = .ok (L', log) ↔ ∃ now M₁,
        a.Settled P sv M did d now M₁ ∧ (M₁ a.payer).lamports + (M₁ buffer).lamports < 2 ^ 64 ∧
        L' = (M₁.store did (a.after d now).encode).closed buffer a.payer ∧
        log = [eventBytes didModified did d.subject (saturatingSucc d.version)] :=
    h'.finish_ok_iff ((h.admission_eq h' hothers).trans hadmission) hkey hP hcomplete
  have hfinished {now : Int64} {L₁ : Ledger} (hL₁ : a.Settled P sv L did d now L₁) :
      ∃ M₁ : Ledger, invoke P (last.call sv) M =
          .ok ((M₁.store did (a.after d now).encode).closed buffer a.payer,
            [eventBytes didModified did d.subject (saturatingSucc d.version)]) ∧
        M₁ buffer = M buffer ∧ ∀ x, x ≠ buffer → M₁ x = L₁ x := by
    obtain ⟨M₁, hM₁, hbuffer, hagree⟩ := hL₁.agree hdid hpb hothers
    exact ⟨M₁, (hfinish _ _).mpr ⟨now, M₁, hM₁, hM₁.bounded hsupply hdid hpb hdp, rfl, rfl⟩,
      hbuffer, hagree⟩
  refine ⟨last, hlast, ⟨?_, ?_⟩, ?_, fun now hclock hfunds e he => ?_⟩
  · rintro ⟨⟨L'', log'⟩, hok⟩
    obtain ⟨now, M₁, hM₁, -⟩ := (hfinish L'' log').mp hok
    obtain ⟨L₁, hL₁, -⟩ := hM₁.agree hdid hpb fun x hx => (hothers x hx).symm
    exact ⟨_, (hdirect _ _).mpr ⟨now, L₁, hL₁, rfl, rfl⟩⟩
  · rintro ⟨⟨L', log⟩, hok⟩
    obtain ⟨now, L₁, hL₁, -⟩ := (hdirect L' log).mp hok
    obtain ⟨M₁, hfinal, -⟩ := hfinished hL₁
    exact ⟨_, hfinal⟩
  · intro L' log L'' log' hok hok'
    obtain ⟨now, L₁, hL₁, rfl, rfl⟩ := (hdirect L' log).mp hok
    obtain ⟨M₁, hfinal, hbuffer, hagree⟩ := hfinished hL₁
    cases hok'.symm.trans hfinal
    refine ⟨rfl, Ledger.closed_self .., ?_, fun x hx hxp => ?_⟩
    · rw [Ledger.closed_lamports _ hpb, Ledger.store_lamports, Ledger.store_lamports,
        Ledger.store_lamports, hbuffer, hagree _ hpb, hheld]
    · rw [Ledger.closed_of_ne _ hx hxp]
      exact Ledger.store_agree _ (hagree did hdid) (hagree x hx)
  · rw [← a.length_after d now] at hfunds
    obtain ⟨L₁, hL₁⟩ : ∃ L₁, Settles P sv L (.writable did false) (.writable a.payer true)
        (a.after d now).encode.length L₁ :=
      Affords.exists_settles hfunds h.isDid.owner rfl rfl rfl
    have hok := (hdirect _ _).mpr ⟨now, L₁, ⟨hclock, hL₁⟩, rfl, rfl⟩
    exact absurd (he.symm.trans hok) (by simp)

end Addition.Begun

/-- An interrupted upload resumes from what its buffer has received. The rest of the key is
taken in any chunks, whatever has become of the DID, and the finish then does what the
addition in one instruction would do, beside returning the rent of the buffer. -/
theorem interrupted_upload_resumes (hP : P.Lawful) (h₀ : Fresh L₀) {turns : List Turn}
    (hrun : Run (Step P) L₀ turns L) {ref : KeyBufferRef}
    (hinterrupted : a.Interrupted P L did buffer d ref) (hencodable : (Op.addVm a.method).Encodable)
    {chunks : List Bytes} (hchunks : ∀ chunk ∈ chunks, chunk ≠ [])
    (hsplit : chunks.flatten = a.method.key.drop ref.written)
    (hpayer : (L a.payer).owner ≠ programId) (hsupply : L.supply < 2 ^ 64) :
    ∃ i is last M, a.direct P = some i ∧ a.writes P ref.written chunks = some is ∧
      a.finishing P = some last ∧ invokeAll P sv is L = .ok M ∧
      (∀ x, x ≠ buffer → M x = L x) ∧ (M buffer).lamports = (L buffer).lamports ∧
      a.FinishesAs P sv i last L M did buffer d := by
  have hS : Sound P L := sound_of_run hP h₀ hrun
  obtain ⟨kb, h, hreceived, hwritten⟩ := hinterrupted.begun hS hencodable
  have hkeyLen : kb.method.keyLen = a.method.key.length := congrArg NewMethod.keyLen h.record.2.2
  have hwhole : kb.received ++ chunks.flatten = a.method.key := by
    rw [hreceived, hsplit, List.take_append_drop]
  have hfits : kb.received.length + chunks.flatten.length ≤ kb.method.keyLen := by
    rw [← List.length_append, hwhole, hkeyLen]
  obtain ⟨is, kb', M, his, hall, h', hkb', hothers, hheld⟩ := h.writes_accepted sv hchunks hfits
  rw [← hwritten] at his
  have hcomplete : kb'.received = a.method.key := hkb'.trans hwhole
  have hpb : a.payer ≠ buffer := by
    rintro rfl
    exact hpayer h.isBuffer.owner
  have hdp : did ≠ a.payer := by
    rintro rfl
    exact hpayer h.isDid.owner
  have hsupply' : M.supply < 2 ^ 64 := by
    have hlamports (x : Address) : (M x).lamports = (L x).lamports := by
      by_cases hx : x = buffer
      · rw [hx, hheld]
      · rw [hothers x hx]
    unfold Ledger.supply at hsupply ⊢
    simpa only [hlamports] using hsupply
  obtain ⟨i, hi, hasks⟩ := h.exists_direct
  obtain ⟨last, hlast, hfinishes⟩ : ∃ last, a.finishing P = some last ∧
      a.FinishesAs P sv i last L M did buffer d := by
    cases hrules : (do
        admission P L did a.authority a.controller a.method.toNew
        checkNewKey P.isCurvePoint a.method.toNew a.method.key a.authority) with
    | error e => exact h.finishesAs_of_refused h' hcomplete hasks hothers hrules
    | ok u =>
      obtain ⟨_, hadmission, hkey⟩ := except_bind_ok_iff.mp hrules
      exact h.finishesAs_of_allowed h' hcomplete hasks hothers hP hpb hdp hheld hsupply' hadmission
        hkey
  exact ⟨i, is, last, M, hi, his, hlast, hall, hothers, hheld, hfinishes⟩

end Resuming

deriving instance DecidableEq for KeyBufferRef

/-- An upload that stopped after 20 of 32 bytes. -/
theorem interrupted_upload_resumes_sample :
    let L := afterAll Sample.platform [Sample.creation, Sample.opening, Sample.writing]
      Sample.ledger
    ∃ i is last M, Sample.keyAddition.direct Sample.platform = some i ∧
      Sample.keyAddition.writes Sample.platform 20 [List.replicate 12 9] = some is ∧
      Sample.keyAddition.finishing Sample.platform = some last ∧
      invokeAll Sample.platform Sample.sysvars is L = .ok M ∧
      ((∃ r, invoke Sample.platform (last.call Sample.sysvars) M = .ok r) ↔
        ∃ r, invoke Sample.platform (i.call Sample.sysvars) L = .ok r) := by
  intro L
  have hrun : Run (Step Sample.platform) Sample.ledger (turnsOf Sample.platform
      [Sample.creation, Sample.opening, Sample.writing] Sample.ledger) L := run_of_calls _ _
  have hinterrupted : Sample.keyAddition.Interrupted Sample.platform L Sample.did Sample.buffer
      Sample.document
      ⟨Sample.did, Sample.subject, 252, vmTypeX25519, vmFlagKeyAgreement, 32, 20, [97]⟩ :=
    ⟨by decide +kernel, rfl, ⟨by decide +kernel, by decide +kernel, by decide⟩, ⟨rfl, rfl⟩,
      by decide, by decide +kernel⟩
  have hmetered : Metered Sample.platform Sample.sysvars (turnsOf Sample.platform
      [Sample.creation, Sample.opening, Sample.writing] Sample.ledger) := by
    intro c hc
    have hmem := mem_of_turnsOf hc
    simp only [List.mem_cons, List.not_mem_nil, or_false] at hmem
    rcases hmem with rfl | rfl | rfl
    · exact ⟨rfl, Sample.keyed (by decide +kernel)⟩
    · exact ⟨rfl, Sample.keyed (by decide +kernel)⟩
    · exact ⟨rfl, Sample.keyed (by decide +kernel)⟩
  have hsupply : L.supply < 2 ^ 64 := by
    rw [supply_of_run Sample.platform_lawful Sample.ledger_fresh hrun hmetered
      (outside_notMem_turnsOf _), Sample.supply_ledger]
    decide
  have hpayer : (L Sample.payer).owner ≠ programId := by decide +kernel
  obtain ⟨i, is, last, M, hi, his, hlast, hall, -, -, hfinishes⟩ :=
    interrupted_upload_resumes Sample.platform_lawful Sample.ledger_fresh hrun hinterrupted
      ⟨⟨by decide, by decide⟩, by decide⟩
      (show ∀ chunk ∈ [List.replicate 12 9], chunk ≠ [] by decide) (by decide) hpayer hsupply
  exact ⟨i, is, last, M, hi, his, hlast, hall, hfinishes.accepted_iff⟩

end BioDidRegistry
