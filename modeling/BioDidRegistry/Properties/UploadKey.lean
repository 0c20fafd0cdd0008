import BioDidRegistry.Properties.ChunkedPath
import BioDidRegistry.Properties.Uploads
import BioDidRegistry.Registry.KeyUploads

/-!
# Retries of an upload

The instructions of `uploadKey` may be sent again and in any order. What goes through is a
beginning of the list in its order, so the buffer always ends at a chunk and the method is
inserted once at most, and it is inserted when all of them come in order, whatever comes
between them.
-/

namespace BioDidRegistry

open BinaryFormat Transition Reader

variable {P : Platform} {L L' L₀ : Ledger}

namespace KeyUpload

variable {u : KeyUpload} {k : ℕ} {attempts : List Attempt} {x : Attempt}

def addition (u : KeyUpload) (subject : Address) : Addition :=
  ⟨u.payer, u.authority, subject, none, u.method⟩

/-- The time can be told at every attempt, and the payer's funds suffice for the rents asked
at any two of them. -/
structure Payable (P : Platform) (u : KeyUpload) (subject : Address) (attempts : List Attempt)
    (L : Ledger) : Prop where
  clock : ∀ x ∈ attempts, ∃ now, x.sysvars.clock = .ok now
  covers : ∀ x ∈ attempts, ∀ y ∈ attempts, ∃ forBuffer forDid,
    rentMinimumBalance P x.sysvars (keyBufferHeader + u.method.key.length) = .ok forBuffer ∧
    rentMinimumBalance P y.sysvars ((L u.did).data.length + u.method.encode.length) =
      .ok forDid ∧
    (u.addition subject).Covers forBuffer forDid L u.did u.buffer

/-- While the buffer is open, all that `L₀` has lost went into it. -/
def Paid (P : Platform) (u : KeyUpload) (subject : Address) (attempts : List Attempt)
    (L₀ L : Ledger) : Prop :=
  ∀ kb, IsBuffer P L u.buffer kb → ∃ x ∈ attempts, ∃ need,
    rentMinimumBalance P x.sysvars (keyBufferHeader + u.method.key.length) = .ok need ∧
    (u.addition subject).Staging P L₀ u.did u.buffer need kb L

/-! ### An accepted method goes through -/

section Accepted

variable {subject : Address} {bump : UInt8} {d : Document}
  (hready : (u.addition subject).Ready P L₀ u.did u.buffer bump d)
  (hpayable : u.Payable P subject attempts L₀) (hx : x ∈ attempts)

include hready hpayable hx

theorem run_opening (hP : P.Lawful)
    (hadmitted : admission P L₀ u.did u.authority none u.method.toNew = .ok ())
    (hi : x.instruction = u.opening) :
    ∃ L', x.run P L₀ = some L' ∧ u.Paid P subject attempts L₀ L' := by
  obtain ⟨need, needDid, hneed, -, hcovers⟩ := hpayable.covers x hx x hx
  obtain ⟨i, kb, log, L', hopening, hok, hs, -⟩ :=
    hready.opening_accepted hP hcovers hneed hadmitted
  have hsame : i = u.opening := Option.some.inj (hopening.symm.trans hready.located.opening_eq)
  rw [hsame, ← hi] at hok
  refine ⟨L', Attempt.run_eq_some_iff.mpr ⟨log, hok⟩, ?_⟩
  intro kb' hkb'
  rw [hkb'.unique hs.isBuffer]
  exact ⟨x, hx, need, hneed, hs⟩

theorem run_writing {kb : KeyBuffer} (hpaid : u.Paid P subject attempts L₀ L)
    (hkb : IsBuffer P L u.buffer kb) (hk : k < u.chunks.length)
    (hreceived : kb.received = (u.chunks.take k).flatten)
    (hi : u.plan[k + 1]? = some x.instruction) :
    ∃ L', x.run P L = some L' ∧ u.Paid P subject attempts L₀ L' := by
  obtain ⟨y, hy, need, hneed, hs⟩ := hpaid kb hkb
  obtain ⟨needBuffer, needDid, -, -, hcovers⟩ := hpayable.covers x hx x hx
  obtain ⟨chunk, hchunk⟩ : ∃ chunk, u.chunks[k]? = some chunk := ⟨_, List.getElem?_eq_getElem hk⟩
  have hoffset : kb.received.length = k * Client.keyChunkLen := by
    rw [hreceived]
    exact length_take_chunks keyChunkLen_pos hk
  have hnext : (u.chunks.take (k + 1)).flatten = kb.received ++ chunk := by
    rw [hreceived, List.take_add_one, hchunk, List.flatten_append]
    simp
  have hfits : kb.received.length + chunk.length ≤ kb.method.keyLen := by
    have hlen := congrArg List.length hnext
    have htaken : (u.chunks.take (k + 1)).flatten =
        u.method.key.take ((k + 1) * Client.keyChunkLen) :=
      flatten_take_chunks keyChunkLen_pos _ _
    rw [htaken, List.length_append, List.length_take] at hlen
    rw [hs.record.2.2, ← hlen]
    exact Nat.min_le_right _ _
  obtain ⟨i, L', hwrite, hok, hs'⟩ := hready.write_accepted x.sysvars hs hcovers.apart
    (ne_nil_of_chunks keyChunkLen_pos (List.mem_of_getElem? hchunk)) hfits
  have hsame : i = x.instruction := by
    have hbuilt := writeKeyBuffer_eq hready.didAccount hready.located.keyBuffer k chunk
    rw [getElem?_plan_writing hk, hchunk] at hi
    rw [hoffset] at hwrite
    exact Option.some.inj (hwrite.symm.trans (hbuilt.trans hi))
  rw [hsame] at hok
  refine ⟨L', Attempt.run_eq_some_iff.mpr ⟨[], hok⟩, ?_⟩
  intro kb' hkb'
  rw [hkb'.unique hs'.isBuffer]
  exact ⟨y, hy, need, hneed, hs'⟩

theorem run_finishing (hP : P.Lawful) {kb : KeyBuffer}
    (hadmitted : admission P L₀ u.did u.authority none u.method.toNew = .ok ())
    (hallowed : checkNewKey P.isCurvePoint u.method.toNew u.method.key u.authority = .ok ())
    (hpaid : u.Paid P subject attempts L₀ L) (hkb : IsBuffer P L u.buffer kb)
    (hreceived : kb.received = u.method.key) (hi : x.instruction = u.finishing) :
    ∃ L', x.run P L = some L' ∧ u.Paid P subject attempts L₀ L' := by
  obtain ⟨y, hy, need, hneed, hs⟩ := hpaid kb hkb
  obtain ⟨need', needDid, hneed', hneedDid, hcovers⟩ := hpayable.covers y hy x hx
  obtain rfl : need = need' := Except.ok.inj (hneed.symm.trans hneed')
  obtain ⟨now, hclock⟩ := hpayable.clock x hx
  obtain ⟨i, L', log, hfinishing, hok, -, -, hgone, -⟩ := hready.finishing_accepted hadmitted
    hallowed hP hcovers hneedDid hclock hs hreceived
  have hsame : i = u.finishing :=
    Option.some.inj (hfinishing.symm.trans hready.located.finishing_eq)
  rw [hsame, ← hi] at hok
  refine ⟨L', Attempt.run_eq_some_iff.mpr ⟨log, hok⟩, ?_⟩
  intro kb' hkb'
  have howner : (L' u.buffer).owner = systemProgram := by rw [hgone]
  exact absurd rfl (hkb'.owner_ne howner)

theorem run_next (hP : P.Lawful)
    (hadmitted : admission P L₀ u.did u.authority none u.method.toNew = .ok ())
    (hallowed : checkNewKey P.isCurvePoint u.method.toNew u.method.key u.authority = .ok ())
    (hs : Stage P u L₀ k L) (hpaid : u.Paid P subject attempts L₀ L)
    (hi : u.plan[k]? = some x.instruction) :
    ∃ L', x.run P L = some L' ∧ u.Paid P subject attempts L₀ L' := by
  cases hs with
  | idle =>
    have hopening : u.plan[0]? = some u.opening := rfl
    exact run_opening hready hpayable hx hP hadmitted (Option.some.inj (hi.symm.trans hopening))
  | staged le isBuffer record received others =>
    rcases length_received le with ⟨hlt, -⟩ | ⟨rfl, hall⟩
    · exact run_writing hready hpayable hx hpaid isBuffer hlt received hi
    · rw [hall] at received
      exact run_finishing hready hpayable hx hP hadmitted hallowed hpaid isBuffer received
        (Option.some.inj (hi.symm.trans getElem?_plan_finishing))
  | done before after gone others =>
    have hnone : u.plan[u.chunks.length + 2]? = none := by
      rw [List.getElem?_eq_none_iff, length_plan]
    rw [hnone] at hi
    cases hi

omit hx in
theorem completes (hP : P.Lawful) (hS : Sound P L₀) (hkey : u.method.key.length < 2 ^ 32)
    (hnone : ¬L₀.HasBuffer u.buffer)
    (hadmitted : admission P L₀ u.did u.authority none u.method.toNew = .ok ())
    (hallowed : checkNewKey P.isCurvePoint u.method.toNew u.method.key u.authority = .ok ())
    (hplan : ∀ x ∈ attempts, x.instruction ∈ u.plan)
    (hsub : List.Sublist u.plan (attempts.map Attempt.instruction)) :
    Stage P u L₀ u.plan.length (afterSchedule (Attempt.run P) attempts L₀) := by
  have horder := u.inOrder hP hkey hnone
  have hgoing : InOrder (Attempt.run P) Attempt.instruction u.plan (fun x => x ∈ attempts)
      fun k L =>
      (Sound P L ∧ Stage P u L₀ k L) ∧ u.Paid P subject attempts L₀ L := by
    constructor
    · intro k L x hstage _ hmem hother
      exact horder.refused k L x hstage.1 trivial hmem hother
    · intro k L x L' hstage hx hnext hrun
      obtain ⟨⟨hS, hs⟩, hpaid⟩ := hstage
      obtain ⟨L'', hrun', hpaid'⟩ :=
        run_next hready hpayable hx hP hadmitted hallowed hs hpaid hnext
      obtain rfl : L' = L'' := Option.some.inj (hrun.symm.trans hrun')
      exact ⟨horder.next k L x L' ⟨hS, hs⟩ trivial hnext hrun, hpaid'⟩
  have hstart : (Sound P L₀ ∧ Stage P u L₀ 0 L₀) ∧ u.Paid P subject attempts L₀ L₀ := by
    refine ⟨⟨hS, .idle⟩, ?_⟩
    intro kb hkb
    exact absurd hkb.hasBuffer hnone
  have hdone := hgoing.completes ?_ hstart (Nat.zero_le _) (fun x hx => ⟨hx, hplan x hx⟩) hsub
  · exact hdone.1.2
  · intro k L x hstage hx hnext
    obtain ⟨L', hrun, -⟩ :=
      run_next hready hpayable hx hP hadmitted hallowed hstage.1.2 hstage.2 hnext
    rw [hrun]
    rfl

end Accepted

/-! ### Schedules of an upload -/

/-- `uploadKey` lists the instructions `is`: one that opens the buffer, one for each of the
chunks at the offset where the one before it ended, and one that finishes. -/
structure Lists (P : Platform) (u : KeyUpload) (subject : Address) (is : List Instruction)
    (chunks : List Bytes) : Prop where
  built : Client.uploadKey P u.payer u.authority subject u.method.fragment u.method.methodType
    u.method.flags u.method.key = some is
  length : is.length = chunks.length + 2
  first : Client.createKeyBuffer P u.payer u.authority subject u.method.fragment
    u.method.methodType u.method.flags (UInt32.ofNat u.method.key.length) = is[0]?
  write : ∀ j chunk, chunks[j]? = some chunk → ∃ offset : UInt32,
    offset.toNat = (chunks.take j).flatten.length ∧
    Client.writeKeyBuffer P u.authority subject offset chunk = is[j + 1]?
  last : Client.addVerificationMethodFromBuffer P u.payer u.authority subject =
    is[chunks.length + 1]?
  nonempty : ∀ chunk ∈ chunks, chunk ≠ []
  whole : chunks.flatten = u.method.key

/-- The upload that started on `L` is at `L'`, after the first `k` of the instructions. -/
structure Reaches (P : Platform) (u : KeyUpload) (is : List Instruction) (chunks : List Bytes)
    (L : Ledger) (k : ℕ) (L' : Ledger) : Prop where
  live_iff : L'.HasBuffer u.buffer ↔ 0 < k ∧ k < is.length
  received : L'.HasBuffer u.buffer →
    L'.Holds P u.buffer ⟨u.did, u.authority, u.method.toNew, chunks.take (k - 1)⟩
  /-- Any other instruction than the next one fails and changes nothing. -/
  refused : ∀ i ∈ is, is[k]? ≠ some i → ∀ sv,
    (∃ e, invoke P (i.call sv) L' = .error e) ∧ after P (i.call sv) L' = L'
  pending : k < is.length → ∀ x, x ≠ u.buffer →
    (L' x).data = (L x).data ∧ (L' x).owner = (L x).owner
  inserted : k = is.length → (∃ d now, L.DidAt P u.did d ∧
      L'.DidAt P u.did (d.withMethod u.method now)) ∧
    ∀ x, x ≠ u.did → x ≠ u.buffer → (L' x).data = (L x).data ∧ (L' x).owner = (L x).owner

theorem lists_plan {subject : Address} (hdid : Client.didAccount P subject = some u.did)
    (hbuffer : Client.keyBuffer P subject u.authority = some u.buffer)
    (hkey : u.method.key.length < 2 ^ 32) : u.Lists P subject u.plan u.chunks where
  built := uploadKey_eq hdid hbuffer hkey
  length := u.length_plan
  first := createKeyBuffer_eq hdid hbuffer hkey
  write := by
    intro j chunk hj
    obtain ⟨hcount, -⟩ := List.getElem?_eq_some_iff.mp hj
    have hlt := (lt_length_chunks_iff keyChunkLen_pos).mp hcount
    have hoffset : (UInt32.ofNat (j * Client.keyChunkLen)).toNat = j * Client.keyChunkLen :=
      UInt32.toNat_ofNat_of_lt (hlt.trans hkey)
    refine ⟨UInt32.ofNat (j * Client.keyChunkLen), ?_, ?_⟩
    · rw [hoffset]
      exact (length_take_chunks keyChunkLen_pos hcount).symm
    · rw [writeKeyBuffer_eq hdid hbuffer, getElem?_plan_writing hcount, hj]
      rfl
  last := (addVerificationMethodFromBuffer_eq hdid hbuffer).trans getElem?_plan_finishing.symm
  nonempty := fun _ hchunk => ne_nil_of_chunks keyChunkLen_pos hchunk
  whole := flatten_chunks

theorem Stage.reaches (hP : P.Lawful) (hkey : u.method.key.length < 2 ^ 32)
    (hnone : ¬L.HasBuffer u.buffer) (hS : Sound P L') (hs : Stage P u L k L') :
    u.Reaches P u.plan u.chunks L k L' := by
  have hrefused : ∀ i ∈ u.plan, u.plan[k]? ≠ some i → ∀ sv,
      (∃ e, invoke P (i.call sv) L' = .error e) ∧ after P (i.call sv) L' = L' := by
    intro i hi hother sv
    cases hrun : invoke P (i.call sv) L' with
    | ok r =>
      obtain ⟨hnext, -⟩ := hs.turn hP hS hkey hnone hi hrun
      exact absurd hnext hother
    | error e =>
      refine ⟨⟨e, rfl⟩, ?_⟩
      rw [after, hrun]
  have hlen := u.length_plan
  cases hs with
  | idle =>
    refine ⟨iff_of_false hnone (by omega), fun hlive => absurd hlive hnone, hrefused,
      fun _ _ _ => ⟨rfl, rfl⟩, fun hall => absurd hall (by omega)⟩
  | staged le isBuffer record received others =>
    rename_i k kb
    obtain ⟨kb', hkb⟩ := hS.exists_staged isBuffer.hasBuffer
    obtain rfl := isBuffer.unique hkb.toIsBuffer
    have hdescribes : Upload.Describes ⟨u.did, u.authority, u.method.toNew, u.chunks.take k⟩ kb :=
      ⟨record.1, record.2.1, record.2.2, received⟩
    exact ⟨iff_of_true isBuffer.hasBuffer (by omega), fun _ => hdescribes.holds hkb, hrefused,
      fun _ => others, fun hall => absurd hall (by omega)⟩
  | done before after gone others =>
    have hlive : ¬L'.HasBuffer u.buffer := by
      intro hlive
      have howner := hlive.1
      rw [gone] at howner
      exact programId_ne_systemProgram howner.symm
    exact ⟨iff_of_false hlive (by omega), fun h => absurd h hlive, hrefused,
      fun h => absurd h (by omega), fun _ => ⟨⟨_, _, before.didAt, after.didAt⟩, others⟩⟩

end KeyUpload

/-- Whatever is sent again and in whatever order, an upload writes its key in order and
inserts its method at most once, and it does insert a method that the rules allow when all
its instructions come in order. -/
theorem upload_key_survives_retries (hP : P.Lawful) {u : KeyUpload} {subject : Address}
    (hdid : Client.didAccount P subject = some u.did)
    (hbuffer : Client.keyBuffer P subject u.authority = some u.buffer)
    (hkey : u.method.key.length < 2 ^ 32) :
    ∃ is chunks, u.Lists P subject is chunks ∧
      ∀ L₀ turns L, Fresh L₀ → Run (Step P) L₀ turns L → ¬L.HasBuffer u.buffer →
        ∀ attempts : List Attempt, (∀ x ∈ attempts, x.instruction ∈ is) →
          (∃ k ≤ is.length,
            (through (Attempt.run P) attempts L).map Attempt.instruction = is.take k ∧
            u.Reaches P is chunks L k (afterSchedule (Attempt.run P) attempts L)) ∧
          ∀ d now d', L.DidAt P u.did d → d.subject = subject →
            d.apply P.isCurvePoint u.authority none (.addVm u.method) now = .ok d' →
            L.Vacant u.buffer → u.Payable P subject attempts L →
            List.Sublist is (attempts.map Attempt.instruction) →
            ∃ now', (afterSchedule (Attempt.run P) attempts L).DidAt P u.did
              (d.withMethod u.method now') := by
  refine ⟨u.plan, u.chunks, KeyUpload.lists_plan hdid hbuffer hkey, ?_⟩
  intro L₀ turns L h₀ hrun hnone attempts hplan
  have hS : Sound P L := sound_of_run hP h₀ hrun
  have horder := u.inOrder hP hkey hnone
  constructor
  · obtain ⟨k, hk, hthrough, hS', hstage⟩ := horder.through_eq ⟨hS, .idle⟩ (Nat.zero_le _)
      fun x hx => ⟨trivial, hplan x hx⟩
    rw [Nat.zero_add] at hk hstage
    rw [List.drop_zero] at hthrough
    exact ⟨k, hk, hthrough, hstage.reaches hP hkey hnone hS'⟩
  · intro d now d' hd hsubject happly hvacant hpayable hsub
    have hregistered := hS.registered_of_didAt hd
    obtain ⟨_, hauthorize, hrest⟩ := except_bind_ok_iff.mp happly
    obtain ⟨body, hbody, -⟩ := except_bind_ok_iff.mp hrest
    obtain ⟨hadmits, hallows, -⟩ := Body.addVm_ok_iff.mp hbody
    obtain ⟨-, hfragment, -⟩ := Body.admits_ok_iff.mp hadmits
    have hnamed : NamedBy P L none none := trivial
    have hauth : Authorized P L d u.authority none :=
      Authorized.of_model hregistered.toIsDid hnamed hauthorize
    have hadmitted : admission P L u.did u.authority none u.method.toNew = .ok () :=
      (admission_ok_iff hregistered.toIsDid).mpr ⟨hauth, hadmits⟩
    obtain ⟨_, hallowed, -⟩ :=
      (hallows ▸ checkNewKey_agrees P.isCurvePoint u.authority u.method).ok_of
    obtain ⟨bump, hfound⟩ : ∃ bump, P.deriveProgramAddress
        [keyBufferSeed, u.did.val, u.authority.val] = some (u.buffer, bump) := by
      rw [Client.keyBuffer, hdid] at hbuffer
      obtain ⟨⟨a, bump⟩, hfound, rfl⟩ := Option.map_eq_some_iff.mp hbuffer
      exact ⟨bump, hfound⟩
    have hready : (u.addition subject).Ready P L u.did u.buffer bump d :=
      ⟨hdid, hfound, ⟨(validFragment_iff.mp hfragment).isStr, hkey⟩, hregistered.toIsDid, hsubject,
        hregistered.wellFormed, hvacant⟩
    have hdone := KeyUpload.completes hready hpayable hP hS hkey hnone hadmitted hallowed hplan hsub
    have hlast : u.plan.length = u.chunks.length + 2 := u.length_plan
    rw [hlast] at hdone
    cases hdone with
    | staged le => exact absurd le (by omega)
    | done before after gone others =>
      rw [hregistered.toIsDid.unique before.toIsDid]
      exact ⟨_, after.didAt⟩

namespace Sample

def keyUpload : KeyUpload :=
  ⟨payer, subject, did, buffer, ⟨[97], vmTypeX25519, vmFlagKeyAgreement, List.replicate 32 9⟩⟩

/-- The instructions backwards, then twice in order. -/
def retries : List Attempt :=
  (keyUpload.plan.reverse ++ keyUpload.plan ++ keyUpload.plan).map fun i => ⟨i, sysvars⟩

end Sample

theorem upload_key_survives_retries_sample :
    let L := afterAll Sample.platform [Sample.creation] Sample.ledger
    ∃ now, (afterSchedule (Attempt.run Sample.platform) Sample.retries L).DidAt Sample.platform
      Sample.did (Sample.document.withMethod Sample.keyUpload.method now) := by
  intro L
  have hdid : Client.didAccount Sample.platform Sample.subject = some Sample.keyUpload.did := by
    decide +kernel
  have hbuffer : Client.keyBuffer Sample.platform Sample.subject Sample.keyUpload.authority =
      some Sample.keyUpload.buffer := by decide +kernel
  have hkey : Sample.keyUpload.method.key.length < 2 ^ 32 := by decide
  obtain ⟨is, chunks, hlists, hall⟩ :=
    upload_key_survives_retries Sample.platform_lawful hdid hbuffer hkey
  have hplan : Sample.keyUpload.plan = is :=
    Option.some.inj ((KeyUpload.uploadKey_eq hdid hbuffer hkey).symm.trans hlists.built)
  have hsysvars : ∀ x ∈ Sample.retries, x.sysvars = Sample.sysvars := by
    intro x hx
    obtain ⟨i, -, rfl⟩ := List.mem_map.mp hx
    rfl
  have hmem : ∀ x ∈ Sample.retries, x.instruction ∈ is := by
    intro x hx
    obtain ⟨i, hi, rfl⟩ := List.mem_map.mp hx
    rw [← hplan]
    simpa using hi
  have hpayable : Sample.keyUpload.Payable Sample.platform Sample.subject Sample.retries L := by
    constructor
    · intro x hx
      exact ⟨1700000000, by rw [hsysvars x hx]; rfl⟩
    · intro x hx y hy
      rw [hsysvars x hx, hsysvars y hy]
      exact ⟨(128 + 152) * 6960, (128 + 168) * 6960, by decide +kernel, by decide +kernel,
        ⟨by decide +kernel, by decide +kernel, by decide, by decide +kernel, by decide +kernel⟩⟩
  have hinstructions : Sample.retries.map Attempt.instruction =
      Sample.keyUpload.plan.reverse ++ Sample.keyUpload.plan ++ Sample.keyUpload.plan := by
    simp [Sample.retries, Function.comp_def]
  have hsub : List.Sublist is (Sample.retries.map Attempt.instruction) := by
    rw [hinstructions, hplan]
    exact List.sublist_append_right _ _
  obtain ⟨-, hinserted⟩ := hall Sample.ledger _ L Sample.ledger_fresh
    (run_of_calls [Sample.creation] Sample.ledger) (by decide +kernel) Sample.retries hmem
  exact hinserted Sample.document 1700000000 (Sample.document.withMethod Sample.keyUpload.method
    1700000000) (by decide +kernel) rfl (by rfl) ⟨by decide +kernel, by decide +kernel⟩
    hpayable hsub

end BioDidRegistry
