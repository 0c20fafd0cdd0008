import BioDidRegistry.Properties.TypedAccounts

/-!
# Uploads

A ghost history of the key buffers: `uploads turns` says what the accepted calls of a
run, by their data and accounts alone, have opened, written, finished and closed. Every
live buffer holds exactly what its upload says, whatever else ran in between, and each
upload ends at most once.
-/

namespace BioDidRegistry

open BinaryFormat Reader Transition

variable {P : Platform} {L L' L₀ : Ledger} {turns : List Turn} {a : Address}

/-- One upload: what its `create_key_buffer` asked for, and the chunks accepted since. -/
structure Upload where
  didAccount : Address
  authority : Address
  method : NewMethod
  chunks : List Bytes

/-- The chunks in the order of their acceptance. -/
def Upload.key (u : Upload) : Bytes := u.chunks.flatten

/-- The upload under way in each account. -/
abbrev Uploads := Address → Option Upload

namespace Call

variable (c : Call)

/-- The instruction and the address of the key buffer it names. -/
def usedBuffer : Option (Ix × Address) :=
  c.ix.bind fun ix => c.keyBuffer.map fun buffer => (ix, buffer.address)

def opened : Option Upload := do
  let did ← c.didAccount
  let authority ← c.authority
  let method ← (eval CreateKeyBuffer.parse (new .args c.args)).toOption
  pure ⟨did.address, authority.address, method, []⟩

def chunk : Option Bytes :=
  (eval WriteKeyBuffer.parse (new .args c.args)).toOption.map Prod.snd

end Call

namespace Uploads

/-- The uploads after an accepted call. -/
def record (g : Uploads) (c : Call) : Uploads :=
  match c.usedBuffer with
  | some (.createKeyBuffer, a) => Function.update g a c.opened
  | some (.writeKeyBuffer, a) => Function.update g a do
    let u ← g a
    let chunk ← c.chunk
    pure { u with chunks := u.chunks ++ [chunk] }
  | some (_, a) => Function.update g a none
  | none => g

end Uploads

namespace Turn

def record (g : Uploads) : Turn → Uploads
  | accepted c => g.record c
  | _ => g

/-- The turn is an accepted `ix` on the buffer at `a`. -/
def uses (ix : Ix) (a : Address) : Turn → Bool
  | accepted c => c.usedBuffer == some (ix, a)
  | _ => false

end Turn

def uploads (turns : List Turn) : Uploads := turns.foldl Turn.record fun _ => none

theorem uploads_snoc (t : Turn) : uploads (turns ++ [t]) = t.record (uploads turns) := by
  simp [uploads]

/-! ### Effects on uploads -/

namespace Effect

def usedBuffer : Effect → Option (Ix × Address)
  | create _ _ | update _ _ _ _ => none
  | openBuffer a _ => some (.createKeyBuffer, a)
  | writeBuffer a _ _ _ => some (.writeKeyBuffer, a)
  | finish _ _ _ a _ => some (.addVerificationMethodFromBuffer, a)
  | closeBuffer a _ => some (.closeKeyBuffer, a)

def record (g : Uploads) : Effect → Uploads
  | create _ _ | update _ _ _ _ => g
  | openBuffer a kb => Function.update g a (some ⟨kb.didAccount, kb.authority, kb.method, []⟩)
  | writeBuffer a _ _ chunk =>
    Function.update g a ((g a).map fun u => { u with chunks := u.chunks ++ [chunk] })
  | finish _ _ _ a _ | closeBuffer a _ => Function.update g a none

theorem record_of_not_used {e : Effect} (h : ¬∃ ix, e.usedBuffer = some (ix, a)) (g : Uploads) :
    e.record g a = g a := by
  cases e with
  | create | update => rfl
  | openBuffer b | writeBuffer b | finish _ _ _ b | closeBuffer b =>
    have hne : a ≠ b := by
      rintro rfl
      exact h ⟨_, rfl⟩
    exact Function.update_of_ne hne _ _

theorem touched_of_used {e : Effect} (h : ∃ ix, e.usedBuffer = some (ix, a)) : a ∈ e.touched := by
  obtain ⟨ix, h⟩ := h
  cases e with
  | create | update => cases h
  | openBuffer | writeBuffer | finish | closeBuffer =>
    cases h
    simp [touched]

theorem record_none {e : Effect} {g : Uploads} (h : g a = none)
    (hopen : ∀ kb, e ≠ .openBuffer a kb) : e.record g a = none := by
  by_cases hused : ∃ ix, e.usedBuffer = some (ix, a)
  · obtain ⟨ix, hused⟩ := hused
    cases e with
    | create | update => cases hused
    | openBuffer b kb =>
      cases hused
      exact absurd rfl (hopen kb)
    | writeBuffer | finish | closeBuffer =>
      cases hused
      simp [record, h]
  · rw [record_of_not_used hused, h]

end Effect

namespace Performs

variable {c : Call} {e : Effect} {log : List Bytes}

theorem usedBuffer_eq (h : Performs P c L e L' log) : c.usedBuffer = e.usedBuffer := by
  cases h with
  | create founds =>
    rcases founds with ⟨ix, -⟩ | ⟨ix, -⟩ <;>
      simp [Call.usedBuffer, Effect.usedBuffer, Call.keyBuffer, Call.account_eq ix, ix,
        Ix.keyBufferPos]
  | update ix args signed pays target isDid authorized applied clock settled =>
    rename_i op body now L₁
    have hnone : c.keyBuffer = none := by
      rw [Call.keyBuffer, Call.account_eq ix]
      cases op <;> rfl
    simp [Call.usedBuffer, Effect.usedBuffer, hnone]
  | openBuffer ix args encodable signed pays target named =>
    simp [Call.usedBuffer, Effect.usedBuffer, ix, named]
  | writeBuffer ix args signed named => simp [Call.usedBuffer, Effect.usedBuffer, ix, named]
  | finish ix args signed pays target named =>
    simp [Call.usedBuffer, Effect.usedBuffer, ix, named]
  | closeBuffer ix args signed pays named =>
    simp [Call.usedBuffer, Effect.usedBuffer, ix, named]

theorem record_eq (h : Performs P c L e L' log) (g : Uploads) : g.record c = e.record g := by
  unfold Uploads.record
  rw [h.usedBuffer_eq]
  cases h with
  | create | update | finish | closeBuffer => rfl
  | openBuffer ix args encodable signed pays target named opens =>
    rename_i payer authority did buffer d nm kb
    obtain ⟨view, hview, -, hauthority⟩ := signed
    obtain ⟨-, -, -, -, hlen, -⟩ := Body.admits_ok_iff.mp opens.admitted
    have hparse := CreateKeyBuffer.parse_ok_iff.mpr ⟨args, encodable, by rw [hlen]; rfl⟩
    obtain ⟨hdid, hsigner, hmethod, -⟩ := opens.record
    have hopened : c.opened = some ⟨did.address, view.address, nm, []⟩ := by
      rw [Call.opened, target, hview, hparse]
      rfl
    simp only [Effect.usedBuffer, Effect.record, hopened, hdid, hsigner, hmethod, hauthority]
  | writeBuffer ix args signed named staged nonempty next fits =>
    rename_i buffer kb offset chunk
    have hshort : chunk.length < 2 ^ 32 := by
      have := kb.keyLen_lt
      omega
    have hparse := WriteKeyBuffer.parse_ok_iff (a := (offset.toNat, chunk)).mpr
      ⟨offset, args, hshort, rfl⟩
    have hchunk : c.chunk = some chunk := by
      rw [Call.chunk, hparse]
      rfl
    simp only [Effect.usedBuffer, Effect.record, hchunk]
    cases g buffer.address <;> rfl

end Performs

/-! ### What a live buffer holds -/

/-- The buffer holds what the upload says. -/
def Upload.Describes (u : Upload) (kb : KeyBuffer) : Prop :=
  kb.didAccount = u.didAccount ∧ kb.authority = u.authority ∧ kb.method = u.method ∧
    kb.received = u.key

/-- The uploads under way are those of the live buffers. -/
def Tracks (P : Platform) (L : Ledger) (g : Uploads) : Prop :=
  ∀ a, (∃ kb u, IsBuffer P L a kb ∧ g a = some u ∧ u.Describes kb) ∨
    (∀ kb, ¬IsBuffer P L a kb) ∧ g a = none

theorem Upload.Describes.append {u : Upload} {kb : KeyBuffer} (h : u.Describes kb) (chunk : Bytes)
    (hfits : kb.received.length + chunk.length ≤ kb.method.keyLen) :
    Describes { u with chunks := u.chunks ++ [chunk] } (kb.append chunk hfits) := by
  obtain ⟨hdid, hauthority, hmethod, hkey⟩ := h
  refine ⟨hdid, hauthority, hmethod, ?_⟩
  simp only [KeyBuffer.append, hkey, Upload.key, List.flatten_append, List.flatten_cons,
    List.flatten_nil, List.append_nil]

theorem Performs.tracks (hP : P.Lawful) (hS : Sound P L) {c : Call} {e : Effect}
    {log : List Bytes} {g : Uploads} (h : Performs P c L e L' log) (hg : Tracks P L g) :
    Tracks P L' (e.record g) := by
  intro a
  rcases hg a with ⟨kb, u, hkb, hu, hdescribes⟩ | ⟨hnone, hu⟩
  · rcases h.buffer_cases hkb with hsame | ⟨kb', chunk, rfl⟩ | hgone
    · exact Or.inl ⟨kb, u, hkb.of_same (h.frame hsame),
        (Effect.record_of_not_used (mt Effect.touched_of_used hsame) g).trans hu, hdescribes⟩
    · obtain ⟨-, hkb', -, hfits, rfl⟩ := h.written
      refine Or.inl ⟨_, { u with chunks := u.chunks ++ [chunk] }, hkb', ?_,
        hdescribes.append chunk hfits⟩
      simp [Effect.record, hu]
    · have hempty := (h.gone hgone).2.2
      refine Or.inr ⟨fun kb' hkb' => ?_, ?_⟩
      · have howner := hkb'.owner
        rw [hempty] at howner
        exact programId_ne_systemProgram howner.symm
      · rcases hgone with ⟨did, d, d', rfl⟩ | rfl <;> simp [Effect.record]
  · by_cases hopen : ∃ kb, e = .openBuffer a kb
    · obtain ⟨kb, rfl⟩ := hopen
      obtain ⟨-, hkb, hreceived, -⟩ := h.opened hP
      exact Or.inl ⟨kb, _, hkb, Function.update_self .., rfl, rfl, rfl, hreceived⟩
    · push Not at hopen
      refine Or.inr ⟨fun kb' hkb' => ?_, Effect.record_none hu hopen⟩
      rcases h.buffer_origin hP hS hkb' with ⟨hold, -⟩ | rfl | ⟨kb₀, chunk, rfl⟩
      · exact hnone kb' hold
      · exact hopen kb' rfl
      · exact hnone kb₀ h.written.1.toIsBuffer

theorem Quiet.tracks {g : Uploads} (h : Quiet L L') (hg : Tracks P L g) : Tracks P L' g := by
  intro a
  rcases hg a with ⟨kb, u, hkb, hu⟩ | ⟨hnone, hu⟩
  · exact Or.inl ⟨kb, u, h.isBuffer_iff.mpr hkb, hu⟩
  · exact Or.inr ⟨fun kb hkb => hnone kb (h.isBuffer_iff.mp hkb), hu⟩

theorem tracks_of_run (hP : P.Lawful) (h₀ : Fresh L₀) (hrun : Run (Step P) L₀ turns L) :
    Tracks P L (uploads turns) := by
  refine hrun.trace (P := fun turns L => Tracks P L (uploads turns)) ?_ ?_
  · intro turns L₁ t L₂ hrun₁ ih hstep
    have hS₁ : Sound P L₁ := sound_of_run hP h₀ hrun₁
    rw [uploads_snoc]
    rcases hstep.cases hP hS₁ with ⟨c, e, log, rfl, h⟩ | ⟨hother, hquiet⟩
    · change Tracks P L₂ ((uploads turns).record c)
      rw [h.record_eq]
      exact h.tracks hP hS₁ ih
    · have hsame : t.record (uploads turns) = uploads turns := by
        cases t with
        | accepted c => exact absurd rfl (hother c)
        | refused c => rfl
        | outside => rfl
      rw [hsame]
      exact hquiet.tracks ih
  · intro a
    exact Or.inr ⟨fun kb hkb => h₀ a hkb.owner, rfl⟩

/-! ### Each upload ends at most once -/

/-- Uploads opened at `a` ended by a finish or a close, but for the one under way. -/
def Balanced (turns : List Turn) (a : Address) : Prop :=
  turns.countP (Turn.uses .createKeyBuffer a) =
    turns.countP (Turn.uses .addVerificationMethodFromBuffer a) +
      turns.countP (Turn.uses .closeKeyBuffer a) + if (uploads turns a).isSome then 1 else 0

theorem countP_snoc {ix : Ix} {t : Turn} : (turns ++ [t]).countP (Turn.uses ix a) =
    turns.countP (Turn.uses ix a) + if Turn.uses ix a t then 1 else 0 := by
  rw [List.countP_append, List.countP_singleton]

theorem Balanced.snoc_same {t : Turn} (h : Balanced turns a)
    (hsame : t.record (uploads turns) a = uploads turns a)
    (huses : ∀ ix, t.uses ix a = false) : Balanced (turns ++ [t]) a := by
  unfold Balanced at h ⊢
  simp only [countP_snoc, uploads_snoc, hsame, huses, h]
  rfl

theorem Performs.balanced (hP : P.Lawful) {c : Call} {e : Effect} {log : List Bytes}
    (h : Performs P c L e L' log) (hg : Tracks P L (uploads turns))
    (hnamed : ∃ ix, e.usedBuffer = some (ix, a)) (hb : Balanced turns a) :
    Balanced (turns ++ [.accepted c]) a := by
  obtain ⟨ix, hnamed⟩ := hnamed
  have hlive {kb : KeyBuffer} (hkb : IsBuffer P L a kb) : (uploads turns a).isSome = true := by
    rcases hg a with ⟨-, u, -, hu, -⟩ | ⟨hnone, -⟩
    · rw [hu]
      rfl
    · exact absurd hkb (hnone kb)
  unfold Balanced at hb ⊢
  simp only [countP_snoc, uploads_snoc, Turn.record, h.record_eq, Turn.uses, h.usedBuffer_eq]
  cases e with
  | create | update => cases hnamed
  | openBuffer b kb =>
    cases hnamed
    have hvacant : uploads turns a = none := by
      rcases hg a with ⟨kb', -, hkb', -⟩ | ⟨-, hnone⟩
      · exact absurd rfl (hkb'.owner_ne (h.opened hP).1)
      · exact hnone
    rw [hvacant] at hb
    simpa [Effect.usedBuffer, Effect.record] using hb
  | writeBuffer b kb kb' chunk =>
    cases hnamed
    have hsome := hlive h.written.1.toIsBuffer
    rw [if_pos hsome] at hb
    simpa [Effect.usedBuffer, Effect.record, hsome] using hb
  | finish did d d' b kb =>
    cases hnamed
    rw [if_pos (hlive (h.gone (Or.inl ⟨_, _, _, rfl⟩)).1.toIsBuffer)] at hb
    simp only [Effect.usedBuffer, Effect.record, Function.update_self]
    simp
    omega
  | closeBuffer b kb =>
    cases hnamed
    rw [if_pos (hlive (h.gone (Or.inr rfl)).1.toIsBuffer)] at hb
    simpa [Effect.usedBuffer, Effect.record, Nat.add_assoc] using hb

theorem balanced_of_run (hP : P.Lawful) (h₀ : Fresh L₀) (hrun : Run (Step P) L₀ turns L)
    (a : Address) : Balanced turns a := by
  refine hrun.trace (P := fun turns _ => Balanced turns a) ?_ rfl
  intro turns L₁ t L₂ hrun₁ ih hstep
  have hS₁ : Sound P L₁ := sound_of_run hP h₀ hrun₁
  have htracks : Tracks P L₁ (uploads turns) := tracks_of_run hP h₀ hrun₁
  rcases hstep.cases hP hS₁ with ⟨c, e, log, rfl, h⟩ | ⟨hother, -⟩
  · by_cases hnamed : ∃ ix, e.usedBuffer = some (ix, a)
    · exact h.balanced hP htracks hnamed ih
    · refine ih.snoc_same ?_ fun ix => ?_
      · rw [Turn.record, h.record_eq]
        exact Effect.record_of_not_used hnamed _
      · rw [Turn.uses, h.usedBuffer_eq]
        exact beq_eq_false_iff_ne.mpr fun hix => hnamed ⟨ix, hix⟩
  · cases t with
    | accepted c => exact absurd rfl (hother c)
    | refused c | outside => exact ih.snoc_same rfl fun _ => rfl

/-! ### Key buffers -/

/-- The account at `a` is the buffer of the upload: at the address found for its DID and
authority, with its header, its bytes so far and zeros for the others. -/
def Ledger.Holds (P : Platform) (L : Ledger) (a : Address) (u : Upload) : Prop :=
  (∃ bump, P.deriveProgramAddress [keyBufferSeed, u.didAccount.val, u.authority.val] =
      some (a, bump) ∧
    KeyBufferRef.parse (L a).data = .ok ⟨u.didAccount, u.authority, bump, u.method.methodType,
      u.method.flags, u.method.keyLen, u.key.length, u.method.fragment⟩) ∧
  u.key.length ≤ u.method.keyLen ∧
  (L a).data.drop keyBufferHeader =
    u.key ++ List.replicate (u.method.keyLen - u.key.length) 0 ∧
  (L a).data.length = keyBufferHeader + u.method.keyLen

/-- The accepted finish of `u` appends its method to its DID, leaves every other DID
alone and ends the buffer. -/
def Finishes (P : Platform) (L L' : Ledger) (a : Address) (u : Upload) : Prop :=
  u.key.length = u.method.keyLen ∧
  (∃ d d', L.DidAt P u.didAccount d ∧ L'.DidAt P u.didAccount d' ∧
    d'.body = { d.body with methods := d.body.methods ++
      [⟨u.method.fragment, u.method.methodType, u.method.flags, u.key⟩] }) ∧
  (∀ b, L.HasDid b → b ≠ u.didAccount → (L' b).data = (L b).data) ∧ ¬L'.HasBuffer a

theorem Upload.Describes.holds {u : Upload} {kb : KeyBuffer} (h : u.Describes kb)
    (hkb : Staged P L a kb) : L.Holds P a u := by
  obtain ⟨hdid, hauthority, hmethod, hkey⟩ := h
  have hle := kb.received_le
  rw [hkey, hmethod] at hle
  refine ⟨⟨kb.bump, hdid ▸ hauthority ▸ hkb.found, ?_⟩, hle, ?_, ?_⟩
  · rw [hkb.data_eq, kb.parse_encode, KeyBuffer.ref, hdid, hauthority, hmethod, hkey]
  · rw [hkb.data_eq, KeyBuffer.encode, ← kb.length_header, List.drop_left, KeyBuffer.keyField,
      hkey, hmethod]
  · rw [hkb.data_eq, kb.length_encode, hmethod]

theorem Performs.finishes {c : Call} {e : Effect} {log : List Bytes} {g : Uploads}
    (hS : Sound P L) (h : Performs P c L e L' log) (hg : Tracks P L g)
    (hix : c.ix = some .addVerificationMethodFromBuffer) : ∃ buffer u,
      c.keyBuffer = some buffer ∧ g buffer.address = some u ∧
        Finishes P L L' buffer.address u := by
  have hperforms := h
  cases h with
  | create founds => rcases founds with ⟨hother, -⟩ | ⟨hother, -⟩ <;> simp [hix] at hother
  | update ix args signed pays target isDid authorized applied clock settled =>
    rename_i op body now L₁
    have hother := Option.some.inj (hix.symm.trans ix)
    cases op <;> cases hother
  | openBuffer ix | writeBuffer ix | closeBuffer ix => simp [hix] at ix
  | finish ix args signed pays target named staged bound isDid complete authorized applied clock
      settled =>
    rename_i payer did buffer d kb body now L₁
    rcases hg buffer.address with ⟨kb', u, hkb', hu, hdescribes⟩ | ⟨hnone, -⟩
    · rw [hkb'.unique staged.toIsBuffer] at hdescribes
      obtain ⟨hdid, hauthority, hmethod, hkey⟩ := hdescribes
      refine ⟨buffer, u, named, hu, ?_, ?_, ?_, ?_⟩
      · rw [← hkey, ← hmethod, complete]
      · obtain ⟨-, -, hbody⟩ := Body.addVm_ok_iff.mp applied
        obtain ⟨key, body', hamended⟩ := hperforms.amended (Or.inr ⟨_, _, rfl, rfl⟩)
        have hat : u.didAccount = did.address := hdid.symm.trans bound
        rw [hat]
        refine ⟨d, _, isDid.didAt, hamended.after.didAt, ?_⟩
        simp only [Document.updated, hbody, KeyBuffer.toMethod, hmethod, hkey]
      · intro b hb hne
        have hother : b ∉ [did.address, buffer.address] := by
          obtain ⟨d', hd'⟩ := hS.exists_registered hb
          simp only [List.mem_cons, List.not_mem_nil, or_false, not_or]
          exact ⟨fun hsame => hne (hsame.trans (bound.symm.trans hdid)),
            hd'.toIsDid.ne_buffer staged.toIsBuffer⟩
        exact (hperforms.frame hother).1
      · intro hbuffer
        have howner := hbuffer.1
        rw [Ledger.closed_self] at howner
        exact programId_ne_systemProgram howner.symm
    · exact absurd staged.toIsBuffer (hnone kb)

/-- Key buffers are private, filled in order and used at most once, under any
interleaving. -/
theorem key_buffers_private (hP : P.Lawful) (h₀ : Fresh L₀) (hrun : Run (Step P) L₀ turns L) :
    (∀ a, L.HasBuffer a → ∃ u, uploads turns a = some u ∧ L.Holds P a u) ∧
    (∀ c L' log, invoke P c L = .ok (L', log) →
      (∀ a u, L.HasBuffer a → uploads turns a = some u →
        ((L' a).data, (L' a).owner) ≠ ((L a).data, (L a).owner) → c.SignedBy u.authority) ∧
      (c.ix = some .addVerificationMethodFromBuffer → ∃ buffer u,
        c.keyBuffer = some buffer ∧ uploads turns buffer.address = some u ∧
          Finishes P L L' buffer.address u)) ∧
    ∀ a, turns.countP (Turn.uses .createKeyBuffer a) =
      turns.countP (Turn.uses .addVerificationMethodFromBuffer a) +
        turns.countP (Turn.uses .closeKeyBuffer a) +
          if (uploads turns a).isSome then 1 else 0 := by
  have hS : Sound P L := sound_of_run hP h₀ hrun
  have htracks : Tracks P L (uploads turns) := tracks_of_run hP h₀ hrun
  have hupload {a : Address} {kb : KeyBuffer} (hkb : IsBuffer P L a kb) :
      ∃ u, uploads turns a = some u ∧ u.Describes kb := by
    rcases htracks a with ⟨kb', u, hkb', hu, hdescribes⟩ | ⟨hnone, -⟩
    · exact ⟨u, hu, hkb.unique hkb' ▸ hdescribes⟩
    · exact absurd hkb (hnone kb)
  refine ⟨fun a hbuffer => ?_, fun c L' log hc => ?_, balanced_of_run hP h₀ hrun⟩
  · obtain ⟨kb, hkb⟩ := hS.exists_staged hbuffer
    obtain ⟨u, hu, hdescribes⟩ := hupload hkb.toIsBuffer
    exact ⟨u, hu, hdescribes.holds hkb⟩
  · obtain ⟨e, h⟩ := exists_performs hP hS hc
    refine ⟨fun a u hbuffer hu hne => ?_, h.finishes hS htracks⟩
    obtain ⟨kb, hkb⟩ := hS.exists_staged hbuffer
    obtain ⟨u', hu', -, hauthority, -⟩ := hupload hkb.toIsBuffer
    cases hu.symm.trans hu'
    rw [← hauthority]
    rcases h.buffer_cases hkb.toIsBuffer with hsame | ⟨kb', chunk, rfl⟩ | hgone
    · have hframe := h.frame hsame
      exact absurd (Prod.ext hframe.1 hframe.2) hne
    · exact h.written.2.2.1
    · exact (h.gone hgone).2.1

/-- Two chunks are accepted, and the finish takes them out as one key. -/
theorem key_buffers_private_sample :
    let turns := turnsOf Sample.platform [Sample.creation, Sample.opening, Sample.writing,
      Sample.completion] Sample.ledger
    let L := afterAll Sample.platform [Sample.creation, Sample.opening, Sample.writing,
      Sample.completion] Sample.ledger
    ∃ u, uploads turns Sample.buffer = some u ∧
      u.chunks = [List.replicate 20 9, List.replicate 12 9] ∧
      L.Holds Sample.platform Sample.buffer u ∧
      Finishes Sample.platform L (after Sample.platform Sample.finishing L) Sample.buffer u := by
  intro turns L
  obtain ⟨hholds, hcalls, -⟩ := key_buffers_private Sample.platform_lawful Sample.ledger_fresh
    (run_of_calls [Sample.creation, Sample.opening, Sample.writing, Sample.completion]
      Sample.ledger)
  obtain ⟨u, hu, hheld⟩ := hholds Sample.buffer (by decide +kernel)
  obtain ⟨log, hdone⟩ := invoke_after (P := Sample.platform) (L := L) (c := Sample.finishing)
    (by decide +kernel)
  obtain ⟨view, u', hnamed, hu', hfinishes⟩ :=
    (hcalls Sample.finishing _ log hdone).2 (by decide +kernel)
  obtain rfl : AccountView.writable Sample.buffer false = view :=
    Option.some.inj (Eq.trans (by decide +kernel) hnamed)
  obtain rfl : u = u' := Option.some.inj (hu.symm.trans hu')
  have hchunks : (uploads turns Sample.buffer).map Upload.chunks =
      some [List.replicate 20 9, List.replicate 12 9] := by decide +kernel
  rw [hu] at hchunks
  exact ⟨u, hu, Option.some.inj hchunks, hheld, hfinishes⟩

end BioDidRegistry
