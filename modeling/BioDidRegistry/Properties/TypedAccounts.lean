import BioDidRegistry.Registry.Reference

/-!
# Typed accounts

In every reachable ledger an account of the program is a `DidAccount` at the program
address of its subject, with a well-formed document, or a `KeyBuffer` at the program
address of its DID and its authority. The program checks an address by hashing the
seeds with the stored bump only. `loadDidAccountByFind` and `checkKeyBufferByFind`
search for the address instead, and on reachable ledgers decide the same.
-/

namespace BioDidRegistry

open BinaryFormat Transition Verdict

variable {P : Platform} {L L' L₀ : Ledger} {turns : List Turn}

/-! ### The search for the address -/

/-- `loadDidAccount` with `find_program_address` for its address check. -/
def loadDidAccountByFind (P : Platform) (L : Ledger) (didAccount : AccountView) :
    Except Fault Address := do
  ensure ((L didAccount.address).owner == programId) .invalidAccountOwner
  let data := (L didAccount.address).data
  ensure (baseSpace ≤ data.length && data.take 8 == accountDiscriminator) .invalidAccountData
  let r ← Reader.at' .account data offBump
  let (bump, subject) ← Reader.eval (do
    let bump ← Reader.u8
    let subject ← Reader.array 32
    pure (bump, subject)) r
  let found ← findPda P [didSeed, subject.val]
  ensure (found == (didAccount.address, bump)) .invalidSeeds
  pure subject

/-- `checkKeyBuffer` with `find_program_address` for its address check. -/
def checkKeyBufferByFind (P : Platform) (L : Ledger) (keyBuffer : AccountView)
    (authority : Address) (didAccount : Option Address) : Except Fault (ℕ × ℕ) := do
  ensure keyBuffer.isWritable .immutable
  ensure ((L keyBuffer.address).owner == programId) .invalidAccountOwner
  let data := (L keyBuffer.address).data
  ensure (keyBufferHeader ≤ data.length && data.take 8 == keyBufferDiscriminator)
    .invalidAccountData
  let kb ← KeyBufferRef.parse data
  require (kb.authority == authority) .invalidKeyBuffer
  match didAccount with
  | some did => require (kb.didAccount == did) .invalidKeyBuffer
  | none => pure ()
  let found ← findPda P [keyBufferSeed, kb.didAccount.val, kb.authority.val]
  ensure (found == (keyBuffer.address, kb.bump)) .invalidSeeds
  pure (kb.written, kb.keyLen)

theorem findPda_bind {γ : Type} {seeds : List Bytes} {a : Address} {bump : UInt8}
    (h : P.deriveProgramAddress seeds = some (a, bump)) (f : Address × UInt8 → Except Fault γ) :
    (findPda P seeds >>= f) = f (a, bump) := by
  unfold findPda
  rw [h]
  rfl

theorem Sound.loadDidAccount_eq_find (hS : Sound P L) (view : AccountView) :
    loadDidAccount P L view = loadDidAccountByFind P L view := by
  unfold loadDidAccount loadDidAccountByFind
  refine bind_congr_ok fun _ howner => bind_congr_ok fun _ hdisc => ?_
  simp only [ensure_eq_ok, beq_iff_eq, Bool.and_eq_true] at howner hdisc
  obtain ⟨d, hd⟩ := hS.exists_registered ⟨howner, hdisc.2⟩
  have hread := d.read_bump_subject d.body.encode
  rw [← Document.encode, ← hd.data_eq, except_bind_ok_iff] at hread
  obtain ⟨r, hat, heval⟩ := hread
  rw [hat, except_bind_ok, except_bind_ok, heval]
  simp only [except_bind_ok]
  rw [findPda_bind hd.found, hd.address]
  simp

theorem Sound.checkKeyBuffer_eq_find (hS : Sound P L) (view : AccountView) (authority : Address)
    (did : Option Address) :
    checkKeyBuffer P L view authority did = checkKeyBufferByFind P L view authority did := by
  unfold checkKeyBuffer checkKeyBufferByFind
  refine bind_congr_ok fun _ _ => bind_congr_ok fun _ howner => bind_congr_ok fun _ hdisc => ?_
  simp only [ensure_eq_ok, beq_iff_eq, Bool.and_eq_true] at howner hdisc
  obtain ⟨kb, hkb⟩ := hS.exists_staged ⟨howner, hdisc.2⟩
  rw [hkb.data_eq, kb.parse_encode, except_bind_ok, except_bind_ok]
  refine bind_congr_ok fun _ _ => ?_
  have hfound : P.deriveProgramAddress [keyBufferSeed, kb.ref.didAccount.val,
    kb.ref.authority.val] = some (view.address, kb.ref.bump) := hkb.found
  have haddress : P.deriveAddress [keyBufferSeed, kb.ref.didAccount.val,
    kb.ref.authority.val] kb.ref.bump = view.address := hkb.address
  cases did <;> simp [findPda_bind hfound, haddress]

/-! ### The accounts of the program -/

/-- The account at `a` is a `DidAccount` at the address found for its subject. -/
def Ledger.DidAt (P : Platform) (L : Ledger) (a : Address) (d : Document) : Prop :=
  L.HasDid a ∧ Document.decode (L a).data = some d ∧
    (∃ v, DidView.parse (L a).data = .ok v) ∧
    P.deriveProgramAddress [didSeed, d.subject.val] = some (a, d.bump)

instance decidableIsOk {ε α : Type} (x : Except ε α) : Decidable (∃ a, x = .ok a) :=
  match x with
  | .ok a => .isTrue ⟨a, rfl⟩
  | .error _ => .isFalse nofun

instance (a : Address) (d : Document) : Decidable (L.DidAt P a d) :=
  inferInstanceAs (Decidable (_ ∧ _))

/-- The account at `a` is a `KeyBuffer` at the address found for its DID and authority. -/
def Ledger.BufferAt (P : Platform) (L : Ledger) (a : Address) (kb : KeyBufferRef) : Prop :=
  L.HasBuffer a ∧ KeyBufferRef.parse (L a).data = .ok kb ∧
    P.deriveProgramAddress [keyBufferSeed, kb.didAccount.val, kb.authority.val] =
      some (a, kb.bump)

theorem IsDid.decode {a : Address} {d : Document} (hd : IsDid P L a d) :
    Document.decode (L a).data = some d :=
  Document.decode_eq_some_iff.mpr ⟨hd.fits, hd.data_eq⟩

theorem Registered.didAt {a : Address} {d : Document} (hd : Registered P L a d) :
    L.DidAt P a d := by
  obtain ⟨v, hv, -⟩ := hd.toIsDid.exists_view
  exact ⟨hd.toIsDid.hasDid, hd.toIsDid.decode, ⟨v, hv⟩, hd.found⟩

theorem Sound.registered_of_didAt (hS : Sound P L) {a : Address} {d : Document}
    (h : L.DidAt P a d) : Registered P L a d := by
  obtain ⟨d₀, hd₀⟩ := hS.exists_registered h.1
  have hsame : d = d₀ := Option.some.inj (h.2.1.symm.trans hd₀.toIsDid.decode)
  rw [hsame]
  exact hd₀

theorem Staged.bufferAt {a : Address} {kb : KeyBuffer} (hkb : Staged P L a kb) :
    L.BufferAt P a kb.ref :=
  ⟨hkb.toIsBuffer.hasBuffer, by rw [hkb.data_eq, kb.parse_encode], hkb.found⟩

theorem Ledger.HasDid.not_hasBuffer {a : Address} (h : L.HasDid a) : ¬L.HasBuffer a := by
  intro hbuffer
  exact absurd (h.2.symm.trans hbuffer.2) (by decide)

theorem Registered.persists (hP : P.Lawful) (hS : Sound P L) {a : Address} {d : Document}
    (hd : Registered P L a d) (hrun : Run (Step P) L turns L') :
    ∃ d', Registered P L' a d' ∧ d'.subject = d.subject ∧ d'.bump = d.bump := by
  have hkept := hrun.invariant (P := fun L' => Sound P L' ∧
      ∃ d', Registered P L' a d' ∧ d'.subject = d.subject ∧ d'.bump = d.bump) ?_
    ⟨hS, d, hd, rfl, rfl⟩
  · exact hkept.2
  · rintro L₁ t L₂ ⟨hS₁, d₁, hd₁, hsubject, hbump⟩ hstep
    refine ⟨hstep.sound hP hS₁, ?_⟩
    rcases hstep.cases hP hS₁ with ⟨c, e, log, -, hperforms⟩ | ⟨-, hquiet⟩
    · obtain ⟨d₂, hd₂, hsubject', hbump'⟩ := hperforms.persists hd₁
      exact ⟨d₂, hd₂, hsubject'.trans hsubject, hbump'.trans hbump⟩
    · exact ⟨d₁, hquiet.registered_iff.mpr hd₁, hsubject, hbump⟩

/-- The accounts of the program are typed and sit at their own addresses, DIDs keep
theirs for good, and the cheap address checks decide what the search decides. -/
theorem accounts_typed (hP : P.Lawful) (h₀ : Fresh L₀) (hrun : Run (Step P) L₀ turns L) :
    (∀ a, (L a).owner = programId →
      ((∃ d, L.DidAt P a d) ∧ ¬L.HasBuffer a) ∨
        ((∃ kb, L.BufferAt P a kb ∧ ∃ d, L.DidAt P kb.didAccount d) ∧ ¬L.HasDid a)) ∧
    (∀ a d later L', L.DidAt P a d → Run (Step P) L later L' →
      ∃ d', L'.DidAt P a d' ∧ d'.subject = d.subject ∧ d'.bump = d.bump) ∧
    (∀ view, loadDidAccount P L view = loadDidAccountByFind P L view) ∧
    (∀ view authority did,
      checkKeyBuffer P L view authority did = checkKeyBufferByFind P L view authority did) ∧
    ∀ view authority did subject found, loadDidAccount P L view = .ok subject →
      checkKeyBuffer P L view authority did ≠ .ok found := by
  have hS : Sound P L := sound_of_run hP h₀ hrun
  refine ⟨fun a howner => ?_, fun a d later L' hd hlater => ?_, hS.loadDidAccount_eq_find,
    hS.checkKeyBuffer_eq_find, fun view authority did subject found hload hcheck => ?_⟩
  · rcases hS a howner with ⟨d, hd⟩ | ⟨kb, hkb⟩
    · exact Or.inl ⟨⟨d, hd.didAt⟩, hd.toIsDid.hasDid.not_hasBuffer⟩
    · obtain ⟨d, hd⟩ := hkb.did
      exact Or.inr ⟨⟨kb.ref, hkb.bufferAt, d, (hS.registered hd).didAt⟩,
        fun hdid => hdid.not_hasBuffer hkb.toIsBuffer.hasBuffer⟩
  · obtain ⟨d', hd', hsubject, hbump⟩ := (hS.registered_of_didAt hd).persists hP hS hlater
    exact ⟨d', hd'.didAt, hsubject, hbump⟩
  · obtain ⟨d, hd, -⟩ := hS.registered_of_load hload
    obtain ⟨kb, hkb⟩ := hS.staged_of_check hcheck
    exact hd.toIsDid.not_isBuffer hkb.toIsBuffer

/-- A ledger with an account of either kind. -/
theorem accounts_typed_sample :
    let L := afterAll Sample.platform [Sample.creation, Sample.opening] Sample.ledger
    (∃ d, L.DidAt Sample.platform Sample.did d) ∧
      (∃ kb, L.BufferAt Sample.platform Sample.buffer kb) ∧
      ∀ view, loadDidAccount Sample.platform L view =
        loadDidAccountByFind Sample.platform L view := by
  intro L
  have htyped := accounts_typed Sample.platform_lawful Sample.ledger_fresh
    (run_of_calls [Sample.creation, Sample.opening] Sample.ledger)
  have hdid : L.HasDid Sample.did := by decide +kernel
  have hbuffer : L.HasBuffer Sample.buffer := by decide +kernel
  refine ⟨?_, ?_, htyped.2.2.1⟩
  · rcases htyped.1 Sample.did hdid.1 with ⟨hd, -⟩ | ⟨-, hnot⟩
    · exact hd
    · exact absurd hdid hnot
  · rcases htyped.1 Sample.buffer hbuffer.1 with ⟨-, hnot⟩ | ⟨⟨kb, hkb, -⟩, -⟩
    · exact absurd hbuffer hnot
    · exact ⟨kb, hkb⟩

/-- Every account of the program that is not a key buffer is a DID with a well-formed
document, which the parser accepts to the last byte. -/
theorem documents_wellFormed (hP : P.Lawful) (h₀ : Fresh L₀) (hrun : Run (Step P) L₀ turns L)
    {a : Address} (howner : (L a).owner = programId) (hkind : ¬L.HasBuffer a) :
    (L a).data.take 8 = accountDiscriminator ∧
      (∃ v, DidView.parse (L a).data = .ok v ∧ v.sections.endPos = (L a).data.length) ∧
      ∃ d, Document.decode (L a).data = some d ∧ d.WellFormed := by
  have hS : Sound P L := sound_of_run hP h₀ hrun
  rcases hS a howner with ⟨d, hd⟩ | ⟨kb, hkb⟩
  · obtain ⟨v, hv, hshows⟩ := hd.toIsDid.exists_view
    have hdata : v.data = (L a).data := DidView.parse_ok_iff.mp hv
    exact ⟨hd.toIsDid.hasDid.2, ⟨v, hv, hshows.endPos_eq.trans (congrArg List.length hdata)⟩, d,
      hd.toIsDid.decode, hd.wellFormed⟩
  · exact absurd hkb.toIsBuffer.hasBuffer hkind

theorem documents_wellFormed_sample : ∃ d, Document.decode
    (afterAll Sample.platform [Sample.creation, Sample.opening] Sample.ledger Sample.did).data =
      some d ∧ d.WellFormed :=
  (documents_wellFormed Sample.platform_lawful Sample.ledger_fresh
    (run_of_calls [Sample.creation, Sample.opening] Sample.ledger) (by decide +kernel)
    (by decide +kernel)).2.2

end BioDidRegistry
