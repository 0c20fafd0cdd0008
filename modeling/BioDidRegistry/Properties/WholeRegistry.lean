import BioDidRegistry.Properties.Holdings
import BioDidRegistry.Properties.Prefunding
import BioDidRegistry.Registry.Making

/-!
# The whole registry

Every accepted call, whatever accounts and bytes it brings, does what the model does with a
request that says the same. And every request the model grants is accepted in the form the
client builds, if the payer can pay, the clock can be read and the address of a new account
is vacant. So a run of the program is a run of the model, request by request, and nothing
but that keeps the program from granting what the model grants.
-/

namespace BioDidRegistry

open BinaryFormat Transition

variable {P : Platform} {L L' L₀ : Ledger} {c : Call} {log : List Bytes} {w w' : Holdings}

/-! ### What an accepted call says -/

/-- The instruction stamps a document with the time. -/
def Ix.stamps : Ix → Bool
  | createKeyBuffer | writeKeyBuffer | closeKeyBuffer => false
  | _ => true

/-- Who pays the rent or gets it back. -/
def Builder.payer : Builder → Option Address
  | writeKeyBuffer _ _ _ _ => none
  | update payer _ _ op => if op.ix = .setVerificationMethodFlags then none else some payer
  | initializeDid payer _ | initializeOwned payer _ _ | createKeyBuffer payer _ _ _ _ _ _
  | addVerificationMethodFromBuffer payer _ _ | closeKeyBuffer payer _ _ => some payer

/-- Who has to sign, if not the payer alone. -/
def Builder.authority : Builder → Option Address
  | initializeDid _ _ => none
  | initializeOwned _ authority _ | update _ authority _ _ | createKeyBuffer _ authority _ _ _ _ _
  | writeKeyBuffer authority _ _ _ | addVerificationMethodFromBuffer _ authority _
  | closeKeyBuffer _ authority _ => some authority

/-- The call says what the request says: the instruction and its arguments, paid by its payer and
signed by its authority, on the accounts of its DID and its buffer, after which comes that of
the controller, at the time `now`. -/
structure Call.Conveys (P : Platform) (c : Call) (b : Builder) (via : Option Address)
    (now : Int64) : Prop where
  ix : c.ix = some b.ix
  args : c.args = b.args
  payer : ∀ payer ∈ b.payer, ∃ view, c.Pays view ∧ view.address = payer
  signed : ∀ key ∈ b.authority, c.SignedBy key
  accounts : ∃ did buffer, b.Resolves P did buffer ∧ (∀ view ∈ c.didAccount, view.address = did) ∧
    ∀ view ∈ c.keyBuffer, view.address = buffer
  controller : ∀ s ∈ via, ∃ view ∈ c.controller, Client.didAccount P s = some view.address
  clock : b.ix.stamps = true → c.sysvars.clock = .ok now

/-- The turn is an accepted call that conveys the grant, or there is neither. -/
def Turn.Conveys (P : Platform) : Turn → Option Grant → Prop
  | .accepted c, some (b, via, now) => c.Conveys P b via now
  | .accepted _, none => False
  | _, g => g = none

theorem Call.Pays.named {payer : AccountView} (h : c.Pays payer) :
    ∀ p ∈ some payer.address, ∃ view, c.Pays view ∧ view.address = p := by
  rintro _ ⟨⟩
  exact ⟨payer, h, rfl⟩

theorem Call.SignedBy.named {key : Address} (h : c.SignedBy key) :
    ∀ k ∈ some key, c.SignedBy k := by
  rintro _ ⟨⟩
  exact h

theorem address_of_eq_some {account : Option AccountView} {view : AccountView}
    (h : account = some view) : ∀ v ∈ account, v.address = view.address := by
  intro v hv
  rw [Option.some.inj (h.symm.trans hv)]

namespace Stands

/-- Who is authorized on the ledger is authorized by the documents. -/
theorem exists_via (hw : Stands P L w) (hS : Sound P L) {d : Document} {key : Address}
    {controller : Option AccountView} (h : Authorized P L d key controller) :
    ∃ via : Option Address, d.authorize key (via.bind w.documents) = .ok () ∧
      ∀ s ∈ via, ∃ view ∈ controller, Client.didAccount P s = some view.address := by
  obtain ⟨hlive, hdirect | ⟨view, p, hview, hp, hmem, hplive, hpkey⟩⟩ := h
  · exact ⟨none, Document.authorize_ok_iff.mpr ⟨hlive, Or.inl hdirect⟩, by simp⟩
  · have hparent : Registered P L view.address p := hS.registered hp
    refine ⟨some p.subject, Document.authorize_ok_iff.mpr ⟨hlive, Or.inr ⟨p, ?_, hmem, hplive,
      hpkey⟩⟩, ?_⟩
    · rw [Option.bind_some, hw.documents.eq_some hparent]
      rfl
    · rintro s ⟨⟩
      exact ⟨view, hview, hparent.didAccount⟩

theorem unknown_of_vacant (hw : Stands P L w) {subject a : Address} {bump : UInt8}
    (hfound : P.deriveProgramAddress [didSeed, subject.val] = some (a, bump))
    (howner : (L a).owner = systemProgram) : w.documents subject = none := by
  by_contra hused
  obtain ⟨d, hd⟩ := Option.ne_none_iff_exists'.mp hused
  obtain ⟨b, hb, rfl⟩ := (hw.documents _ _).mp hd
  have hsame := hb.found
  rw [hfound] at hsame
  obtain rfl : a = b := congrArg Prod.fst (Option.some.inj hsame)
  exact hb.toIsDid.owner_ne howner rfl

theorem idle_of_vacant (hw : Stands P L w) {did key a : Address} {d : Document} {bump : UInt8}
    (hd : Registered P L did d)
    (hfound : P.deriveProgramAddress [keyBufferSeed, did.val, key.val] = some (a, bump))
    (howner : (L a).owner = systemProgram) : w.uploads (d.subject, key) = none := by
  by_contra hused
  obtain ⟨u, hu⟩ := Option.ne_none_iff_exists'.mp hused
  obtain ⟨b, kb, hkb, rfl, -, hs⟩ := (hw.uploads _ _ _).mp hu
  have hsame := hkb.found
  rw [hs.address_unique ⟨d, hd, rfl⟩, hfound] at hsame
  obtain rfl : a = b := congrArg Prod.fst (Option.some.inj hsame)
  exact hkb.toIsBuffer.owner_ne howner rfl

/-- A key buffer is the upload of its authority for the subject of its DID. -/
theorem uploads_eq (hw : Stands P L w) {a s : Address} {kb : KeyBuffer} (hkb : Staged P L a kb)
    (hs : L.SubjectAt P kb.didAccount s) : w.uploads (s, kb.authority) = some kb.pending :=
  (hw.uploads _ _ _).mpr ⟨a, kb, hkb, rfl, rfl, hs⟩

/-! ### Effects are granted -/

theorem found_of_create (hw : Stands P L w) {subject key a : Address} {bump : UInt8} (now : Int64)
    (hfound : P.deriveProgramAddress [didSeed, subject.val] = some (a, bump))
    (howner : (L a).owner = systemProgram) :
    w.found P subject key now = some (w.record (.initial bump subject key now)) :=
  Holdings.found_eq_some_iff.mpr ⟨hw.unknown_of_vacant hfound howner, a, bump, hfound, rfl⟩

theorem conveyed_create (hw : Stands P L w) {a : Address} {d : Document}
    (h : Performs P c L (.create a d) L' log) : ∃ b via now, c.Conveys P b via now ∧
      w.react P b via now = some (w.record d) := by
  cases h with
  | create founds pays target found vacant rent funds clock =>
    rename_i payer did subject key bump need now L₁
    have hdid : Client.didAccount P subject = some did.address :=
      congrArg (Option.map Prod.fst) found
    rcases founds with ⟨hix, hargs, rfl, hcurve⟩ | ⟨hix, hsigned, nonce, bump', hargs, howned⟩
    · have hbuffer : c.keyBuffer = none := Call.account_eq_none hix rfl
      have hconveys : c.Conveys P (.initializeDid payer.address key) none now :=
        { ix := hix
          args := hargs
          payer := pays.named
          signed := by simp [Builder.authority]
          accounts := ⟨_, did.address, hdid, address_of_eq_some target, by simp [hbuffer]⟩
          controller := by simp
          clock := fun _ => clock }
      exact ⟨_, _, _, hconveys,
        Holdings.react_initializeDid.mpr ⟨hcurve, hw.found_of_create now found vacant.1⟩⟩
    · have hbuffer : c.keyBuffer = none := Call.account_eq_none hix rfl
      obtain ⟨n, rfl⟩ := nonceBlock_surjective nonce
      have hsubject : Client.ownedSubject P key n = some subject :=
        congrArg (Option.map Prod.fst) howned
      have hconveys : c.Conveys P (.initializeOwned payer.address key n) none now :=
        { ix := hix
          args := hargs
          payer := pays.named
          signed := hsigned.named
          accounts := ⟨_, did.address, ⟨subject, hsubject, hdid⟩, address_of_eq_some target,
            by simp [hbuffer]⟩
          controller := by simp
          clock := fun _ => clock }
      exact ⟨_, _, _, hconveys, Holdings.react_initializeOwned.mpr
        ⟨subject, hsubject, hw.found_of_create now found vacant.1⟩⟩

theorem conveyed_update (hw : Stands P L w) (hS : Sound P L) {a : Address} {d d' : Document}
    {op : Op} (h : Performs P c L (.update a d op d') L' log) : ∃ b via now,
      c.Conveys P b via now ∧ w.react P b via now = some (w.record d') := by
  cases h with
  | update ix args signed pays target isDid authorized applied clock settled =>
    rename_i payer did key body now L₁
    obtain ⟨via, hauth, hvia⟩ := hw.exists_via hS authorized
    have hbuffer : c.keyBuffer = none := Call.account_eq_none ix op.keyBufferPos_ix
    have hconveys : c.Conveys P (.update payer.address key d.subject op) via now :=
      { ix := ix
        args := args
        payer := by
          intro p hp
          rw [Builder.payer] at hp
          split_ifs at hp with hflags
          · cases hp
          · exact (pays.resolve_right hflags).named p hp
        signed := signed.named
        accounts := ⟨_, did.address, isDid.didAccount, address_of_eq_some target, by simp [hbuffer]⟩
        controller := hvia
        clock := fun _ => clock }
    refine ⟨_, _, _, hconveys, Holdings.react_update.mpr ⟨_, Holdings.edited_eq_some_iff.mpr
      ⟨d, hw.documents.eq_some isDid, ?_⟩, rfl⟩⟩
    rw [Document.apply, hauth, except_bind_ok, applied]
    rfl

theorem conveyed_openBuffer (hw : Stands P L w) (hS : Sound P L) {a : Address} {kb : KeyBuffer}
    (h : Performs P c L (.openBuffer a kb) L' log) : ∃ b via now s, c.Conveys P b via now ∧
      L.SubjectAt P kb.didAccount s ∧
      w.react P b via now = some (w.stage s kb.authority (some kb.pending)) := by
  cases h with
  | openBuffer ix args encodable signed pays target named opens =>
    rename_i payer authority did buffer d nm
    have hd : Registered P L did.address d := hS.registered opens.isDid
    obtain ⟨via, hauth, hvia⟩ := hw.exists_via hS opens.authorized
    obtain ⟨hkbdid, hkbkey, hkbmethod, hnone⟩ := opens.record
    have hkeyLen : (UInt32.ofNat nm.keyLen).toNat = nm.keyLen :=
      UInt32.toNat_ofNat_of_lt encodable.2
    have hpending : kb.pending = ⟨nm, []⟩ := by rw [KeyBuffer.pending, hkbmethod, hnone]
    have hbuffer : Client.keyBuffer P d.subject authority.address = some buffer.address := by
      rw [Client.keyBuffer, hd.didAccount]
      exact congrArg (Option.map Prod.fst) opens.found
    have hconveys : c.Conveys P (.createKeyBuffer payer.address authority.address d.subject
        nm.fragment nm.methodType nm.flags (UInt32.ofNat nm.keyLen)) via 0 :=
      { ix := ix
        args := by rw [args, Builder.args, hkeyLen]
        payer := pays.named
        signed := signed.named
        accounts := ⟨_, _, ⟨hd.didAccount, hbuffer⟩, address_of_eq_some target,
          address_of_eq_some named⟩
        controller := hvia
        clock := by simp [Builder.ix, Ix.stamps] }
    refine ⟨_, _, _, d.subject, hconveys, ?_, ?_⟩
    · rw [hkbdid]
      exact ⟨d, hd, rfl⟩
    · rw [Holdings.react_createKeyBuffer, hkeyLen]
      refine ⟨d, hw.documents.eq_some hd, hauth, opens.admitted,
        hw.idle_of_vacant hd opens.found opens.vacant.1, ?_⟩
      rw [hkbkey, hpending]

theorem conveyed_writeBuffer (hw : Stands P L w) (hS : Sound P L) {a : Address}
    {kb kb' : KeyBuffer} {chunk : Bytes} (h : Performs P c L (.writeBuffer a kb kb' chunk) L' log) :
    ∃ b via now s, c.Conveys P b via now ∧ L.SubjectAt P kb.didAccount s ∧
      w.react P b via now = some (w.stage s kb'.authority (some kb'.pending)) := by
  cases h with
  | writeBuffer ix args signed named staged nonempty next fits =>
    rename_i buffer offset
    obtain ⟨d, hd⟩ := staged.did
    have hd : Registered P L kb.didAccount d := hS.registered hd
    have hs : L.SubjectAt P kb.didAccount d.subject := ⟨d, hd, rfl⟩
    have hdid : c.didAccount = none := Call.account_eq_none ix rfl
    have hconveys : c.Conveys P (.writeKeyBuffer kb.authority d.subject offset chunk) none 0 :=
      { ix := ix
        args := args
        payer := by simp [Builder.payer]
        signed := signed.named
        accounts := ⟨_, _, ⟨hd.didAccount, staged.keyBuffer hd⟩, by simp [hdid],
          address_of_eq_some named⟩
        controller := by simp
        clock := by simp [Builder.ix, Ix.stamps] }
    exact ⟨_, _, _, d.subject, hconveys, hs, Holdings.react_writeKeyBuffer.mpr
      ⟨kb.pending, hw.uploads_eq staged hs, ⟨nonempty, next, fits⟩, rfl⟩⟩

theorem conveyed_finish (hw : Stands P L w) (hS : Sound P L) {did a : Address} {d d' : Document}
    {kb : KeyBuffer} (h : Performs P c L (.finish did d d' a kb) L' log) : ∃ b via now s,
      c.Conveys P b via now ∧ L.SubjectAt P kb.didAccount s ∧
      w.react P b via now = some ((w.record d').stage s kb.authority none) := by
  cases h with
  | finish ix args signed pays target named staged bound isDid complete authorized applied clock
        settled =>
    rename_i payer did buffer body now L₁
    have hs : L.SubjectAt P kb.didAccount d.subject := ⟨d, bound ▸ isDid, rfl⟩
    obtain ⟨via, hauth, hvia⟩ := hw.exists_via hS authorized
    have hconveys : c.Conveys P (.addVerificationMethodFromBuffer payer.address kb.authority
        d.subject) via now :=
      { ix := ix
        args := args
        payer := pays.named
        signed := signed.named
        accounts := ⟨_, _, ⟨isDid.didAccount, staged.keyBuffer (bound ▸ isDid)⟩,
          address_of_eq_some target, address_of_eq_some named⟩
        controller := hvia
        clock := fun _ => clock }
    refine ⟨_, _, _, d.subject, hconveys, hs, Holdings.react_finish.mpr ⟨kb.pending,
      hw.uploads_eq staged hs, complete, _, Holdings.edited_eq_some_iff.mpr
        ⟨d, hw.documents.eq_some isDid, ?_⟩, rfl⟩⟩
    change d.apply P.isCurvePoint kb.authority (via.bind w.documents) (.addVm kb.toMethod) now = _
    rw [Document.apply, hauth, except_bind_ok, applied]
    rfl

theorem conveyed_closeBuffer (hw : Stands P L w) (hS : Sound P L) {a : Address} {kb : KeyBuffer}
    (h : Performs P c L (.closeBuffer a kb) L' log) : ∃ b via now s, c.Conveys P b via now ∧
      L.SubjectAt P kb.didAccount s ∧
      w.react P b via now = some (w.stage s kb.authority none) := by
  cases h with
  | closeBuffer ix args signed pays named staged =>
    rename_i payer buffer
    obtain ⟨d, hd⟩ := staged.did
    have hd : Registered P L kb.didAccount d := hS.registered hd
    have hs : L.SubjectAt P kb.didAccount d.subject := ⟨d, hd, rfl⟩
    have hdid : c.didAccount = none := Call.account_eq_none ix rfl
    have hconveys : c.Conveys P (.closeKeyBuffer payer.address kb.authority d.subject) none 0 :=
      { ix := ix
        args := args
        payer := pays.named
        signed := signed.named
        accounts := ⟨_, _, ⟨hd.didAccount, staged.keyBuffer hd⟩, by simp [hdid],
          address_of_eq_some named⟩
        controller := by simp
        clock := by simp [Builder.ix, Ix.stamps] }
    exact ⟨_, _, _, d.subject, hconveys, hs,
      Holdings.react_closeKeyBuffer.mpr ⟨kb.pending, hw.uploads_eq staged hs, rfl⟩⟩

/-- Every accepted call conveys a request that the model grants, and leaves the ledger that
stands for the holdings after it. -/
theorem conveyed (hw : Stands P L w) (hP : P.Lawful) (hS : Sound P L)
    (h : invoke P c L = .ok (L', log)) : ∃ b via now w', c.Conveys P b via now ∧
      w.react P b via now = some w' ∧ Stands P L' w' := by
  obtain ⟨e, h⟩ := exists_performs hP hS h
  cases e with
  | create a d =>
    obtain ⟨b, via, now, hc, hreact⟩ := hw.conveyed_create h
    exact ⟨b, via, now, _, hc, hreact, hw.on_create hP hS h⟩
  | update a d op d' =>
    obtain ⟨b, via, now, hc, hreact⟩ := hw.conveyed_update hS h
    exact ⟨b, via, now, _, hc, hreact, hw.on_update hP hS h⟩
  | openBuffer a kb =>
    obtain ⟨b, via, now, s, hc, hs, hreact⟩ := hw.conveyed_openBuffer hS h
    exact ⟨b, via, now, _, hc, hreact, hw.on_openBuffer hP hS h hs⟩
  | writeBuffer a kb kb' chunk =>
    obtain ⟨b, via, now, s, hc, hs, hreact⟩ := hw.conveyed_writeBuffer hS h
    exact ⟨b, via, now, _, hc, hreact, hw.on_writeBuffer hP hS h hs⟩
  | finish did d d' a kb =>
    obtain ⟨b, via, now, s, hc, hs, hreact⟩ := hw.conveyed_finish hS h
    exact ⟨b, via, now, _, hc, hreact, hw.on_finish hP hS h hs⟩
  | closeBuffer a kb =>
    obtain ⟨b, via, now, s, hc, hs, hreact⟩ := hw.conveyed_closeBuffer hS h
    exact ⟨b, via, now, _, hc, hreact, hw.on_closeBuffer hP hS h hs⟩

end Stands

/-! ### Granted requests are accepted -/

namespace Builder

/-- What the request costs is covered: an account to be created is vacant and its payer is
another, and the payer can pay the rent that is missing and take what is returned. -/
def Covered (P : Platform) (sv : Sysvars) (L : Ledger) (did buffer : Address) : Builder → Prop
  | initializeDid payer _ | initializeOwned payer _ _ =>
    L.Vacant did ∧ payer ≠ did ∧ Affords P sv L payer did initialSpace
  | update payer authority subject op => ∀ d body, IsDid P L did d →
      d.body.apply P.isCurvePoint authority subject op = .ok body →
      d.body.encode.length ≠ body.encode.length →
      Affords P sv L payer did (offSections + body.encode.length)
  | createKeyBuffer payer _ _ _ _ _ keyLen =>
    L.Vacant buffer ∧ payer ≠ buffer ∧
      Affords P sv L payer buffer (keyBufferHeader + keyLen.toNat)
  | writeKeyBuffer _ _ _ _ => True
  | addVerificationMethodFromBuffer payer _ _ =>
    (∀ d kb, IsDid P L did d → IsBuffer P L buffer kb →
      Affords P sv L payer did (d.encode.length + kb.toMethod.encode.length)) ∧
      (L payer).lamports + (L did).lamports + (L buffer).lamports < 2 ^ 64
  | closeKeyBuffer payer _ _ => (L payer).lamports + (L buffer).lamports < 2 ^ 64

/-- The clock reads `now` if the request needs it, and what it costs is covered. -/
structure Provided (P : Platform) (sv : Sysvars) (L : Ledger) (b : Builder)
    (now : Int64) : Prop where
  clock : b.ix.stamps = true → sv.clock = .ok now
  covered : ∀ did buffer, b.Resolves P did buffer → b.Covered P sv L did buffer

def built (P : Platform) (via : Option Address) (b : Builder) (did buffer : Address) :
    Instruction :=
  ⟨programId, b.accounts did buffer ++ (viaView P via).toList, b.ix.discriminator ++ b.args⟩

variable (P) (sv : Sysvars) (via : Option Address) (b : Builder) (did buffer : Address)

theorem built_ix : ((b.built P via did buffer).call sv).ix = some b.ix ∧
    ((b.built P via did buffer).call sv).args = b.args :=
  Call.ix_of_data rfl

theorem built_controller :
    ((b.built P via did buffer).call sv).controller = viaView P via := by
  rw [Call.controller, Call.account_eq (built_ix P sv via b did buffer).1]
  change (b.accounts did buffer ++ (viaView P via).toList)[b.ix.arity]? = _
  rw [← b.length_accounts did buffer, List.getElem?_append_right le_rfl, Nat.sub_self]
  cases viaView P via <;> rfl

end Builder

namespace Stands

variable {sv : Sysvars} {payer authority subject did buffer : Address} {via : Option Address}
  {now : Int64}

theorem authorized (hw : Stands P L w) {d : Document} {key : Address}
    (h : d.authorize key (via.bind w.documents) = .ok ()) :
    Authorized P L d key (Builder.viaView P via) := by
  obtain ⟨hlive, hdirect | ⟨p, hp, hmem, hplive, hpkey⟩⟩ := Document.authorize_ok_iff.mp h
  · exact ⟨hlive, Or.inl hdirect⟩
  · obtain ⟨s, rfl, hs⟩ := Option.bind_eq_some_iff.mp hp
    obtain ⟨a, ha, rfl⟩ := (hw.documents _ _).mp hs
    refine ⟨hlive, Or.inr ⟨.readonly a false, p, ?_, ha.toIsDid, hmem, hplive, hpkey⟩⟩
    rw [Builder.viaView, Option.bind_some, ha.didAccount]
    rfl

theorem exists_edited (hw : Stands P L w) {op : Op} {d' : Document}
    (hdid : Client.didAccount P subject = some did)
    (h : w.edited P authority subject via op now = some d') : ∃ d body, Registered P L did d ∧
      d.subject = subject ∧ Authorized P L d authority (Builder.viaView P via) ∧
      d.body.apply P.isCurvePoint authority d.subject op = .ok body ∧
      d' = d.updated op body now := by
  obtain ⟨d, hd, happly⟩ := Holdings.edited_eq_some_iff.mp h
  obtain ⟨a, ha, rfl⟩ := (hw.documents _ _).mp hd
  cases hdid.symm.trans ha.didAccount
  simp only [Document.apply, except_bind_ok_iff, except_pure, Except.ok.injEq] at happly
  obtain ⟨_, hauth, body, hbody, rfl⟩ := happly
  exact ⟨d, body, ha, rfl, hw.authorized hauth, hbody, rfl⟩

theorem exists_staged (hw : Stands P L w) {u : Pending}
    (hbuffer : Client.keyBuffer P subject authority = some buffer)
    (h : w.uploads (subject, authority) = some u) : ∃ kb, Staged P L buffer kb ∧
      kb.authority = authority ∧ kb.pending = u ∧ L.SubjectAt P kb.didAccount subject := by
  obtain ⟨a, kb, hkb, rfl, hu, d, hd, rfl⟩ := (hw.uploads _ _ _).mp h
  cases hbuffer.symm.trans (hkb.keyBuffer hd)
  exact ⟨kb, hkb, rfl, hu, d, hd, rfl⟩

theorem granted_update (hw : Stands P L w) (hP : P.Lawful) (hS : Sound P L) {op : Op}
    (hreact : w.react P (.update payer authority subject op) via now = some w')
    (hdid : Client.didAccount P subject = some did) (hclock : sv.clock = .ok now)
    (hcovered : (Builder.update payer authority subject op).Covered P sv L did buffer) :
    ∃ L' log, invoke P (((Builder.update payer authority subject op).built P via did buffer).call
      sv) L = .ok (L', log) ∧ Stands P L' w' := by
  obtain ⟨d', hd', rfl⟩ := Holdings.react_update.mp hreact
  obtain ⟨d, body, hd, rfl, hauth, happly, rfl⟩ := hw.exists_edited hdid hd'
  obtain ⟨hencodable, hknown⟩ := hd.wellFormed.body.encodable_of_apply happly
  let r : Request := ⟨payer, authority, d.subject, none, op⟩
  let i := (Builder.update payer authority d.subject op).built P via did buffer
  have hasks : r.Asks P L i did d (Builder.viaView P via) :=
    ⟨rfl, hencodable, hd.toIsDid, rfl, hd.wellFormed⟩
  obtain ⟨L₁, hsettled⟩ := hasks.exists_resettles happly (hcovered d body hd.toIsDid happly) now
  have hload : op.ix.load P L (i.call sv).accounts =
      .ok (r.update did (Builder.viaView P via)) := by
    have hown := Request.load_ok hd.toIsDid (show d.subject = r.subject from rfl)
      (Builder.viaView P via).toList
    rwa [Option.head?_toList] at hown
  obtain ⟨hix, hargs⟩ := Builder.built_ix P sv via (.update payer authority d.subject op) did buffer
  obtain ⟨hsigned, hcontroller, hpays, htarget, -⟩ := roles_of_load hix op.isUpdate_ix hload
  refine ⟨_, _, hasks.accepted hP hknown hauth happly hclock hsettled, ?_⟩
  refine hw.on_update hP hS (.update hix hargs hsigned hpays htarget hd ?_ happly hclock hsettled)
  rw [hcontroller]
  exact hauth

theorem Affords.exists_funds {n : ℕ} (h : Affords P sv L payer did n) (hne : payer ≠ did) :
    ∃ need L₁, rentMinimumBalance P sv n = .ok need ∧
      Funds L (.writable payer true) (.writable did false) need L₁ := by
  obtain ⟨need, hneed, henough⟩ := h.enough
  obtain ⟨L₁, hfunds⟩ : ∃ L₁, Funds L (.writable payer true) (.writable did false) need L₁ :=
    BioDidRegistry.exists_funds ⟨rfl, rfl⟩ rfl h.owner h.dataless hne
      (show need - (L did).lamports ≤ (L payer).lamports by omega) h.bounded
  exact ⟨need, L₁, hneed, hfunds⟩

theorem granted_create (hw : Stands P L w) (hP : P.Lawful) (hS : Sound P L) {key : Address}
    (hfound : w.found P subject key now = some w') (hdid : Client.didAccount P subject = some did)
    (hfounds : c.Founds P subject key) (hpays : c.Pays (.writable payer true))
    (htarget : c.didAccount = some (.writable did false)) (hclock : c.sysvars.clock = .ok now)
    (haims : ∀ bump, P.deriveProgramAddress [didSeed, subject.val] = some (did, bump) →
      Aims P c L (.writable payer true) (.writable did false) initialSpace
        (c.sysvars.clock.map fun now => (Document.initial bump subject key now).encode) log)
    (hvacant : L.Vacant did) (hne : payer ≠ did)
    (hcovered : Affords P c.sysvars L payer did initialSpace) :
    ∃ L', invoke P c L = .ok (L', log) ∧ Stands P L' w' := by
  obtain ⟨-, a, bump, hfind, rfl⟩ := Holdings.found_eq_some_iff.mp hfound
  obtain rfl : a = did := by
    rw [Client.didAccount, hfind] at hdid
    exact Option.some.inj hdid
  obtain ⟨need, L₁, hneed, hfunds⟩ := Affords.exists_funds hcovered hne
  have hwrite : (c.sysvars.clock.map fun now => (Document.initial bump subject key now).encode) =
      .ok (Document.initial bump subject key now).encode := by
    rw [hclock]
    rfl
  exact ⟨_, (haims bump hfind).invoke_ok hP hvacant hneed hwrite hfunds,
    hw.on_create hP hS (.create hfounds hpays htarget hfind hvacant hneed hfunds hclock)⟩

theorem granted_initializeDid (hw : Stands P L w) (hP : P.Lawful) (hS : Sound P L)
    (hreact : w.react P (.initializeDid payer subject) via now = some w')
    (hdid : Client.didAccount P subject = some did) (hclock : sv.clock = .ok now)
    (hcovered : (Builder.initializeDid payer subject).Covered P sv L did buffer) :
    ∃ L' log, invoke P (((Builder.initializeDid payer subject).built P via did buffer).call sv) L =
      .ok (L', log) ∧ Stands P L' w' := by
  obtain ⟨hcurve, hfound⟩ := Holdings.react_initializeDid.mp hreact
  obtain ⟨hvacant, hne, haffords⟩ := hcovered
  obtain ⟨hix, hargs⟩ := Builder.built_ix P sv via (.initializeDid payer subject) did buffer
  obtain ⟨L', hrun, hstands⟩ := hw.granted_create hP hS hfound hdid
    (Or.inl ⟨hix, hargs, rfl, hcurve⟩) ⟨Call.account_of hix rfl rfl, rfl, rfl⟩
    (Call.account_of hix rfl rfl) hclock
    (fun bump hfind => .initializeDid hix rfl hargs hcurve ⟨rfl, rfl, rfl, rfl⟩ hfind) hvacant hne
    haffords
  exact ⟨L', _, hrun, hstands⟩

theorem granted_initializeOwned (hw : Stands P L w) (hP : P.Lawful) (hS : Sound P L)
    {nonce : UInt64} (hreact : w.react P (.initializeOwned payer authority nonce) via now = some w')
    (hresolves : (Builder.initializeOwned payer authority nonce).Resolves P did buffer)
    (hclock : sv.clock = .ok now)
    (hcovered : (Builder.initializeOwned payer authority nonce).Covered P sv L did buffer) :
    ∃ L' log, invoke P (((Builder.initializeOwned payer authority nonce).built P via did
      buffer).call sv) L = .ok (L', log) ∧ Stands P L' w' := by
  obtain ⟨subject, hsubject, hfound⟩ := Holdings.react_initializeOwned.mp hreact
  obtain ⟨subject', hsubject', hdid⟩ := hresolves
  cases hsubject.symm.trans hsubject'
  obtain ⟨hvacant, hne, haffords⟩ := hcovered
  let c := ((Builder.initializeOwned payer authority nonce).built P via did buffer).call sv
  obtain ⟨hix, hargs⟩ : c.ix = some .initializeOwned ∧ c.args = (nonceBlock nonce).val :=
    Builder.built_ix P sv via (.initializeOwned payer authority nonce) did buffer
  obtain ⟨bump', howned⟩ : ∃ bump',
      P.deriveProgramAddress (ownedSubjectSeeds authority (nonceBlock nonce)) =
        some (subject, bump') := by
    obtain ⟨⟨_, bump'⟩, howned, rfl⟩ := Option.map_eq_some_iff.mp hsubject
    exact ⟨bump', howned⟩
  have haccounts : c.accounts = .writable payer true :: .readonly authority true ::
      .writable did false :: .readonly systemProgram false :: (Builder.viaView P via).toList := rfl
  have hsigned : c.SignedBy authority :=
    ⟨.readonly authority true, Call.account_of hix haccounts rfl, rfl, rfl⟩
  have hfounds : c.Founds P subject authority :=
    Or.inr ⟨hix, hsigned, nonceBlock nonce, bump', hargs, howned⟩
  have hpays : c.Pays (.writable payer true) := ⟨Call.account_of hix rfl rfl, rfl, rfl⟩
  have htarget : c.didAccount = some (.writable did false) := Call.account_of hix rfl rfl
  have haims (bump : UInt8) (hfind : P.deriveProgramAddress [didSeed, subject.val] =
      some (did, bump)) : Aims P c L (.writable payer true) (.writable did false) initialSpace
      (c.sysvars.clock.map fun now => (Document.initial bump subject authority now).encode)
      [eventBytes didInitialized did subject 1] := by
    have haims := Aims.initializeOwned (L := L) hix haccounts hargs rfl howned
      ⟨rfl, rfl, rfl, rfl⟩ hfind
    exact haims
  obtain ⟨L', hrun, hstands⟩ := hw.granted_create hP hS hfound hdid hfounds hpays htarget hclock
    haims hvacant hne haffords
  exact ⟨L', _, hrun, hstands⟩

theorem granted_createKeyBuffer (hw : Stands P L w) (hP : P.Lawful) (hS : Sound P L)
    {fragment : Bytes} {methodType : UInt8} {flags : UInt16} {keyLen : UInt32}
    (hreact : w.react P (.createKeyBuffer payer authority subject fragment methodType flags keyLen)
      via now = some w')
    (hdid : Client.didAccount P subject = some did)
    (hbuffer : Client.keyBuffer P subject authority = some buffer)
    (hcovered : (Builder.createKeyBuffer payer authority subject fragment methodType flags
      keyLen).Covered P sv L did buffer) :
    ∃ L' log, invoke P (((Builder.createKeyBuffer payer authority subject fragment methodType flags
      keyLen).built P via did buffer).call sv) L = .ok (L', log) ∧ Stands P L' w' := by
  obtain ⟨d, hd, hauth, hadmits, -, rfl⟩ := Holdings.react_createKeyBuffer.mp hreact
  obtain ⟨a, ha, rfl⟩ := (hw.documents _ _).mp hd
  cases hdid.symm.trans ha.didAccount
  obtain ⟨hvacant, hne, haffords⟩ := hcovered
  obtain ⟨bump, hfind⟩ : ∃ bump,
      P.deriveProgramAddress [keyBufferSeed, did.val, authority.val] = some (buffer, bump) := by
    rw [Client.keyBuffer, hdid] at hbuffer
    obtain ⟨⟨_, bump⟩, hfind, rfl⟩ := Option.map_eq_some_iff.mp hbuffer
    exact ⟨bump, hfind⟩
  obtain ⟨need, L₁, hneed, hfunds⟩ := Affords.exists_funds haffords hne
  obtain ⟨hfragment, -⟩ := fits_of_admits hadmits
  obtain ⟨-, hvalid, -⟩ := Body.admits_ok_iff.mp hadmits
  let nm : NewMethod := ⟨fragment, methodType, flags, keyLen.toNat⟩
  let b : Builder := .createKeyBuffer payer authority d.subject fragment methodType flags keyLen
  let kb := KeyBuffer.opened did authority bump nm hfragment keyLen.toNat_lt
  have hencodable : nm.Encodable := ⟨(validFragment_iff.mp hvalid).isStr, keyLen.toNat_lt⟩
  have hopens : Opens P sv (.writable payer true) (.readonly authority true) (.writable did false)
      (.writable buffer false) (Builder.viaView P via) d nm kb L (L₁.create buffer kb.encode) :=
    ⟨ha.toIsDid, hw.authorized hauth, hadmits, ⟨rfl, rfl, rfl, rfl⟩, hfind, hvacant, need, L₁,
      hneed, hfunds, rfl⟩
  have hrun : CreateKeyBuffer.process P sv (.writable payer true :: .readonly authority true ::
      .writable did false :: .writable buffer false :: .readonly systemProgram false ::
      (Builder.viaView P via).toList) nm.args ⟨L, []⟩ =
      .ok () ⟨L₁.create buffer kb.encode, []⟩ := by
    refine (createKeyBuffer_ok_iff hP).mpr ⟨⟨rfl, rfl, rfl, rfl, rfl⟩, d, nm, kb, rfl, hencodable,
      ?_, rfl⟩
    rw [Option.head?_toList]
    exact hopens
  obtain ⟨hix, hargs⟩ := Builder.built_ix P sv via b did buffer
  have hcontroller := Builder.built_controller P sv via b did buffer
  refine ⟨_, _, Instruction.invoke_ok rfl hrun, hw.on_openBuffer hP hS
    (.openBuffer hix hargs hencodable ⟨.readonly authority true, ?_, rfl, rfl⟩
      ⟨?_, rfl, rfl⟩ ?_ ?_ (hcontroller ▸ hopens)) ⟨d, ha, rfl⟩⟩
  · exact Call.account_of hix rfl rfl
  · exact Call.account_of hix rfl rfl
  · exact Call.account_of hix rfl rfl
  · exact Call.account_of hix rfl rfl

theorem granted_writeKeyBuffer (hw : Stands P L w) (hP : P.Lawful) (hS : Sound P L)
    {offset : UInt32} {chunk : Bytes}
    (hreact : w.react P (.writeKeyBuffer authority subject offset chunk) via now = some w')
    (hbuffer : Client.keyBuffer P subject authority = some buffer) :
    ∃ L' log, invoke P (((Builder.writeKeyBuffer authority subject offset chunk).built P via did
      buffer).call sv) L = .ok (L', log) ∧ Stands P L' w' := by
  obtain ⟨u, hu, ⟨hchunk, hoffset, hfits⟩, rfl⟩ := Holdings.react_writeKeyBuffer.mp hreact
  obtain ⟨kb, hkb, rfl, rfl, hs⟩ := hw.exists_staged hbuffer hu
  have hrun : WriteKeyBuffer.process P (.readonly kb.authority true :: .writable buffer false ::
      (Builder.viaView P via).toList) (WriteKeyBuffer.chunkArgs offset chunk) ⟨L, []⟩ =
      .ok () ⟨L.store buffer (kb.append chunk hfits).encode, []⟩ :=
    (writeKeyBuffer_ok_iff hkb.toIsBuffer).mpr ⟨⟨rfl, rfl, rfl⟩, offset, chunk, rfl, hchunk,
      hoffset, hfits, rfl⟩
  let b : Builder := .writeKeyBuffer kb.authority subject offset chunk
  obtain ⟨hix, hargs⟩ := Builder.built_ix P sv via b did buffer
  let c := (b.built P via did buffer).call sv
  have hsigned : c.SignedBy kb.authority :=
    ⟨.readonly kb.authority true, Call.account_of hix rfl rfl, rfl, rfl⟩
  have hnamed : c.keyBuffer = some (.writable buffer false) := Call.account_of hix rfl rfl
  exact ⟨_, _, Instruction.invoke_ok rfl hrun, hw.on_writeBuffer hP hS
    (.writeBuffer hix hargs hsigned hnamed hkb hchunk hoffset hfits) hs⟩

theorem granted_finish (hw : Stands P L w) (hP : P.Lawful) (hS : Sound P L)
    (hreact : w.react P (.addVerificationMethodFromBuffer payer authority subject) via now =
      some w')
    (hdid : Client.didAccount P subject = some did)
    (hbuffer : Client.keyBuffer P subject authority = some buffer) (hclock : sv.clock = .ok now)
    (hcovered : (Builder.addVerificationMethodFromBuffer payer authority subject).Covered P sv L did
      buffer) :
    ∃ L' log, invoke P (((Builder.addVerificationMethodFromBuffer payer authority subject).built P
      via did buffer).call sv) L = .ok (L', log) ∧ Stands P L' w' := by
  obtain ⟨u, hu, hcomplete, d', hd', rfl⟩ := Holdings.react_finish.mp hreact
  obtain ⟨kb, hkb, rfl, rfl, hs⟩ := hw.exists_staged hbuffer hu
  obtain ⟨d, body, hd, rfl, hauth, happly, rfl⟩ := hw.exists_edited hdid hd'
  have hbound : kb.didAccount = did := hs.address_unique ⟨d, hd, rfl⟩
  obtain ⟨haffords, hbounded⟩ := hcovered
  have haffords := haffords d kb hd.toIsDid hkb.toIsBuffer
  have hpayer : did ≠ payer ∧ buffer ≠ payer :=
    ⟨hd.toIsDid.owner_ne haffords.owner, hkb.toIsBuffer.owner_ne haffords.owner⟩
  have hne : buffer ≠ did := (hd.toIsDid.ne_buffer hkb.toIsBuffer).symm
  obtain ⟨L₁, hsettled⟩ : ∃ L₁, Settles P sv L (.writable did false) (.writable payer true)
      (d.encode.length + kb.toMethod.encode.length) L₁ :=
    Affords.exists_settles haffords hd.owner rfl rfl rfl
  have hlen : (d.updated (.addVm kb.toMethod) body now).encode.length =
      d.encode.length + kb.toMethod.encode.length := by
    obtain ⟨-, -, rfl⟩ := Body.addVm_ok_iff.mp happly
    rw [d.length_updated, d.length_encode, Nat.add_assoc]
    exact congrArg (offSections + ·) (Body.length_addMethod ..)
  have hresettled : Resettles P sv L (.writable did false) (.writable payer true) d.encode.length
      (d.updated (.addVm kb.toMethod) body now).encode.length L₁ := by
    rw [hlen]
    refine Or.inr ⟨?_, hsettled⟩
    rw [kb.toMethod.length_encode]
    omega
  have hroom : (L₁ payer).lamports + (L₁ buffer).lamports < 2 ^ 64 := by
    have hsum : (L₁ did).lamports + (L₁ payer).lamports =
        (L did).lamports + (L payer).lamports := (hsettled.trades hpayer.1).sum
    rw [hsettled.of_ne hne hpayer.2]
    omega
  have hrun : AddVerificationMethodFromBuffer.process P sv (.writable payer true ::
      .readonly kb.authority true :: .writable did false :: .writable buffer false ::
      .readonly systemProgram false :: (Builder.viaView P via).toList) [] ⟨L, []⟩ =
      .ok () ⟨(L₁.store did (d.updated (.addVm kb.toMethod) body now).encode).closed buffer payer,
        [eventBytes didModified did d.subject (saturatingSucc d.version)]⟩ := by
    refine (finish_ok_iff hP hd.toIsDid hd.wellFormed hkb.toIsBuffer).mpr ⟨⟨rfl, rfl, rfl, rfl, rfl,
      rfl, rfl, hbound⟩, rfl, hcomplete, ?_, body, happly, _, _, ⟨now, L₁, hclock, hresettled, rfl,
        rfl⟩, ?_, rfl⟩
    · rw [Option.head?_toList]
      exact hauth
    · rw [Ledger.store_lamports, Ledger.store_lamports]
      exact hroom
  let b : Builder := .addVerificationMethodFromBuffer payer kb.authority d.subject
  obtain ⟨hix, hargs⟩ := Builder.built_ix P sv via b did buffer
  have hcontroller := Builder.built_controller P sv via b did buffer
  let c := (b.built P via did buffer).call sv
  have hsigned : c.SignedBy kb.authority :=
    ⟨.readonly kb.authority true, Call.account_of hix rfl rfl, rfl, rfl⟩
  have hpays : c.Pays (.writable payer true) := ⟨Call.account_of hix rfl rfl, rfl, rfl⟩
  have htarget : c.didAccount = some (.writable did false) := Call.account_of hix rfl rfl
  have hnamed : c.keyBuffer = some (.writable buffer false) := Call.account_of hix rfl rfl
  exact ⟨_, _, Instruction.invoke_ok rfl hrun, hw.on_finish hP hS
    (.finish hix hargs hsigned hpays htarget hnamed hkb hbound hd hcomplete (hcontroller ▸ hauth)
      happly hclock hresettled) hs⟩

theorem granted_closeKeyBuffer (hw : Stands P L w) (hP : P.Lawful) (hS : Sound P L)
    (hreact : w.react P (.closeKeyBuffer payer authority subject) via now = some w')
    (hbuffer : Client.keyBuffer P subject authority = some buffer)
    (hcovered : (Builder.closeKeyBuffer payer authority subject).Covered P sv L did buffer) :
    ∃ L' log, invoke P (((Builder.closeKeyBuffer payer authority subject).built P via did
      buffer).call sv) L = .ok (L', log) ∧ Stands P L' w' := by
  obtain ⟨u, hu, rfl⟩ := Holdings.react_closeKeyBuffer.mp hreact
  obtain ⟨kb, hkb, rfl, -, hs⟩ := hw.exists_staged hbuffer hu
  have hrun : CloseKeyBuffer.process P (.writable payer true :: .readonly kb.authority true ::
      .writable buffer false :: (Builder.viaView P via).toList) [] ⟨L, []⟩ =
      .ok () ⟨L.closed buffer payer, []⟩ :=
    (closeKeyBuffer_ok_iff hP hkb.toIsBuffer).mpr ⟨⟨rfl, rfl, rfl, rfl, rfl⟩, rfl, hcovered, rfl⟩
  let b : Builder := .closeKeyBuffer payer kb.authority subject
  obtain ⟨hix, hargs⟩ := Builder.built_ix P sv via b did buffer
  let c := (b.built P via did buffer).call sv
  have hsigned : c.SignedBy kb.authority :=
    ⟨.readonly kb.authority true, Call.account_of hix rfl rfl, rfl, rfl⟩
  have hpays : c.Pays (.writable payer true) := ⟨Call.account_of hix rfl rfl, rfl, rfl⟩
  have hnamed : c.keyBuffer = some (.writable buffer false) := Call.account_of hix rfl rfl
  exact ⟨_, _, Instruction.invoke_ok rfl hrun, hw.on_closeBuffer hP hS
    (.closeBuffer hix hargs hsigned hpays hnamed hkb) hs⟩

/-- What the model grants, the program accepts from a client, if it is provided for. -/
theorem granted (hw : Stands P L w) (hP : P.Lawful) (hS : Sound P L) {b : Builder}
    {i : Instruction} (hreact : w.react P b via now = some w') (hi : b.instruction P via = some i)
    (hprovided : b.Provided P sv L now) :
    ∃ L' log, invoke P (i.call sv) L = .ok (L', log) ∧ Stands P L' w' := by
  obtain ⟨did, buffer, hresolves, rfl⟩ := Builder.instruction_eq_some hi
  have hcovered := hprovided.covered did buffer hresolves
  cases b with
  | initializeDid payer subject =>
    exact hw.granted_initializeDid hP hS hreact hresolves (hprovided.clock rfl) hcovered
  | initializeOwned payer authority nonce =>
    exact hw.granted_initializeOwned hP hS hreact hresolves (hprovided.clock rfl) hcovered
  | update payer authority subject op =>
    have hstamps : op.ix.stamps = true := by cases op <;> rfl
    exact hw.granted_update hP hS hreact hresolves (hprovided.clock hstamps) hcovered
  | createKeyBuffer payer authority subject fragment methodType flags keyLen =>
    exact hw.granted_createKeyBuffer hP hS hreact hresolves.1 hresolves.2 hcovered
  | writeKeyBuffer authority subject offset chunk =>
    exact hw.granted_writeKeyBuffer hP hS hreact hresolves.2
  | addVerificationMethodFromBuffer payer authority subject =>
    exact hw.granted_finish hP hS hreact hresolves.1 hresolves.2 (hprovided.clock rfl) hcovered
  | closeKeyBuffer payer authority subject =>
    exact hw.granted_closeKeyBuffer hP hS hreact hresolves.2 hcovered

end Stands

/-! ### Runs -/

theorem Fresh.stands (h₀ : Fresh L₀) : Stands P L₀ .empty := by
  refine ⟨fun s d => ⟨by simp [Holdings.empty], ?_⟩, fun s key u => ⟨by simp [Holdings.empty], ?_⟩⟩
  · rintro ⟨a, hd, -⟩
    exact absurd hd.owner (h₀ a)
  · rintro ⟨a, kb, hkb, -⟩
    exact absurd hkb.toIsBuffer.owner (h₀ a)

theorem Stands.answers {turn : Turn} (hw : Stands P L w) (hP : P.Lawful) (hS : Sound P L)
    (h : Step P L turn L') : ∃ grant w', turn.Conveys P grant ∧ Holdings.Step P w grant w' ∧
      Sound P L' ∧ Stands P L' w' := by
  have hS' : Sound P L' := h.sound hP hS
  cases h with
  | accepted h =>
    obtain ⟨b, via, now, w', hconveys, hreact, hw'⟩ := hw.conveyed hP hS h
    exact ⟨some (b, via, now), w', hconveys, .granted hreact, hS', hw'⟩
  | refused h => exact ⟨none, w, rfl, .idle, hS', hw⟩
  | outside h => exact ⟨none, w, rfl, .idle, hS', hw.quiet hS h⟩

theorem Fresh.answers {turns : List Turn} (h₀ : Fresh L₀) (hP : P.Lawful)
    (hrun : Run (Step P) L₀ turns L) : ∃ grants w, List.Forall₂ (Turn.Conveys P) turns grants ∧
      Run (Holdings.Step P) .empty grants w ∧ Sound P L ∧ Stands P L w :=
  hrun.simulation_matching (R := fun L w => Sound P L ∧ Stands P L w)
    (fun _ _ _ _ hR hstep => hR.2.answers hP hR.1 hstep) ⟨h₀.sound, h₀.stands⟩

/-- Every run of the program is a run of the model on the requests its accepted calls convey,
and from where it leads the program accepts whatever the model grants next. -/
theorem registry_refines_the_model {turns : List Turn} (hP : P.Lawful) (h₀ : Fresh L₀)
    (hrun : Run (Step P) L₀ turns L) :
    ∃ grants w, List.Forall₂ (Turn.Conveys P) turns grants ∧
      Run (Holdings.Step P) .empty grants w ∧ Stands P L w ∧
      ∀ b via now w' sv i, w.react P b via now = some w' → b.instruction P via = some i →
        b.Provided P sv L now →
        ∃ L' log, invoke P (i.call sv) L = .ok (L', log) ∧ Stands P L' w' := by
  obtain ⟨grants, w, hconveys, hmodel, hS, hw⟩ := h₀.answers hP hrun
  exact ⟨grants, w, hconveys, hmodel, hw, fun _ _ _ _ _ _ hreact hi hprovided =>
    hw.granted hP hS hreact hi hprovided⟩

def Sample.openingRequest : Builder :=
  .createKeyBuffer payer subject subject [97] vmTypeX25519 vmFlagKeyAgreement 32

theorem Sample.openingRequest_provided (hvacant : L.Vacant buffer)
    (hrent : 280 * 6960 ≤ (L buffer).lamports + (L payer).lamports)
    (howner : (L payer).owner = systemProgram) (hdataless : (L payer).data = [])
    (hbounded : (L buffer).lamports + (L payer).lamports < 2 ^ 64) :
    Sample.openingRequest.Provided platform sysvars L 0 where
  clock := by simp [Sample.openingRequest, Builder.ix, Ix.stamps]
  covered := by
    rintro did' buffer' ⟨-, hbuffer⟩
    obtain rfl : buffer = buffer' := Option.some.inj (Eq.trans (by decide +kernel) hbuffer)
    exact ⟨hvacant, by decide, ⟨280 * 6960, by decide +kernel, hrent⟩, howner, hdataless, hbounded⟩

/-- The model grants it as long as nobody has opened the buffer. -/
theorem Sample.openingRequest_granted (hw : Stands platform L w)
    (hd : Registered platform L did document) (hvacant : L.Vacant buffer) :
    w.react platform openingRequest none 0 =
      some (w.stage subject subject (some ⟨⟨[97], vmTypeX25519, vmFlagKeyAgreement, 32⟩, []⟩)) := by
  have hidle : w.uploads (subject, subject) = none :=
    hw.idle_of_vacant hd (show _ = some (buffer, 252) by decide +kernel) hvacant.1
  exact Holdings.react_createKeyBuffer.mpr ⟨document, hw.documents.eq_some hd,
    Document.authorize_ok_iff.mpr ⟨by decide, Or.inl (by decide)⟩, by decide +kernel, hidle, rfl⟩

/-- A DID is created, and the model grants a buffer for it. -/
theorem registry_refines_the_model_sample :
    let L := afterAll Sample.platform [Sample.creation] Sample.ledger
    ∃ grants w w' L' log, grants.length = 1 ∧
      Run (Holdings.Step Sample.platform) .empty grants w ∧
      invoke Sample.platform Sample.opening L = .ok (L', log) ∧ Stands Sample.platform L' w' ∧
      w'.uploads (Sample.subject, Sample.subject) =
        some ⟨⟨[97], vmTypeX25519, vmFlagKeyAgreement, 32⟩, []⟩ := by
  intro L
  have hrun := run_of_calls (P := Sample.platform) [Sample.creation] Sample.ledger
  have hS : Sound Sample.platform L := sound_of_run Sample.platform_lawful Sample.ledger_fresh hrun
  obtain ⟨grants, w, hconveys, hmodel, hw, hgranted⟩ :=
    registry_refines_the_model Sample.platform_lawful Sample.ledger_fresh hrun
  have hd : Registered Sample.platform L Sample.did Sample.document :=
    hS.registered_of_didAt (by decide +kernel)
  have hvacant : L.Vacant Sample.buffer := ⟨by decide +kernel, by decide +kernel⟩
  obtain ⟨L', log, hdone, hw'⟩ := hgranted Sample.openingRequest none 0 _ Sample.sysvars _
    (Sample.openingRequest_granted hw hd hvacant) (Option.eq_some_of_isSome (by decide +kernel))
    (Sample.openingRequest_provided hvacant (by decide +kernel) (by decide +kernel)
      (by decide +kernel) (by decide +kernel))
  refine ⟨grants, w, _, L', log, hconveys.length_eq.symm, hmodel, hdone, hw', ?_⟩
  exact w.stage_self ..

end BioDidRegistry
