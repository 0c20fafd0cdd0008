import BioDidRegistry.Properties.Authority
import BioDidRegistry.Properties.TypedAccounts
import BioDidRegistry.Registry.Largest
import BioDidRegistry.Registry.Reach

/-!
# The size of accounts

A live DID has an authority, so one of its methods is short and its account takes 50 906
bytes at most, which some reachable account does. An update adds 2 635 bytes at most. That
is far from what the runtime lets an account grow by, so whether an authorized update of
valid values goes through depends on the clock and on lamports only.
-/

namespace BioDidRegistry

open Transition

variable {P : Platform} {L L' L₀ : Ledger} {turns : List Turn}

/-! ### Sizes -/

theorem Document.WellFormed.length_le {d : Document} (h : d.WellFormed)
    (hlive : d.deactivated = 0 → 0 < d.body.authorityCount) : d.encode.length ≤ 50906 := by
  rw [d.length_encode]
  rcases h.deactivated with hzero | ⟨-, hempty⟩
  · have hbody := h.body.length_le_of_authority (hlive hzero)
    simp only [offSections]
    omega
  · rw [hempty]
    decide

namespace Performs

variable {c : Call} {e : Effect} {log : List Bytes} {a : Address}

/-- One call adds one entry at most. -/
theorem length_did_le (hP : P.Lawful) (hS : Sound P L) (h : Performs P c L e L' log)
    {d' : Document} (hd' : Registered P L' a d') :
    d'.encode.length ≤ (L a).data.length + 2635 := by
  rcases h.did_origin hP hS hd' with ⟨hd, -⟩ | rfl | ⟨d, op, hamends⟩
  · rw [hd.data_eq]
    exact Nat.le_add_right ..
  · obtain ⟨-, -, bump, subject, key, now, -, rfl⟩ := h.created hP
    rw [Document.length_initial, initialSpace]
    omega
  · obtain ⟨key, body, hamended⟩ := h.amended hamends
    obtain ⟨now, -, rfl⟩ := hamended.updated
    have hgrowth := Body.length_apply_le hamended.applied
    rw [hamended.before.data_eq, d.length_updated, d.length_encode]
    omega

theorem keyLen_le (hP : P.Lawful) (hS : Sound P L) (h : Performs P c L e L' log)
    (hbefore : ∀ a kb, IsBuffer P L a kb → kb.method.keyLen ≤ 2592) {kb : KeyBuffer}
    (hkb : IsBuffer P L' a kb) : kb.method.keyLen ≤ 2592 := by
  rcases h.buffer_origin hP hS hkb with ⟨hold, -⟩ | rfl | ⟨kb₀, chunk, rfl⟩
  · exact hbefore a kb hold
  · cases h with
    | openBuffer ix args encodable signed pays target named opens =>
      obtain ⟨-, -, hmethod, -⟩ := opens.record
      rw [hmethod]
      exact (fits_of_admits opens.admitted).2
  · cases h with
    | writeBuffer ix args signed named staged nonempty next fits =>
      exact hbefore _ kb₀ staged.toIsBuffer

end Performs

theorem keyLen_le_of_run (hP : P.Lawful) (h₀ : Fresh L₀) (hrun : Run (Step P) L₀ turns L) :
    ∀ a kb, IsBuffer P L a kb → kb.method.keyLen ≤ 2592 := by
  refine hrun.trace (P := fun _ L => ∀ a kb, IsBuffer P L a kb → kb.method.keyLen ≤ 2592) ?_ ?_
  · intro turns L₁ t L₂ hrun₁ ih hstep a kb hkb
    have hS₁ : Sound P L₁ := sound_of_run hP h₀ hrun₁
    rcases hstep.cases hP hS₁ with ⟨c, e, log, rfl, h⟩ | ⟨-, hquiet⟩
    · exact h.keyLen_le hP hS₁ ih hkb
    · exact ih a kb (hquiet.isBuffer_iff.mp hkb)
  · intro a kb hkb
    exact absurd hkb.owner (h₀ a)

theorem Step.length_did_le (hP : P.Lawful) (hS : Sound P L) {t : Turn} (h : Step P L t L')
    {a : Address} (ha : L'.HasDid a) : (L' a).data.length ≤ (L a).data.length + 2635 := by
  obtain ⟨d', hd'⟩ := (h.sound hP hS).exists_registered ha
  rw [hd'.data_eq]
  rcases h.cases hP hS with ⟨c, e, log, -, hperforms⟩ | ⟨-, hquiet⟩
  · exact hperforms.length_did_le hP hS hd'
  · rw [(hquiet.registered_iff.mp hd').data_eq]
    exact Nat.le_add_right ..

/-! ### Updates that go through -/

/-- The call carries the update `op`, and the program loads `u` from its accounts. -/
structure Call.Carries (P : Platform) (L : Ledger) (c : Call) (u : Update) (op : Op) : Prop where
  ix : c.ix = some op.ix
  args : c.args = op.args
  load : op.ix.load P L c.accounts = .ok u

/-- The call finishes the upload of `kb`, signed by its authority, and gives the lamports of
the buffer to `payer`. -/
structure Call.Finishes (P : Platform) (L : Ledger) (c : Call) (payer did buffer : AccountView)
    (kb : KeyBuffer) : Prop where
  ix : c.ix = some .addVerificationMethodFromBuffer
  args : c.args = []
  accounts : ∃ authority system rest, c.accounts = payer :: authority :: did :: buffer :: system ::
    rest ∧ authority.isSigner = true ∧ authority.address = kb.authority ∧
      system.address = systemProgram
  pays : payer.isSigner = true ∧ payer.isWritable = true
  writable : did.isWritable = true ∧ buffer.isWritable = true
  staged : Staged P L buffer.address kb
  bound : kb.didAccount = did.address
  complete : kb.received.length = kb.method.keyLen

section Accepted

variable {c : Call} {d : Document} {body : Body}

/-- An authorized update of valid values goes through exactly when the clock answers and the
rent of the new length can be settled. -/
theorem Call.Carries.accepted_iff {u : Update} {op : Op} (h : c.Carries P L u op) (hP : P.Lawful)
    (hS : Sound P L) (hd : Registered P L u.didAccount.address d)
    (hauth : Authorized P L d u.authority.address u.controller)
    (happly : d.body.apply P.isCurvePoint u.authority.address d.subject op = .ok body) :
    (∃ L' log, invoke P c L = .ok (L', log)) ↔
      (∃ now, c.sysvars.clock = .ok now) ∧
      ∃ L₁, Resettles P c.sysvars L u.didAccount u.payer d.encode.length
        (offSections + body.encode.length) L₁ := by
  obtain ⟨hencodable, hknown⟩ := hd.wellFormed.body.encodable_of_apply happly
  have hsubject : u.subject = d.subject := by
    obtain ⟨-, -, -, -, hload⟩ := roles_of_load h.ix op.isUpdate_ix h.load
    obtain ⟨d', hd', hsame⟩ := hS.registered_of_load hload
    rw [hsame, hd.toIsDid.unique hd'.toIsDid]
  have hiff {L' : Ledger} {log : List Bytes} :=
    @Call.update_ok_iff P L L' c op u d log hP h.ix h.args h.load hencodable hknown hd hsubject
      hauth
  constructor
  · rintro ⟨L', log, hrun⟩
    obtain ⟨body', now, L₁, hbody, hclock, hsettled, -⟩ := hiff.mp hrun
    cases hbody.symm.trans happly
    rw [d.length_updated] at hsettled
    exact ⟨⟨now, hclock⟩, L₁, hsettled⟩
  · rintro ⟨⟨now, hclock⟩, L₁, hsettled⟩
    rw [← d.length_updated op body now] at hsettled
    exact ⟨_, _, hiff.mpr ⟨body, now, L₁, happly, hclock, hsettled, rfl, rfl⟩⟩

theorem Call.Finishes.accepted_iff {payer did buffer : AccountView} {kb : KeyBuffer}
    (h : c.Finishes P L payer did buffer kb) (hP : P.Lawful)
    (hd : Registered P L did.address d)
    (hauth : Authorized P L d kb.authority c.controller)
    (happly : d.body.apply P.isCurvePoint kb.authority d.subject (.addVm kb.toMethod) = .ok body) :
    (∃ L' log, invoke P c L = .ok (L', log)) ↔
      (∃ now, c.sysvars.clock = .ok now) ∧
      ∃ L₁, Resettles P c.sysvars L did payer d.encode.length
          (offSections + body.encode.length) L₁ ∧
        (L₁ payer.address).lamports + (L₁ buffer.address).lamports < 2 ^ 64 := by
  obtain ⟨authority, system, rest, haccounts, hsigner, hkey, hsystem⟩ := h.accounts
  have hcontroller : c.controller = rest.head? := by
    apply Call.account_of h.ix haccounts
    cases rest <;> rfl
  rw [hcontroller] at hauth
  have hhandler : handler P c.sysvars .addVerificationMethodFromBuffer c.accounts c.args =
      AddVerificationMethodFromBuffer.process P c.sysvars
        (payer :: authority :: did :: buffer :: system :: rest) [] := by
    rw [haccounts, h.args]
    rfl
  constructor
  · rintro ⟨L', log, hrun⟩
    obtain ⟨ix, hix, hrun⟩ := invoke_ok_iff.mp hrun
    cases hix.symm.trans h.ix
    rw [hhandler] at hrun
    obtain ⟨-, -, -, -, body', hbody, v, m₁, ⟨now, L₁, hclock, hsettled, rfl, -⟩, hroom, -⟩ :=
      (finish_ok_iff hP hd.toIsDid hd.wellFormed h.staged.toIsBuffer).mp hrun
    rw [hkey] at hbody
    cases hbody.symm.trans happly
    rw [d.length_updated] at hsettled
    refine ⟨⟨now, hclock⟩, L₁, hsettled, ?_⟩
    simpa using hroom
  · rintro ⟨⟨now, hclock⟩, L₁, hsettled, hroom⟩
    rw [← d.length_updated (.addVm kb.toMethod) body now] at hsettled
    have hrun := (finish_ok_iff hP (m := ⟨L, []⟩) (u := ()) hd.toIsDid hd.wellFormed
      h.staged.toIsBuffer).mpr ⟨⟨h.pays.1, h.pays.2, hsigner, hsystem, h.writable.1, h.writable.2,
        hkey.symm, h.bound⟩, rfl, h.complete, hkey ▸ hauth, body, hkey ▸ happly, _,
        _, ⟨now, L₁, hclock, hsettled, rfl, rfl⟩, by simpa using hroom, rfl⟩
    rw [← hhandler] at hrun
    exact ⟨_, _, invoke_ok_iff.mpr ⟨_, h.ix, hrun⟩⟩

end Accepted

/-! ### The largest account -/

theorem largest_reached (hP : P.Lawful) {subject did : Address} {bump : UInt8}
    (hcurve : P.isCurvePoint subject.val = true)
    (hfind : P.deriveProgramAddress [didSeed, subject.val] = some (did, bump)) :
    ∃ L₀ turns L, Fresh L₀ ∧ Run (Step P) L₀ turns L ∧ L.HasDid did ∧
      (L did).data.length = 50906 := by
  obtain ⟨L₀, turns, L, d, h₀, hrun, hd, hbody⟩ :=
    Body.reached hP hcurve hfind (Largest.made P.isCurvePoint subject)
  have hlen : d.encode.length = 50906 := by
    rw [d.length_encode, hbody, Largest.length_body, offSections]
  refine ⟨L₀, turns, L, h₀, hrun, hd.toIsDid.hasDid, ?_⟩
  rw [hd.data_eq, hlen]

/-- In every reachable state an account of a DID has 50 906 bytes at most, and some reachable
state has one of that size for every key subject. No step grows one by more than 2 635
bytes, or leaves a key buffer of more than 2 712. An authorized update of valid values stays
within what the runtime lets an account grow by, and goes through as soon as the clock
answers and the rent can be settled. -/
theorem account_sizes (hP : P.Lawful) (h₀ : Fresh L₀) (hrun : Run (Step P) L₀ turns L) :
    (∀ a, L.HasDid a → (L a).data.length ≤ 50906) ∧
    (∀ t L', Step P L t L' →
      (∀ a, L'.HasDid a → (L' a).data.length ≤ (L a).data.length + 2635) ∧
      ∀ a, L'.HasBuffer a → (L' a).data.length ≤ 2712) ∧
    (∀ c u op d body, c.Carries P L u op → L.DidAt P u.didAccount.address d →
      Authorized P L d u.authority.address u.controller →
      d.body.apply P.isCurvePoint u.authority.address d.subject op = .ok body →
      offSections + body.encode.length ≤ d.encode.length + maxPermittedDataIncrease ∧
      ((∃ L' log, invoke P c L = .ok (L', log)) ↔
        (∃ now, c.sysvars.clock = .ok now) ∧
        ∃ L₁, Resettles P c.sysvars L u.didAccount u.payer d.encode.length
          (offSections + body.encode.length) L₁)) ∧
    (∀ c payer did buffer kb d body, c.Finishes P L payer did buffer kb →
      L.DidAt P did.address d → Authorized P L d kb.authority c.controller →
      d.body.apply P.isCurvePoint kb.authority d.subject (.addVm kb.toMethod) = .ok body →
      offSections + body.encode.length ≤ d.encode.length + maxPermittedDataIncrease ∧
      ((∃ L' log, invoke P c L = .ok (L', log)) ↔
        (∃ now, c.sysvars.clock = .ok now) ∧
        ∃ L₁, Resettles P c.sysvars L did payer d.encode.length
            (offSections + body.encode.length) L₁ ∧
          (L₁ payer.address).lamports + (L₁ buffer.address).lamports < 2 ^ 64)) ∧
    ∀ (subject did : Address) bump, P.isCurvePoint subject.val = true →
      P.deriveProgramAddress [didSeed, subject.val] = some (did, bump) →
      ∃ L₀ turns L, Fresh L₀ ∧ Run (Step P) L₀ turns L ∧ L.HasDid did ∧
        (L did).data.length = 50906 := by
  have hS : Sound P L := sound_of_run hP h₀ hrun
  have hgrowth {d : Document} {key : Address} {op : Op} {body : Body}
      (happly : d.body.apply P.isCurvePoint key d.subject op = .ok body) :
      offSections + body.encode.length ≤ d.encode.length + maxPermittedDataIncrease := by
    have hle := Body.length_apply_le happly
    rw [d.length_encode, maxPermittedDataIncrease]
    omega
  refine ⟨?_, ?_, ?_, ?_, ?_⟩
  · intro a ha
    obtain ⟨d, hd⟩ := hS.exists_registered ha
    rw [hd.data_eq]
    exact hd.wellFormed.length_le (kept_of_run hP h₀ hrun a d hd).1
  · intro t L' hstep
    refine ⟨fun a ha => hstep.length_did_le hP hS ha, ?_⟩
    intro a ha
    obtain ⟨kb, hkb⟩ := (hstep.sound hP hS).exists_staged ha
    have hle := keyLen_le_of_run hP h₀ (hrun.snoc hstep) a kb hkb.toIsBuffer
    rw [hkb.data_eq, kb.length_encode, keyBufferHeader]
    omega
  · intro c u op d body hc hd hauth happly
    exact ⟨hgrowth happly,
      hc.accepted_iff hP hS (hS.registered_of_didAt hd) hauth happly⟩
  · intro c payer did buffer kb d body hc hd hauth happly
    exact ⟨hgrowth happly, hc.accepted_iff hP (hS.registered_of_didAt hd) hauth happly⟩
  · intro subject did bump hcurve hfind
    exact largest_reached hP hcurve hfind

theorem account_sizes_sample :
    let L := afterAll Sample.platform [Sample.creation] Sample.ledger
    let m : Method := ⟨[112], vmTypeEd25519, vmFlagsDefault, Sample.subject.val⟩
    let body : Body := { Sample.document.body with methods := Sample.document.body.methods ++ [m] }
    (L Sample.did).data.length ≤ 50906 ∧
      (∃ L₁, Resettles Sample.platform Sample.sysvars L (.writable Sample.did false)
        (.writable Sample.payer true) Sample.document.encode.length
        (offSections + body.encode.length) L₁) ∧
      ∃ L₀ turns L, Fresh L₀ ∧ Run (Step Sample.platform) L₀ turns L ∧ L.HasDid Sample.did ∧
        (L Sample.did).data.length = 50906 := by
  intro L m body
  obtain ⟨hsize, -, hupdates, -, hattained⟩ := account_sizes Sample.platform_lawful
    Sample.ledger_fresh (run_of_calls [Sample.creation] Sample.ledger)
  have hd : L.DidAt Sample.platform Sample.did Sample.document := by decide +kernel
  have hS : Sound Sample.platform L := sound_of_run Sample.platform_lawful Sample.ledger_fresh
    (run_of_calls [Sample.creation] Sample.ledger)
  let r : Request := ⟨Sample.payer, Sample.subject, Sample.subject, none, .addVm m⟩
  have haccounts : Sample.protection.accounts = r.accounts Sample.did ++ [] := by decide +kernel
  have hcarries : Sample.protection.Carries Sample.platform L (r.update Sample.did none)
      (.addVm m) := by
    refine ⟨by decide +kernel, by decide +kernel, ?_⟩
    rw [haccounts]
    exact Request.load_ok (hS.registered_of_didAt hd).toIsDid rfl []
  obtain ⟨-, haccepted⟩ := hupdates _ _ _ Sample.document body hcarries hd
    ⟨by decide, Or.inl (by decide)⟩ (by decide +kernel)
  refine ⟨hsize Sample.did (by decide +kernel), ?_,
    hattained Sample.subject Sample.did 255 (by decide) (by decide)⟩
  exact (haccepted.mp ⟨_, invoke_after (by decide +kernel)⟩).2

end BioDidRegistry
