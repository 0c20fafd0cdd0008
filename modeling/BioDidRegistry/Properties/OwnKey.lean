import BioDidRegistry.Document.Authority
import BioDidRegistry.Properties.TypedAccounts
import BioDidRegistry.Registry.Reference

/-!
# The own key of a protected method

A protected method is an Ed25519 method that may change the document, so its key is an
authority of every live document that has it. Its fragment names it alone, hence the key
can always set its flags or remove it, unless that left the DID without an authority.
-/

namespace BioDidRegistry

open BinaryFormat Transition Reader

variable {P : Platform} {L L' L₀ : Ledger} {turns : List Turn}

/-! ### Protected methods -/

namespace Method

variable {m : Method}

theorem WellFormed.authority (h : m.WellFormed) (hprotected : m.isProtected = true) :
    m.methodType = vmTypeEd25519 ∧ m.isAuthority = true := by
  have hflags := validateVmFlags_ok_iff.mp h.flags
  have htype : m.methodType = vmTypeEd25519 := by
    by_contra hother
    rw [isProtected, hasFlag_protected_of_allowed hflags hother] at hprotected
    cases hprotected
  refine ⟨htype, ?_⟩
  simp only [flagsAllowed, Bool.and_eq_true] at hflags
  obtain ⟨⟨⟨-, hinvocation⟩, -⟩, -⟩ := hflags
  rw [isProtected] at hprotected
  rw [isAuthority, htype]
  simpa [hprotected] using hinvocation

theorem WellFormed.exists_address (h : m.WellFormed) (hprotected : m.isProtected = true) :
    ∃ key : Address, m.key = key.val :=
  h.exists_signer (h.authority hprotected).1

end Method

namespace Body

variable {b b' : Body} {subject signer : Address} {before after : List Method} {m : Method}

theorem WellFormed.methodIdx_eq (h : b.WellFormed subject)
    (hsplit : b.methods = before ++ m :: after) : b.methodIdx m.fragment = before.length := by
  have hnodup := (List.nodup_append.mp h.fragments).1
  rw [hsplit, List.map_append, List.map_cons] at hnodup
  have hothers (x : Method) (hx : x ∈ before) : (x.fragment == m.fragment) = false := by
    rw [beq_eq_false_iff_ne]
    exact (List.nodup_append.mp hnodup).2.2 _ (List.mem_map_of_mem hx) _ (List.mem_cons_self ..)
  have hnone : before.findIdx (fun x => x.fragment == m.fragment) = before.length :=
    List.findIdx_eq_length.mpr hothers
  rw [methodIdx, hsplit, List.findIdx_append, hnone]
  simp [List.findIdx_cons]

section Own

variable (h : b.WellFormed subject) (hsplit : b.methods = before ++ m :: after)
  (hprotected : m.isProtected = true) (hkey : m.key = signer.val)

include h hsplit hprotected hkey

theorem WellFormed.isAuthority_own : b.isAuthority signer = true := by
  have hm : m ∈ b.methods := by simp [hsplit]
  rw [isAuthority, List.any_eq_true]
  refine ⟨m, hm, ?_⟩
  rw [((h.methods m hm).authority hprotected).2, hkey]
  simp

/-- The own key removes the method unless it is the last authority. -/
theorem WellFormed.removeVm_own : Body.removeVm signer m.fragment b =
    if 1 < b.authorityCount then .ok { b with methods := before ++ after }
    else .error .lastAuthority := by
  have hm : m ∈ b.methods := by simp [hsplit]
  have hfound : b.methods[b.methodIdx m.fragment]? = some m := by
    rw [h.methodIdx_eq hsplit, hsplit]
    simp
  have herase : b.methods.eraseIdx (b.methodIdx m.fragment) = before ++ after := by
    rw [h.methodIdx_eq hsplit, hsplit, List.eraseIdx_append_of_length_le le_rfl, Nat.sub_self,
      List.eraseIdx_cons_zero]
  unfold Body.removeVm
  rw [hfound, herase]
  simp only [((h.methods m hm).authority hprotected).2, hkey, demand]
  by_cases hlast : 1 < b.authorityCount <;> simp [hlast, hprotected]

/-- The own key sets the flags to what the type allows, unless that took the last authority. -/
theorem WellFormed.setFlags_own {flags : UInt16} (hflags : flagsAllowed vmTypeEd25519 flags = true)
    (hstays : hasFlag flags vmFlagCapabilityInvocation = true ∨ 1 < b.authorityCount) :
    Body.setFlags signer m.fragment flags b =
      .ok { b with methods := before ++ { m with flags } :: after } := by
  have hm : m ∈ b.methods := by simp [hsplit]
  obtain ⟨htype, hauthority⟩ := (h.methods m hm).authority hprotected
  have hfound : b.methods[b.methodIdx m.fragment]? = some m := by
    rw [h.methodIdx_eq hsplit, hsplit]
    simp
  have hset : b.methods.set (b.methodIdx m.fragment) { m with flags } =
      before ++ { m with flags } :: after := by
    rw [h.methodIdx_eq hsplit, hsplit]
    simp
  unfold Body.setFlags
  rw [hfound]
  simp only [hset]
  rw [htype, hflags, hauthority, hkey]
  rcases hstays with hstays | hstays <;> simp [demand, hstays]

end Own

end Body

/-! ### Calls under the own key -/

/-- The call sets the flags of a method of the DID at `a`, signed by `key`, and names no
account but its own. -/
structure Call.SetsFlags (c : Call) (a key : Address) (fragment : Bytes) (flags : UInt16) :
    Prop where
  ix : c.ix = some .setVerificationMethodFlags
  args : c.args = (Op.setFlags fragment flags).args
  accounts : ∃ authority did, c.accounts = [authority, did] ∧
    (authority.isSigner = true ∧ authority.address = key) ∧
    did.isWritable = true ∧ did.address = a

/-- The call removes a method of the DID of `did`, signed by `key`, at the expense of `payer`,
and names no account but its own. -/
structure Call.RemovesMethod (c : Call) (did payer : AccountView) (key : Address)
    (fragment : Bytes) : Prop where
  ix : c.ix = some .removeVerificationMethod
  args : c.args = (Op.removeVm fragment).args
  accounts : ∃ authority system, c.accounts = [payer, authority, did, system] ∧
    (payer.isSigner = true ∧ payer.isWritable = true) ∧
    (authority.isSigner = true ∧ authority.address = key) ∧
    did.isWritable = true ∧ system.address = systemProgram

namespace Registered

variable {a key : Address} {d : Document} {m : Method} {before after : List Method} {c : Call}

section Own

variable (hd : Registered P L a d) (hlive : d.deactivated = 0)
  (hsplit : d.body.methods = before ++ m :: after) (hprotected : m.isProtected = true)
  (hkey : m.key = key.val)

include hd hlive hsplit hprotected hkey

theorem authorized_own : Authorized P L d key none :=
  ⟨hlive, Or.inl (hd.wellFormed.body.isAuthority_own hsplit hprotected hkey)⟩

theorem setFlags_own (hP : P.Lawful) {flags : UInt16} {now : Int64}
    (hc : c.SetsFlags a key m.fragment flags) (hclock : c.sysvars.clock = .ok now)
    (hflags : flagsAllowed vmTypeEd25519 flags = true)
    (hstays : hasFlag flags vmFlagCapabilityInvocation = true ∨ 1 < d.body.authorityCount) :
    ∃ L' log, invoke P c L = .ok (L', log) ∧ L'.DidAt P a
      (d.updated (.setFlags m.fragment flags)
        { d.body with methods := before ++ { m with flags } :: after } now) := by
  obtain ⟨authority, did, haccounts, ⟨hsigner, rfl⟩, hwritable, rfl⟩ := hc.accounts
  have hm : m ∈ d.body.methods := by simp [hsplit]
  have hstr := (hd.wellFormed.body.methods m hm).fragment.isStr
  have hauth : Authorized P L d authority.address none :=
    hd.authorized_own hlive hsplit hprotected hkey
  have happly : d.body.apply P.isCurvePoint authority.address d.subject
      (.setFlags m.fragment flags) =
      .ok { d.body with methods := before ++ { m with flags } :: after } :=
    hd.wellFormed.body.setFlags_own hsplit hprotected hkey hflags hstays
  have htarget : SetVerificationMethodFlags.target P L c.accounts =
      .ok ⟨authority, did, none, d.subject⟩ :=
    SetVerificationMethodFlags.target_ok_iff.mpr
      ⟨[], haccounts, hsigner, hwritable, hd.toIsDid.loadDidAccount rfl, rfl⟩
  have hload : (Op.setFlags m.fragment flags).ix.load P L c.accounts =
      .ok ⟨⟨authority, did, none, d.subject⟩, authority⟩ :=
    except_bind_ok_iff.mpr ⟨_, htarget, rfl⟩
  have hlen : d.encode.length = (d.updated (.setFlags m.fragment flags)
      { d.body with methods := before ++ { m with flags } :: after } now).encode.length := by
    rw [d.length_updated, d.length_encode, Body.length_setFlags happly]
  refine ⟨_, _, (Call.update_ok_iff hP hc.ix hc.args hload hstr trivial hd rfl hauth).mpr
    ⟨_, now, L, happly, hclock, Or.inl ⟨hlen, rfl⟩, rfl, rfl⟩, ?_⟩
  apply Registered.didAt
  apply hd.of_updated hauth happly _ (Ledger.store_data ..)
  rw [Ledger.store_owner, hd.owner]

theorem removeVm_own (hP : P.Lawful) {did payer : AccountView} {now : Int64}
    (hdid : did.address = a)
    (hc : c.RemovesMethod did payer key m.fragment) (hclock : c.sysvars.clock = .ok now)
    (hpays : ∃ L₁, Settles P c.sysvars L did payer (d.encode.length - m.encode.length) L₁) :
    ((∃ L' log, invoke P c L = .ok (L', log)) ↔ 1 < d.body.authorityCount) ∧
    ∀ L' log, invoke P c L = .ok (L', log) → L'.DidAt P a
      (d.updated (.removeVm m.fragment) { d.body with methods := before ++ after } now) := by
  subst hdid
  obtain ⟨authority, system, haccounts, ⟨hpayer, hpayer'⟩, ⟨hsigner, rfl⟩, hwritable, hsystem⟩ :=
    hc.accounts
  have hm : m ∈ d.body.methods := by simp [hsplit]
  have hstr := (hd.wellFormed.body.methods m hm).fragment.isStr
  have hauth : Authorized P L d authority.address none :=
    hd.authorized_own hlive hsplit hprotected hkey
  have happly : d.body.apply P.isCurvePoint authority.address d.subject (.removeVm m.fragment) =
      if 1 < d.body.authorityCount then .ok { d.body with methods := before ++ after }
      else .error .lastAuthority :=
    hd.wellFormed.body.removeVm_own hsplit hprotected hkey
  have hload : (Op.removeVm m.fragment).ix.load P L c.accounts =
      .ok ⟨⟨authority, did, none, d.subject⟩, payer⟩ :=
    Update.tryFrom_ok_iff.mpr ⟨system, [], haccounts, hpayer, hpayer', hsigner, hsystem, hwritable,
      hd.toIsDid.loadDidAccount rfl, rfl⟩
  have hiff {L' : Ledger} {log : List Bytes} :=
    @Call.update_ok_iff P L L' c (.removeVm m.fragment) _ d log hP hc.ix hc.args hload hstr
      trivial hd rfl hauth
  have hbody : ({ d.body with methods := before ++ after } : Body).encode.length +
      m.encode.length = d.body.encode.length :=
    Body.length_removeMethod hsplit
  have hold := d.length_encode
  have hlen : (d.updated (.removeVm m.fragment)
      { d.body with methods := before ++ after } now).encode.length =
      d.encode.length - m.encode.length := by
    rw [d.length_updated]
    omega
  have hpos : 0 < m.encode.length := by
    rw [Method.length_encode]
    omega
  have hshort : m.encode.length ≤ d.encode.length := by omega
  refine ⟨⟨?_, ?_⟩, ?_⟩
  · rintro ⟨L', log, hrun⟩
    obtain ⟨body, now', L₁, hbody, -⟩ := hiff.mp hrun
    by_contra hlast
    rw [happly, if_neg hlast] at hbody
    cases hbody
  · intro hcount
    obtain ⟨L₁, hsettles⟩ := hpays
    rw [if_pos hcount] at happly
    refine ⟨_, _, hiff.mpr ⟨_, now, L₁, happly, hclock, Or.inr ⟨?_, ?_⟩, rfl, rfl⟩⟩
    · rw [hlen]
      omega
    · rw [hlen]
      exact hsettles
  · intro L' log hrun
    obtain ⟨body, now', L₁, hbody, hclock', hsettled, rfl, -⟩ := hiff.mp hrun
    cases hclock.symm.trans hclock'
    have hcount : 1 < d.body.authorityCount := by
      by_contra hlast
      rw [happly, if_neg hlast] at hbody
      cases hbody
    have hsame := hbody
    rw [happly, if_pos hcount] at hsame
    cases hsame
    apply Registered.didAt
    apply hd.of_updated hauth hbody _ (Ledger.store_data ..)
    rw [Ledger.store_owner, hsettled.owner, hd.owner]

end Own

end Registered

/-- The own key of a protected method of a live DID can set its flags, to whatever an Ed25519
method may have and the DID keeps an authority with, and can remove it unless it is the last
authority. The other methods stay as they are. -/
theorem protected_key_can_act (hP : P.Lawful) (h₀ : Fresh L₀) (hrun : Run (Step P) L₀ turns L)
    {a : Address} {d : Document} {m : Method} (hd : L.DidAt P a d) (hlive : d.deactivated = 0)
    (hm : m ∈ d.body.methods) (hprotected : m.isProtected = true) :
    ∃ (key : Address) (before after : List Method), m.key = key.val ∧
      d.body.methods = before ++ m :: after ∧
      (∀ c flags now, c.SetsFlags a key m.fragment flags → c.sysvars.clock = .ok now →
        validateVmFlags vmTypeEd25519 flags = .ok () →
        (hasFlag flags vmFlagCapabilityInvocation = true ∨ 1 < d.body.authorityCount) →
        ∃ L' log, invoke P c L = .ok (L', log) ∧ L'.DidAt P a
          (d.updated (.setFlags m.fragment flags)
            { d.body with methods := before ++ { m with flags } :: after } now)) ∧
      ∀ c did payer now, did.address = a → c.RemovesMethod did payer key m.fragment →
        c.sysvars.clock = .ok now →
        (∃ L₁, Settles P c.sysvars L did payer (d.encode.length - m.encode.length) L₁) →
        ((∃ L' log, invoke P c L = .ok (L', log)) ↔ 1 < d.body.authorityCount) ∧
        ∀ L' log, invoke P c L = .ok (L', log) → L'.DidAt P a
          (d.updated (.removeVm m.fragment) { d.body with methods := before ++ after } now) := by
  have hS : Sound P L := sound_of_run hP h₀ hrun
  have hregistered : Registered P L a d := hS.registered_of_didAt hd
  have hmethod : m.WellFormed := hregistered.wellFormed.body.methods m hm
  obtain ⟨key, hkey⟩ := hmethod.exists_address hprotected
  obtain ⟨before, after, hsplit⟩ := List.append_of_mem hm
  refine ⟨key, before, after, hkey, hsplit, ?_, ?_⟩
  · intro c flags now hc hclock hflags hstays
    exact hregistered.setFlags_own hlive hsplit hprotected hkey hP hc hclock
      (validateVmFlags_ok_iff.mp hflags) hstays
  · intro c did payer now hdid hc hclock hpays
    exact hregistered.removeVm_own hlive hsplit hprotected hkey hP hdid hc hclock hpays

theorem protected_key_can_act_sample :
    let L := afterAll Sample.platform [Sample.creation] Sample.ledger
    let c := Sample.send (Client.setVerificationMethodFlags Sample.platform Sample.subject
      Sample.subject defaultFragment vmFlagCapabilityInvocation)
    ∃ L' log, invoke Sample.platform c L = .ok (L', log) := by
  intro L c
  have hd : L.DidAt Sample.platform Sample.did Sample.document := by decide +kernel
  obtain ⟨key, before, after, hkey, -, hflags, -⟩ := protected_key_can_act Sample.platform_lawful
    Sample.ledger_fresh (run_of_calls [Sample.creation] Sample.ledger) hd (by decide)
    (m := ⟨defaultFragment, vmTypeEd25519, vmFlagsDefault, Sample.subject.val⟩) (by decide)
    (by decide)
  obtain rfl : Sample.subject = key := Subtype.ext hkey
  have hc : c.SetsFlags Sample.did Sample.subject defaultFragment vmFlagCapabilityInvocation :=
    ⟨by decide +kernel, by decide +kernel,
      .readonly Sample.subject true, .writable Sample.did false, by decide +kernel⟩
  obtain ⟨L', log, hrun, -⟩ := hflags c _ 1700000000 hc rfl (by decide) (Or.inl (by decide))
  exact ⟨L', log, hrun⟩

end BioDidRegistry
