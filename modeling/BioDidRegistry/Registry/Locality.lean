import BioDidRegistry.Foundation.Footprints
import BioDidRegistry.Registry.Runs

/-!
# A call sees the accounts it names

On two ledgers that agree on the accounts of a call, the call does the same: it is accepted
on both or on none, logs the same, and leaves the same on every account on which the ledgers
agreed. What it changes is among the accounts it was given as writable.
-/

namespace BioDidRegistry

open BinaryFormat Verdict Reader

variable {P : Platform} {sv : Sysvars} {L M L' L₁ : Ledger} {a b c : Address}

/-! ### Ledgers that agree -/

namespace Ledger

theorem modify_agree {f : Account → Account} (ha : M a = L a) (hc : M c = L c) :
    M.modify a f c = L.modify a f c := by
  simp only [modify_apply, ha, hc]

theorem store_agree (data : Bytes) (ha : M a = L a) (hc : M c = L c) :
    M.store a data c = L.store a data c := modify_agree ha hc

theorem setLamports_agree (n : ℕ) (ha : M a = L a) (hc : M c = L c) :
    M.setLamports a n c = L.setLamports a n c := modify_agree ha hc

theorem pay_agree (n : ℕ) (ha : M a = L a) (hb : M b = L b) (hc : M c = L c) :
    M.pay a b n c = L.pay a b n c := by
  unfold pay
  rw [ha, setLamports_agree _ ha hb]
  exact setLamports_agree _ (setLamports_agree _ ha hb) (setLamports_agree _ ha hc)

theorem create_agree (data : Bytes) (ha : M a = L a) (hc : M c = L c) :
    M.create a data c = L.create a data c := by
  unfold create setOwner
  exact modify_agree (store_agree data ha ha) (store_agree data ha hc)

theorem closed_agree (ha : M a = L a) (hb : M b = L b) (hc : M c = L c) :
    M.closed a b c = L.closed a b c := by
  unfold closed
  rw [ha, hb]
  exact modify_agree (setLamports_agree _ hb ha) (setLamports_agree _ hb hc)

end Ledger

theorem CanPay.agree {src dst : AccountView} {n : ℕ} (h : CanPay L src dst n)
    (hsrc : M src.address = L src.address) : CanPay M src dst n where
  signer := h.signer
  writable := h.writable
  writable_dst := h.writable_dst
  dataless := by rw [hsrc]; exact h.dataless
  owner := by rw [hsrc]; exact h.owner
  enough := by rw [hsrc]; exact h.enough

theorem Funds.agree {payer account : AccountView} {need : ℕ} (h : Funds L payer account need L₁)
    (hpayer : M payer.address = L payer.address)
    (haccount : M account.address = L account.address) :
    ∃ M₁, Funds M payer account need M₁ ∧ ∀ c, M c = L c → M₁ c = L₁ c := by
  have hpay (n : ℕ) (c : Address) (hc : M c = L c) : M.pay payer.address account.address n c =
      L.pay payer.address account.address n c := Ledger.pay_agree n hpayer haccount hc
  rcases h with ⟨hzero, hcan, hne, rfl⟩ | ⟨hpos, hw, ⟨hle, rfl⟩ | ⟨n, hn, hn0, hcan, hlt, rfl⟩⟩
  · exact ⟨_, Or.inl ⟨by rwa [haccount], hcan.agree hpayer, hne, rfl⟩, hpay _⟩
  · exact ⟨M, Or.inr ⟨by rwa [haccount], hw, Or.inl ⟨by rwa [haccount], rfl⟩⟩, fun _ hc => hc⟩
  · refine ⟨_, Or.inr ⟨by rwa [haccount], hw, Or.inr ⟨n, by rwa [haccount], hn0,
      hcan.agree hpayer, ?_, rfl⟩⟩, hpay _⟩
    rwa [hpay _ _ haccount]

theorem Settles.agree {did payer : AccountView} {n : ℕ} (h : Settles P sv L did payer n L₁)
    (hdid : M did.address = L did.address) (hpayer : M payer.address = L payer.address) :
    ∃ M₁, Settles P sv M did payer n M₁ ∧ ∀ c, M c = L c → M₁ c = L₁ c := by
  obtain ⟨need, hneed, ⟨more, hmore, hpos, hcan, hlt, rfl⟩ | ⟨refund, hrefund, hpos, hlt, rfl⟩ |
    ⟨hsame, rfl⟩⟩ := h
  · refine ⟨_, ⟨need, hneed, Or.inl ⟨more, by rwa [hdid], hpos, hcan.agree hpayer, ?_, rfl⟩⟩,
      fun _ hc => Ledger.pay_agree _ hpayer hdid hc⟩
    rwa [Ledger.pay_agree _ hpayer hdid hdid]
  · refine ⟨_, ⟨need, hneed, Or.inr (Or.inl ⟨refund, by rwa [hdid], hpos, ?_, rfl⟩)⟩,
      fun _ hc => Ledger.pay_agree _ hdid hpayer hc⟩
    rwa [Ledger.pay_agree _ hdid hpayer hpayer]
  · exact ⟨M, ⟨need, hneed, Or.inr (Or.inr ⟨by rwa [hdid], rfl⟩)⟩, fun _ hc => hc⟩

theorem Resettles.agree {did payer : AccountView} {old new : ℕ}
    (h : Resettles P sv L did payer old new L₁) (hdid : M did.address = L did.address)
    (hpayer : M payer.address = L payer.address) :
    ∃ M₁, Resettles P sv M did payer old new M₁ ∧ ∀ c, M c = L c → M₁ c = L₁ c := by
  rcases h with ⟨heq, rfl⟩ | ⟨hne, hs⟩
  · exact ⟨M, Or.inl ⟨heq, rfl⟩, fun _ hc => hc⟩
  · obtain ⟨M₁, hM₁, hagree⟩ := hs.agree hdid hpayer
    exact ⟨M₁, Or.inr ⟨hne, hM₁⟩, hagree⟩

theorem IsDid.agree {d : Document} (hd : IsDid P L a d) (ha : M a = L a) : IsDid P M a d :=
  hd.of_same ⟨by rw [ha], by rw [ha]⟩

theorem IsBuffer.agree {kb : KeyBuffer} (hkb : IsBuffer P L a kb) (ha : M a = L a) :
    IsBuffer P M a kb :=
  hkb.of_same ⟨by rw [ha], by rw [ha]⟩

theorem Authorized.agree {d : Document} {signer : Address} {controller : Option AccountView}
    (h : Authorized P L d signer controller) (hc : ∀ v ∈ controller, M v.address = L v.address) :
    Authorized P M d signer controller := by
  obtain ⟨hlive, hdirect | ⟨v, p, rfl, hp, hmem, hparent⟩⟩ := h
  · exact ⟨hlive, Or.inl hdirect⟩
  · exact ⟨hlive, Or.inr ⟨v, p, rfl, hp.agree (hc v rfl), hmem, hparent⟩⟩

/-! ### The handlers -/

/-- `M` agrees with `L` on the accounts of `views`. -/
def Agree (views : List AccountView) (L M : Ledger) : Prop :=
  ∀ v ∈ views, M v.address = L v.address

/-- What led from `L` to `L'` changed only writable accounts of `views`, and leads from `M` to
a ledger with the property that agrees with `L'` where `M` agrees with `L`. -/
structure Mirrored (views : List AccountView) (L M L' : Ledger) (Q : Ledger → Prop) : Prop where
  frame : ∀ a, (∀ v ∈ views, v.isWritable = true → v.address ≠ a) → L' a = L a
  again : ∃ M', Q M' ∧ ∀ a, M a = L a → M' a = L' a

section Handlers

variable {views accounts : List AccountView} {payer authority did buffer : AccountView}
  {args : Bytes} {log : List Bytes}

theorem Materializes.mirrored {subject key : Address} (hsame : Agree views L M)
    (hpayer : payer ∈ views) (hdid : did ∈ views) (hpayerw : payer.isWritable = true)
    (hdidw : did.isWritable = true)
    (h : Materializes P sv payer did subject key ⟨L, []⟩ ⟨L', log⟩) :
    Mirrored views L M L' fun M' => Materializes P sv payer did subject key ⟨M, []⟩ ⟨M', log⟩ := by
  obtain ⟨bump, need, now, L₁, hfound, howner, hdata, hneed, hfunds, hclock, hm⟩ := h
  obtain ⟨rfl, rfl⟩ := Machine.mk.inj hm
  obtain ⟨M₁, hM₁, hagree⟩ := hfunds.agree (hsame payer hpayer) (hsame did hdid)
  dsimp only at howner hdata
  constructor
  · intro a ha
    rw [Ledger.create_of_ne _ _ (ha did hdid hdidw).symm]
    exact hfunds.of_ne (ha payer hpayer hpayerw).symm (ha did hdid hdidw).symm
  · rw [← hsame did hdid] at howner hdata
    refine ⟨_, ⟨bump, need, now, M₁, hfound, howner, hdata, hneed, hM₁, hclock, rfl⟩,
      fun a ha => ?_⟩
    exact Ledger.create_agree _ (hagree _ (hsame did hdid)) (hagree a ha)

theorem initialize_mirrored (hP : P.Lawful) (hsame : Agree accounts L M)
    (h : Initialize.process P sv accounts args ⟨L, []⟩ = .ok () ⟨L', log⟩) :
    Mirrored accounts L M L' fun M' =>
      Initialize.process P sv accounts args ⟨M, []⟩ = .ok () ⟨M', log⟩ := by
  obtain ⟨payer, did, system, rest, subject, rfl, hargs, hcurve, hroles, hmade⟩ :=
    (initialize_ok_iff hP).mp h
  obtain ⟨hframe, M', hM', hagree⟩ :=
    hmade.mirrored hsame (by simp) (by simp) hroles.2.1 hroles.2.2.2
  exact ⟨hframe, M', (initialize_ok_iff hP).mpr
    ⟨payer, did, system, rest, subject, rfl, hargs, hcurve, hroles, hM'⟩, hagree⟩

theorem initializeOwned_mirrored (hP : P.Lawful) (hsame : Agree accounts L M)
    (h : InitializeOwned.process P sv accounts args ⟨L, []⟩ = .ok () ⟨L', log⟩) :
    Mirrored accounts L M L' fun M' =>
      InitializeOwned.process P sv accounts args ⟨M, []⟩ = .ok () ⟨M', log⟩ := by
  obtain ⟨payer, authority, did, system, rest, nonce, subject, bump, rfl, hargs, hsigned, hfind,
    hroles, hmade⟩ := (initializeOwned_ok_iff hP).mp h
  obtain ⟨hframe, M', hM', hagree⟩ :=
    hmade.mirrored hsame (by simp) (by simp) hroles.2.1 hroles.2.2.2
  exact ⟨hframe, M', (initializeOwned_ok_iff hP).mpr ⟨payer, authority, did, system, rest, nonce,
    subject, bump, rfl, hargs, hsigned, hfind, hroles, hM'⟩, hagree⟩

theorem Opens.agree {controller : Option AccountView} {d : Document} {nm : NewMethod}
    {kb : KeyBuffer} (h : Opens P sv payer authority did buffer controller d nm kb L L')
    (hpayer : M payer.address = L payer.address) (hdid : M did.address = L did.address)
    (hbuffer : M buffer.address = L buffer.address)
    (hcontroller : ∀ v ∈ controller, M v.address = L v.address) :
    ∃ M', Opens P sv payer authority did buffer controller d nm kb M M' ∧
      ∀ a, M a = L a → M' a = L' a := by
  obtain ⟨need, L₁, hneed, hfunds, rfl⟩ := h.created
  obtain ⟨M₁, hM₁, hagree⟩ := hfunds.agree hpayer hbuffer
  refine ⟨_, { h with
    isDid := h.isDid.agree hdid
    authorized := h.authorized.agree hcontroller
    vacant := h.vacant.of_eq hbuffer
    created := ⟨need, M₁, hneed, hM₁, rfl⟩ }, fun a ha => ?_⟩
  exact Ledger.create_agree _ (hagree _ hbuffer) (hagree a ha)

theorem mem_rest_of_head? {x : AccountView} (xs : List AccountView) {rest : List AccountView}
    (h : x ∈ rest.head?) : x ∈ xs ++ rest :=
  List.mem_append_right _ (List.mem_of_mem_head? h)

theorem createKeyBuffer_mirrored (hP : P.Lawful) (hsame : Agree accounts L M)
    (h : CreateKeyBuffer.process P sv accounts args ⟨L, []⟩ = .ok () ⟨L', log⟩) :
    Mirrored accounts L M L' fun M' =>
      CreateKeyBuffer.process P sv accounts args ⟨M, []⟩ = .ok () ⟨M', log⟩ := by
  obtain ⟨payer, authority, did, buffer, system, rest, rfl⟩ := createKeyBuffer_accounts h
  obtain ⟨hroles, d, nm, kb, hargs, hnm, hopens, hlog⟩ := (createKeyBuffer_ok_iff hP).mp h
  dsimp only at hopens hlog
  obtain ⟨M', hM', hagree⟩ := hopens.agree (hsame payer (by simp)) (hsame did (by simp))
    (hsame buffer (by simp)) fun v hv =>
      hsame v (mem_rest_of_head? [payer, authority, did, buffer, system] hv)
  refine ⟨fun a ha => ?_, M', ?_, hagree⟩
  · obtain ⟨need, L₁, -, hfunds, rfl⟩ := hopens.created
    have hbuffer := (ha buffer (by simp) hroles.2.2.2.2).symm
    rw [Ledger.create_of_ne _ _ hbuffer]
    exact hfunds.of_ne (ha payer (by simp) hroles.2.1).symm hbuffer
  · exact (createKeyBuffer_ok_iff hP).mpr ⟨hroles, d, nm, kb, hargs, hnm, hM', hlog⟩

theorem writeKeyBuffer_mirrored (hS : Sound P L) (hsame : Agree accounts L M)
    (h : WriteKeyBuffer.process P accounts args ⟨L, []⟩ = .ok () ⟨L', log⟩) :
    Mirrored accounts L M L' fun M' =>
      WriteKeyBuffer.process P accounts args ⟨M, []⟩ = .ok () ⟨M', log⟩ := by
  obtain ⟨authority, buffer, rest, rfl⟩ := writeKeyBuffer_accounts h
  have hchecked := h
  simp only [WriteKeyBuffer.process, Exec.ledger_bind, lift_bind_ok_iff] at hchecked
  obtain ⟨-, -, found, hcheck, -⟩ := hchecked
  obtain ⟨kb, hkb⟩ := hS.staged_of_check hcheck
  have hbuffer := hsame buffer (by simp)
  obtain ⟨hroles, offset, chunk, hargs, hne, hnext, hfits, hm⟩ :=
    (writeKeyBuffer_ok_iff hkb.toIsBuffer).mp h
  obtain ⟨rfl, rfl⟩ := Machine.mk.inj hm
  refine ⟨fun a ha => Ledger.store_of_ne _ _ (ha buffer (by simp) hroles.2.1).symm, _, ?_,
    fun a ha => Ledger.store_agree _ hbuffer ha⟩
  exact (writeKeyBuffer_ok_iff (hkb.toIsBuffer.agree hbuffer)).mpr
    ⟨hroles, offset, chunk, hargs, hne, hnext, hfits, rfl⟩

theorem closeKeyBuffer_mirrored (hP : P.Lawful) (hS : Sound P L) (hsame : Agree accounts L M)
    (h : CloseKeyBuffer.process P accounts args ⟨L, []⟩ = .ok () ⟨L', log⟩) :
    Mirrored accounts L M L' fun M' =>
      CloseKeyBuffer.process P accounts args ⟨M, []⟩ = .ok () ⟨M', log⟩ := by
  obtain ⟨payer, authority, buffer, rest, rfl⟩ := closeKeyBuffer_accounts h
  have hchecked := h
  simp only [CloseKeyBuffer.process, Exec.ledger_bind, lift_bind_ok_iff] at hchecked
  obtain ⟨-, -, -, -, -, -, _, hverify, -⟩ := hchecked
  obtain ⟨kb, hkb⟩ := hS.staged_of_verify hverify
  have hbuffer := hsame buffer (by simp)
  have hpayer := hsame payer (by simp)
  obtain ⟨hroles, hargs, hlt, hm⟩ := (closeKeyBuffer_ok_iff hP hkb.toIsBuffer).mp h
  obtain ⟨rfl, rfl⟩ := Machine.mk.inj hm
  refine ⟨fun a ha => ?_, _, ?_, fun a ha => Ledger.closed_agree hbuffer hpayer ha⟩
  · exact Ledger.closed_of_ne _ (ha buffer (by simp) hroles.2.2.2.1).symm
      (ha payer (by simp) hroles.2.1).symm
  · refine (closeKeyBuffer_ok_iff hP (hkb.toIsBuffer.agree hbuffer)).mpr ⟨hroles, hargs, ?_, rfl⟩
    dsimp only
    rwa [hpayer, hbuffer]

theorem Commits.mirrored {d : Document} {op : Op} {body : Body} {v : UInt64} {m₁ : Machine}
    (h : Commits P sv did payer d op body ⟨L, []⟩ v m₁)
    (hdid : M did.address = L did.address) (hpayer : M payer.address = L payer.address) :
    (∀ a, a ≠ did.address → (a = payer.address → body.encode.length = d.body.encode.length) →
      m₁.ledger a = L a) ∧
    ∃ m₂, Commits P sv did payer d op body ⟨M, []⟩ v m₂ ∧ m₂.log = m₁.log ∧
      ∀ a, M a = L a → m₂.ledger a = m₁.ledger a := by
  obtain ⟨now, L₁, hclock, hsettled, rfl, hv⟩ := h
  obtain ⟨M₁, hM₁, hagree⟩ := hsettled.agree hdid hpayer
  refine ⟨fun a hne hlen => ?_, _, ⟨now, M₁, hclock, hM₁, rfl, hv⟩, rfl, fun a ha => ?_⟩
  · dsimp only
    rw [Ledger.store_of_ne _ _ hne]
    rcases hsettled with ⟨-, rfl⟩ | ⟨hresized, hs⟩
    · rfl
    · refine hs.of_ne hne fun hp => hresized ?_
      rw [d.length_updated, d.length_encode, hlen hp]
  · exact Ledger.store_agree _ (hagree _ hdid) (hagree a ha)

theorem finish_mirrored (hP : P.Lawful) (hS : Sound P L) (hsame : Agree accounts L M)
    (h : AddVerificationMethodFromBuffer.process P sv accounts args ⟨L, []⟩ = .ok () ⟨L', log⟩) :
    Mirrored accounts L M L' fun M' =>
      AddVerificationMethodFromBuffer.process P sv accounts args ⟨M, []⟩ = .ok () ⟨M', log⟩ := by
  obtain ⟨payer, authority, did, buffer, system, rest, rfl⟩ := finish_accounts h
  have hchecked := h
  simp only [AddVerificationMethodFromBuffer.process, Exec.ledger_bind, lift_bind_ok_iff,
    verifyDidAccount, except_bind_ok_iff] at hchecked
  obtain ⟨-, -, -, -, -, -, -, -, s, ⟨-, -, hload⟩, _, hverify, -⟩ := hchecked
  obtain ⟨d, hd, -⟩ := hS.registered_of_load hload
  obtain ⟨kb, hkb⟩ := hS.staged_of_verify hverify
  have hpayer := hsame payer (by simp)
  have hdid := hsame did (by simp)
  have hbuffer := hsame buffer (by simp)
  obtain ⟨hroles, hargs, hcomplete, hauth, body, happly, v, m₁, hcommits, hlt, hm⟩ :=
    (finish_ok_iff hP hd.toIsDid hd.wellFormed hkb.toIsBuffer).mp h
  obtain ⟨rfl, rfl⟩ := Machine.mk.inj hm
  obtain ⟨hkept, m₂, hcommits₂, hlog, hagree⟩ := hcommits.mirrored hdid hpayer
  refine ⟨fun a ha => ?_, _, ?_, fun a ha =>
    Ledger.closed_agree (hagree _ hbuffer) (hagree _ hpayer) (hagree a ha)⟩
  · have hnp := (ha payer (by simp) hroles.2.1).symm
    rw [Ledger.closed_of_ne _ (ha buffer (by simp) hroles.2.2.2.2.2.1).symm hnp]
    exact hkept a (ha did (by simp) hroles.2.2.2.2.1).symm fun hp => absurd hp hnp
  · refine (finish_ok_iff hP (hd.toIsDid.agree hdid) hd.wellFormed
      (hkb.toIsBuffer.agree hbuffer)).mpr
      ⟨hroles, hargs, hcomplete, hauth.agree fun w hw => ?_, body, happly, v, m₂, hcommits₂, ?_, ?_⟩
    · exact hsame w (mem_rest_of_head? [payer, authority, did, buffer, system] hw)
    · rwa [hagree _ hpayer, hagree _ hbuffer]
    · rw [hlog]

/-! ### Updates -/

theorem loadDidAccount_agree (hdid : M did.address = L did.address) :
    loadDidAccount P M did = loadDidAccount P L did := by
  unfold loadDidAccount
  rw [hdid]

theorem Update.tryFrom_agree (hsame : Agree accounts L M) :
    Update.tryFrom P M accounts = Update.tryFrom P L accounts := by
  match accounts with
  | [] | [_] | [_, _] | [_, _, _] => rfl
  | payer :: authority :: did :: system :: rest =>
    have hload := loadDidAccount_agree (P := P) (hsame did (by simp))
    simp only [Update.tryFrom, verifyDidAccount, hload]

theorem Ix.load_agree (hsame : Agree accounts L M) (ix : Ix) :
    ix.load P M accounts = ix.load P L accounts := by
  cases ix with
  | setVerificationMethodFlags =>
    match accounts with
    | [] | [_] => rfl
    | authority :: did :: rest =>
      have hload := loadDidAccount_agree (P := P) (hsame did (by simp))
      simp only [Ix.load, SetVerificationMethodFlags.target, verifyDidAccount, hload]
  | _ => exact Update.tryFrom_agree hsame

/-- The accounts an update loads are its own, and those it may change were given as writable. -/
theorem mem_of_load {ix : Ix} {u : Update} (h : ix.load P L accounts = .ok u) :
    (u.payer ∈ accounts ∧ (u.payer.isWritable = true ∨ ix = .setVerificationMethodFlags)) ∧
      (u.didAccount ∈ accounts ∧ u.didAccount.isWritable = true ∧
        loadDidAccount P L u.didAccount = .ok u.subject) ∧
      ∀ v ∈ u.controller, v ∈ accounts := by
  by_cases hflags : ix = .setVerificationMethodFlags
  · subst hflags
    obtain ⟨t, ht, hu⟩ := except_bind_ok_iff.mp h
    cases hu
    obtain ⟨rest, rfl, -, hdidw, hdid, hrest⟩ := SetVerificationMethodFlags.target_ok_iff.mp ht
    refine ⟨⟨by simp, Or.inr rfl⟩, ⟨by simp, hdidw, hdid⟩, fun v hv => ?_⟩
    exact mem_rest_of_head? [t.authority, t.didAccount] (hrest ▸ hv)
  · have htry : Update.tryFrom P L accounts = .ok u := by
      cases ix <;> first | exact h | exact absurd rfl hflags
    obtain ⟨system, rest, rfl, -, hpayerw, -, -, hdidw, hdid, hrest⟩ :=
      Update.tryFrom_ok_iff.mp htry
    refine ⟨⟨by simp, Or.inl hpayerw⟩, ⟨by simp, hdidw, hdid⟩, fun v hv => ?_⟩
    exact mem_rest_of_head? [u.payer, u.authority, u.didAccount, system] (hrest ▸ hv)

theorem update_mirrored (hP : P.Lawful) (hS : Sound P L) (hsame : Agree accounts L M) {ix : Ix}
    (hix : ix.isUpdate = true) (h : handler P sv ix accounts args ⟨L, []⟩ = .ok () ⟨L', log⟩) :
    Mirrored accounts L M L' fun M' =>
      handler P sv ix accounts args ⟨M, []⟩ = .ok () ⟨M', log⟩ := by
  rw [handler_update_eq hix, lift_bind_ok_iff] at h
  obtain ⟨u, hload, hrun⟩ := h
  obtain ⟨⟨hpayer, hpayerw⟩, ⟨hdid, hdidw, hloaded⟩, hcontroller⟩ := mem_of_load hload
  obtain ⟨op, rfl, rfl, hop, hknown⟩ := Op.exists_of_run hrun
  obtain ⟨d, hd, hsubject⟩ := hS.registered_of_load hloaded
  have hrenders (N : Ledger) (hN : IsDid P N u.didAccount.address d) :
      Renders P sv u d op op.event ⟨N, []⟩ (Op.run P sv u op.args op.ix) :=
    Op.run_renders hP hop hknown hN hd.wellFormed.length_lt hsubject
  obtain ⟨hauth, body, happly, v, m₁, hcommits, hm⟩ := ((hrenders L hd.toIsDid).ok_iff _).mp hrun
  obtain ⟨rfl, rfl⟩ := Machine.mk.inj hm
  obtain ⟨hkept, m₂, hcommits₂, hlog, hagree⟩ :=
    hcommits.mirrored (hsame _ hdid) (hsame _ hpayer)
  refine ⟨fun a ha => hkept a (ha _ hdid hdidw).symm fun hp => ?_, m₂.ledger, ?_, hagree⟩
  · rcases hpayerw with hw | hflags
    · exact absurd hp.symm (ha _ hpayer hw)
    · cases op with
      | setFlags fragment flags => exact Body.length_setFlags happly
      | _ => cases hflags
  · rw [handler_update_eq hix, lift_bind_ok_iff]
    refine ⟨u, (Ix.load_agree hsame _).trans hload, ?_⟩
    refine ((hrenders M (hd.toIsDid.agree (hsame _ hdid))).ok_iff _).mpr
      ⟨hauth.agree fun w hw => hsame w (hcontroller w hw), body, happly, v, m₂, hcommits₂, ?_⟩
    rw [hlog]

end Handlers

/-! ### Calls -/

namespace Call

/-- The accounts the call names. -/
def readSet (c : Call) : Set Address := {a | ∃ v ∈ c.accounts, v.address = a}

/-- The accounts the call may write. -/
def writeSet (c : Call) : Set Address := {a | ∃ v ∈ c.accounts, v.address = a ∧ v.isWritable = true}

end Call

theorem invoke_mirrored (hP : P.Lawful) (hS : Sound P L) {c : Call} {log : List Bytes}
    (hsame : Agree c.accounts L M) (h : invoke P c L = .ok (L', log)) :
    Mirrored c.accounts L M L' fun M' => invoke P c M = .ok (M', log) := by
  obtain ⟨ix, hix, hrun⟩ := invoke_ok_iff.mp h
  have hmirrored : Mirrored c.accounts L M L' fun M' =>
      handler P c.sysvars ix c.accounts c.args ⟨M, []⟩ = .ok () ⟨M', log⟩ := by
    cases ix with
    | initializeDid => exact initialize_mirrored hP hsame hrun
    | initializeOwned => exact initializeOwned_mirrored hP hsame hrun
    | createKeyBuffer => exact createKeyBuffer_mirrored hP hsame hrun
    | writeKeyBuffer => exact writeKeyBuffer_mirrored hS hsame hrun
    | addVerificationMethodFromBuffer => exact finish_mirrored hP hS hsame hrun
    | closeKeyBuffer => exact closeKeyBuffer_mirrored hP hS hsame hrun
    | addVerificationMethod | removeVerificationMethod | setVerificationMethodFlags | addService
    | updateService | removeService | setControllers | deactivate =>
      exact update_mirrored hP hS hsame rfl hrun
  obtain ⟨hframe, M', hM', hagree⟩ := hmirrored
  exact ⟨hframe, M', invoke_ok_iff.mpr ⟨ix, hix, hM'⟩, hagree⟩

/-- What an accepted call leaves and logs. -/
def accepted (P : Platform) (c : Call) (L : Ledger) : Option (Ledger × List Bytes) :=
  (invoke P c L).toOption

theorem accepted_eq_some {c : Call} {log : List Bytes} :
    accepted P c L = some (L', log) ↔ invoke P c L = .ok (L', log) := by
  unfold accepted
  cases invoke P c L <;> simp [Except.toOption]

/-- Calls are local operations on the sound ledgers. -/
theorem calls_local (hP : P.Lawful) :
    Footprint.Local (accepted P) Call.readSet Call.writeSet (Sound P) where
  sub := fun _ _ ⟨v, hv, ha, _⟩ => ⟨v, hv, ha⟩
  good := fun c L L' log hS h => by
    obtain ⟨e, hperforms⟩ := exists_performs hP hS (accepted_eq_some.mp h)
    exact hperforms.sound hP hS
  frame := fun c L L' log hS h a ha => by
    refine (invoke_mirrored hP hS (fun _ _ => rfl) (accepted_eq_some.mp h)).frame a ?_
    exact fun v hv hw hva => ha ⟨v, hv, hva, hw⟩
  same := fun c L M L' log hS _ hsame h => by
    have hnamed : Agree c.accounts L M := fun v hv => hsame _ ⟨v, hv, rfl⟩
    obtain ⟨-, M', hM', hagree⟩ := invoke_mirrored hP hS hnamed (accepted_eq_some.mp h)
    exact ⟨M', accepted_eq_some.mpr hM', hagree⟩

theorem after_eq_footprint (c : Call) (L : Ledger) :
    Footprint.after (accepted P) c L = after P c L := by
  unfold Footprint.after accepted after
  cases invoke P c L <;> rfl

end BioDidRegistry
