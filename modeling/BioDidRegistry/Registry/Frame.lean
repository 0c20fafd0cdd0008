import BioDidRegistry.Registry.Effects

/-!
# Across an effect

An effect leaves alone every account but those it touches. A document there is kept
or amended, a key buffer is kept, written, finished or closed, and every account of
the program afterwards was one before, or is the one the effect made. All this is
read off the effects.
-/

namespace BioDidRegistry

open BinaryFormat Verdict Reader

variable {P : Platform} {L L' : Ledger}

/-! ### What an effect leaves alone -/

theorem Ledger.pay_lamports (L : Ledger) (a b c : Address) (n : ℕ) :
    (L.pay a b n c).lamports =
      if c = b then (if b = a then (L a).lamports - n else (L b).lamports) + n
      else if c = a then (L a).lamports - n else (L c).lamports := by
  unfold pay setLamports
  simp only [modify_apply]
  split_ifs <;> rfl

theorem CanPay.lamports_le {src dst : AccountView} {n : ℕ} (h : CanPay L src dst n) {a : Address}
    (ha : (L a).owner = programId) :
    (L a).lamports ≤ (L.pay src.address dst.address n a).lamports := by
  have hn : a = src.address → n = 0 := by
    rintro rfl
    rcases h.owner with h0 | hsystem
    · exact h0
    · exact absurd (ha.symm.trans hsystem) programId_ne_systemProgram
  have henough := h.enough
  rw [Ledger.pay_lamports]
  split_ifs with hb hab hsrc
  · rw [hb, hab]
    omega
  · rw [hb]
    omega
  · rw [hn hsrc, hsrc]
    omega
  · exact le_rfl

theorem Ledger.closed_lamports_le {x y a : Address} (hne : a ≠ x) :
    (L a).lamports ≤ (L.closed x y a).lamports := by
  unfold Ledger.closed
  rw [Ledger.modify_of_ne _ _ hne]
  by_cases hy : a = y
  · subst hy
    rw [Ledger.setLamports_self]
    omega
  · rw [Ledger.setLamports_of_ne _ _ hy]

theorem Funds.lamports_le {payer account : AccountView} {need : ℕ} {L₁ : Ledger}
    (h : Funds L payer account need L₁) {a : Address} (ha : (L a).owner = programId) :
    (L a).lamports ≤ (L₁ a).lamports := by
  rcases h with ⟨-, hcan, -, rfl⟩ | ⟨-, -, ⟨-, rfl⟩ | ⟨deficit, -, -, hcan, -, rfl⟩⟩
  · exact hcan.lamports_le ha
  · exact le_rfl
  · exact hcan.lamports_le ha

theorem Settles.lamports_le {sv : Sysvars} {did payer : AccountView} {n : ℕ}
    (h : Settles P sv L did payer n L') {a : Address} (ha : (L a).owner = programId)
    (hne : a ≠ did.address) : (L a).lamports ≤ (L' a).lamports := by
  obtain ⟨need, -, ⟨more, -, -, hcan, -, rfl⟩ | ⟨refund, -, -, -, rfl⟩ | ⟨-, rfl⟩⟩ := h
  · exact hcan.lamports_le ha
  · rw [Ledger.pay_lamports, if_neg hne]
    split_ifs with hb hab
    · exact absurd (hb.trans hab) hne
    · rw [hb]
      omega
    · exact le_rfl
  · exact le_rfl

namespace Resettles

variable {sv : Sysvars} {did payer : AccountView} {old new : ℕ}
  (h : Resettles P sv L did payer old new L') (a : Address)

include h

theorem data : (L' a).data = (L a).data := by
  rcases h with ⟨-, rfl⟩ | ⟨-, hs⟩
  · rfl
  · exact hs.data a

theorem owner : (L' a).owner = (L a).owner := by
  rcases h with ⟨-, rfl⟩ | ⟨-, hs⟩
  · rfl
  · exact hs.owner a

theorem lamports_le {a : Address} (ha : (L a).owner = programId) (hne : a ≠ did.address) :
    (L a).lamports ≤ (L' a).lamports := by
  rcases h with ⟨-, rfl⟩ | ⟨-, hs⟩
  · exact le_rfl
  · exact hs.lamports_le ha hne

end Resettles

namespace Performs

variable {c : Call} {e : Effect} {log : List Bytes} (h : Performs P c L e L' log) {a : Address}

include h

/-- No account but those touched changes its data or its owner. -/
theorem frame (ha : a ∉ e.touched) : (L' a).data = (L a).data ∧ (L' a).owner = (L a).owner := by
  cases h with
  | create founds pays target found vacant rent funds clock =>
    rw [Ledger.create_of_ne _ _ (List.ne_of_not_mem_cons ha)]
    exact ⟨funds.data a, funds.owner a⟩
  | update ix args signed pays target isDid authorized applied clock settled =>
    rw [Ledger.store_of_ne _ _ (List.ne_of_not_mem_cons ha)]
    exact ⟨settled.data a, settled.owner a⟩
  | openBuffer ix args encodable signed pays target named opens =>
    obtain ⟨need, L₁, -, funds, rfl⟩ := opens.created
    rw [Ledger.create_of_ne _ _ (List.ne_of_not_mem_cons ha)]
    exact ⟨funds.data a, funds.owner a⟩
  | writeBuffer ix args signed named staged nonempty next fits =>
    rw [Ledger.store_of_ne _ _ (List.ne_of_not_mem_cons ha)]
    exact ⟨rfl, rfl⟩
  | finish ix args signed pays target named staged bound isDid complete authorized applied clock
        settled =>
    simp only [Effect.touched, List.mem_cons, List.not_mem_nil, or_false, not_or] at ha
    rw [Ledger.closed_data _ _ ha.2, Ledger.closed_owner _ _ ha.2, Ledger.store_of_ne _ _ ha.1]
    exact ⟨settled.data a, settled.owner a⟩
  | closeBuffer ix args signed pays named staged =>
    have hne := List.ne_of_not_mem_cons ha
    exact ⟨Ledger.closed_data _ _ hne, Ledger.closed_owner _ _ hne⟩

/-- An account of the program that is not touched loses no lamports. -/
theorem lamports_le (howner : (L a).owner = programId) (ha : a ∉ e.touched) :
    (L a).lamports ≤ (L' a).lamports := by
  cases h with
  | create founds pays target found vacant rent funds clock =>
    rw [Ledger.create_lamports]
    exact funds.lamports_le howner
  | update ix args signed pays target isDid authorized applied clock settled =>
    rw [Ledger.store_lamports]
    exact settled.lamports_le howner (List.ne_of_not_mem_cons ha)
  | openBuffer ix args encodable signed pays target named opens =>
    obtain ⟨need, L₁, -, funds, rfl⟩ := opens.created
    rw [Ledger.create_lamports]
    exact funds.lamports_le howner
  | writeBuffer ix args signed named staged nonempty next fits =>
    rw [Ledger.store_lamports]
  | finish ix args signed pays target named staged bound isDid complete authorized applied clock
        settled =>
    simp only [Effect.touched, List.mem_cons, List.not_mem_nil, or_false, not_or] at ha
    refine le_trans ?_ (Ledger.closed_lamports_le ha.2)
    rw [Ledger.store_lamports]
    exact settled.lamports_le howner ha.1
  | closeBuffer ix args signed pays named staged =>
    exact Ledger.closed_lamports_le (List.ne_of_not_mem_cons ha)

end Performs

/-! ### Documents across an effect -/

theorem IsDid.of_same {a : Address} {d : Document} (hd : IsDid P L a d)
    (hsame : (L' a).data = (L a).data ∧ (L' a).owner = (L a).owner) : IsDid P L' a d where
  owner := hsame.2.trans hd.owner
  data_eq := hsame.1.trans hd.data_eq
  fits := hd.fits
  address := hd.address

theorem Registered.of_same {a : Address} {d : Document} (hd : Registered P L a d)
    (hsame : (L' a).data = (L a).data ∧ (L' a).owner = (L a).owner) : Registered P L' a d :=
  { hd with toIsDid := hd.toIsDid.of_same hsame }

/-- An account the effect does not touch is the same DID as before. -/
theorem Performs.registered_iff_of_untouched {c : Call} {e : Effect} {log : List Bytes}
    (h : Performs P c L e L' log) {a : Address} {d : Document} (ha : a ∉ e.touched) :
    Registered P L' a d ↔ Registered P L a d := by
  have hsame := h.frame ha
  exact ⟨fun hd => hd.of_same ⟨hsame.1.symm, hsame.2.symm⟩, fun hd => hd.of_same hsame⟩

theorem IsBuffer.of_same {a : Address} {kb : KeyBuffer} (hkb : IsBuffer P L a kb)
    (hsame : (L' a).data = (L a).data ∧ (L' a).owner = (L a).owner) : IsBuffer P L' a kb where
  owner := hsame.2.trans hkb.owner
  data_eq := hsame.1.trans hkb.data_eq
  address := hkb.address

theorem Registered.of_updated {a key : Address} {d : Document} {op : Op} {body : Body} {now : Int64}
    {controller : Option AccountView} (hd : Registered P L a d)
    (hauth : Authorized P L d key controller)
    (happly : d.body.apply P.isCurvePoint key d.subject op = .ok body)
    (howner : (L' a).owner = programId)
    (hdata : (L' a).data = (d.updated op body now).encode) :
    Registered P L' a (d.updated op body now) where
  owner := howner
  data_eq := hdata
  fits := (hd.wellFormed.updated hauth.1 happly now).fits
  address := hd.address
  found := hd.found
  wellFormed := hd.wellFormed.updated hauth.1 happly now

/-- The effect replaces the document `d` at `a` by its update `d'`. -/
def Effect.Amends (e : Effect) (a : Address) (d : Document) (op : Op) (d' : Document) : Prop :=
  e = .update a d op d' ∨ ∃ buffer kb, op = .addVm kb.toMethod ∧ e = .finish a d d' buffer kb

/-- The call, signed by `key`, replaced the document `d` at `a` by its update `d'`. -/
structure Amended (P : Platform) (c : Call) (L L' : Ledger) (a : Address) (d : Document) (op : Op)
    (d' : Document) (key : Address) (body : Body) : Prop where
  before : Registered P L a d
  target : ∃ did, c.didAccount = some did ∧ did.address = a
  ix : c.ix = some op.ix ∨
    c.ix = some .addVerificationMethodFromBuffer ∧ op.ix = .addVerificationMethod
  signed : c.SignedBy key
  authorized : Authorized P L d key c.controller
  applied : d.body.apply P.isCurvePoint key d.subject op = .ok body
  updated : ∃ now, c.sysvars.clock = .ok now ∧ d' = d.updated op body now
  after : Registered P L' a d'

namespace Performs

variable {c : Call} {e : Effect} {log : List Bytes} {a : Address} {d : Document}

theorem amended (h : Performs P c L e L' log) {op : Op} {d' : Document}
    (ha : e.Amends a d op d') : ∃ key body, Amended P c L L' a d op d' key body := by
  rcases ha with rfl | ⟨buffer, kb, rfl, rfl⟩
  · cases h with
    | update ix args signed pays target isDid authorized applied clock settled =>
      refine ⟨_, _, isDid, ⟨_, target, rfl⟩, Or.inl ix, signed, authorized, applied,
        ⟨_, clock, rfl⟩, ?_⟩
      exact isDid.of_updated authorized applied (by simp [settled.owner, isDid.owner])
        (Ledger.store_data ..)
  · cases h with
    | finish ix args signed pays target named staged bound isDid complete authorized applied clock
        settled =>
      rename_i payer did buffer body now L₁
      refine ⟨_, _, isDid, ⟨_, target, rfl⟩, Or.inr ⟨ix, rfl⟩, signed, authorized, applied,
        ⟨_, clock, rfl⟩, ?_⟩
      have hne : did.address ≠ buffer.address := by
        intro hsame
        exact isDid.toIsDid.not_isBuffer (hsame ▸ staged.toIsBuffer)
      refine isDid.of_updated authorized applied ?_ ?_
      · rw [Ledger.closed_owner _ _ hne, Ledger.store_owner, settled.owner, isDid.owner]
      · rw [Ledger.closed_data _ _ hne, Ledger.store_data]

theorem created (hP : P.Lawful) (h : Performs P c L (.create a d) L' log) :
    (L a).owner = systemProgram ∧ Registered P L' a d ∧ ∃ bump subject key now,
      c.Founds P subject key ∧ d = Document.initial bump subject key now := by
  cases h with
  | create founds pays target found vacant rent funds clock =>
    refine ⟨vacant.1, ?_, _, _, _, _, founds, rfl⟩
    exact ⟨⟨Ledger.create_owner .., Ledger.create_data ..,
      (Document.initial_wellFormed ..).fits, hP.derive_found found⟩, found,
      Document.initial_wellFormed ..⟩

theorem opened (hP : P.Lawful) {kb : KeyBuffer} (h : Performs P c L (.openBuffer a kb) L' log) :
    (L a).owner = systemProgram ∧ IsBuffer P L' a kb ∧ kb.received = [] ∧
      P.deriveProgramAddress [keyBufferSeed, kb.didAccount.val, kb.authority.val] =
        some (a, kb.bump) ∧ c.SignedBy kb.authority ∧ ∃ d, IsDid P L kb.didAccount d := by
  cases h with
  | openBuffer ix args encodable signed pays target named opens =>
    obtain ⟨need, L₁, -, funds, rfl⟩ := opens.created
    obtain ⟨hdid, hauthority, -, hnone⟩ := opens.record
    have hfound := opens.found
    rw [← hdid, ← hauthority] at hfound
    refine ⟨opens.vacant.1, ⟨Ledger.create_owner .., Ledger.create_data ..,
      hP.derive_found hfound⟩, hnone, hfound, hauthority ▸ signed, _, hdid ▸ opens.isDid⟩

theorem written {kb kb' : KeyBuffer} {chunk : Bytes}
    (h : Performs P c L (.writeBuffer a kb kb' chunk) L' log) :
    Staged P L a kb ∧ IsBuffer P L' a kb' ∧ c.SignedBy kb.authority ∧
      ∃ hfits, kb' = kb.append chunk hfits := by
  cases h with
  | writeBuffer ix args signed named staged nonempty next fits =>
    exact ⟨staged, ⟨by simp [staged.owner], Ledger.store_data .., staged.address⟩, signed, fits,
      rfl⟩

theorem gone {kb : KeyBuffer} (h : Performs P c L e L' log)
    (he : (∃ did d d', e = .finish did d d' a kb) ∨ e = .closeBuffer a kb) :
    Staged P L a kb ∧ c.SignedBy kb.authority ∧ L' a = ⟨0, [], systemProgram⟩ := by
  rcases he with ⟨did, d, d', rfl⟩ | rfl
  · cases h with
    | finish ix args signed pays target named staged bound isDid complete authorized applied clock
        settled =>
      exact ⟨staged, signed, Ledger.closed_self ..⟩
  · cases h with
    | closeBuffer ix args signed pays named staged =>
      exact ⟨staged, signed, Ledger.closed_self ..⟩

/-- A finish or a close ends the buffer it names. -/
theorem ends_named (h : Performs P c L e L' log)
    (hix : c.ix = some .closeKeyBuffer ∨ c.ix = some .addVerificationMethodFromBuffer) :
    ∃ view kb, c.keyBuffer = some view ∧
      ((∃ did d d', e = .finish did d d' view.address kb) ∨ e = .closeBuffer view.address kb) := by
  cases h with
  | create founds => rcases founds.ix_cases with hother | hother <;> simp [hother] at hix
  | update ix args signed pays target isDid authorized applied clock settled =>
    rename_i op body now L₁
    cases op <;> simp [ix, Op.ix] at hix
  | openBuffer ix | writeBuffer ix => simp [ix] at hix
  | finish ix args signed pays target named =>
    exact ⟨_, _, named, Or.inl ⟨_, _, _, rfl⟩⟩
  | closeBuffer ix args signed pays named => exact ⟨_, _, named, Or.inr rfl⟩

end Performs

/-! ### What becomes of an account of the program -/

theorem IsDid.owner_ne {a x : Address} {d : Document} (hd : IsDid P L a d)
    (hx : (L x).owner = systemProgram) : a ≠ x := by
  rintro rfl
  exact programId_ne_systemProgram (hd.owner.symm.trans hx)

theorem IsBuffer.owner_ne {a x : Address} {kb : KeyBuffer} (hkb : IsBuffer P L a kb)
    (hx : (L x).owner = systemProgram) : a ≠ x := by
  rintro rfl
  exact programId_ne_systemProgram (hkb.owner.symm.trans hx)

theorem IsDid.ne_buffer {a x : Address} {d : Document} {kb : KeyBuffer} (hd : IsDid P L a d)
    (hkb : IsBuffer P L x kb) : a ≠ x := by
  rintro rfl
  exact hd.not_isBuffer hkb

namespace Performs

variable {c : Call} {e : Effect} {log : List Bytes} {a : Address} {d : Document} {kb : KeyBuffer}

theorem did_cases (h : Performs P c L e L' log) (hd : Registered P L a d) :
    a ∉ e.touched ∨ ∃ op d', e.Amends a d op d' := by
  cases h with
  | create founds pays target found vacant rent funds clock =>
    exact Or.inl (mt List.mem_singleton.mp (hd.toIsDid.owner_ne vacant.1))
  | update ix args signed pays target isDid authorized applied clock settled =>
    rename_i did key d₁ op body now L₁
    by_cases ha : a = did.address
    · subst ha
      rw [hd.toIsDid.unique isDid.toIsDid]
      exact Or.inr ⟨op, _, Or.inl rfl⟩
    · exact Or.inl (mt List.mem_singleton.mp ha)
  | openBuffer ix args encodable signed pays target named opens =>
    exact Or.inl (mt List.mem_singleton.mp (hd.toIsDid.owner_ne opens.vacant.1))
  | writeBuffer ix args signed named staged nonempty next fits =>
    exact Or.inl (mt List.mem_singleton.mp (hd.toIsDid.ne_buffer staged.toIsBuffer))
  | finish ix args signed pays target named staged bound isDid complete authorized applied clock
        settled =>
    rename_i payer did buffer d₁ kb body now L₁
    by_cases ha : a = did.address
    · subst ha
      rw [hd.toIsDid.unique isDid.toIsDid]
      exact Or.inr ⟨_, _, Or.inr ⟨_, _, rfl, rfl⟩⟩
    · left
      simp [Effect.touched, ha, hd.toIsDid.ne_buffer staged.toIsBuffer]
  | closeBuffer ix args signed pays named staged =>
    exact Or.inl (mt List.mem_singleton.mp (hd.toIsDid.ne_buffer staged.toIsBuffer))

theorem buffer_cases (h : Performs P c L e L' log) (hkb : IsBuffer P L a kb) :
    a ∉ e.touched ∨ (∃ kb' chunk, e = .writeBuffer a kb kb' chunk) ∨
      (∃ did d d', e = .finish did d d' a kb) ∨ e = .closeBuffer a kb := by
  cases h with
  | create founds pays target found vacant rent funds clock =>
    exact Or.inl (mt List.mem_singleton.mp (hkb.owner_ne vacant.1))
  | update ix args signed pays target isDid authorized applied clock settled =>
    exact Or.inl (mt List.mem_singleton.mp (isDid.toIsDid.ne_buffer hkb).symm)
  | openBuffer ix args encodable signed pays target named opens =>
    exact Or.inl (mt List.mem_singleton.mp (hkb.owner_ne opens.vacant.1))
  | writeBuffer ix args signed named staged nonempty next fits =>
    rename_i buffer kb₁ offset chunk
    by_cases ha : a = buffer.address
    · subst ha
      rw [hkb.unique staged.toIsBuffer]
      exact Or.inr (Or.inl ⟨_, _, rfl⟩)
    · exact Or.inl (mt List.mem_singleton.mp ha)
  | finish ix args signed pays target named staged bound isDid complete authorized applied clock
        settled =>
    rename_i payer did buffer d₁ kb₁ body now L₁
    by_cases ha : a = buffer.address
    · subst ha
      rw [hkb.unique staged.toIsBuffer]
      exact Or.inr (Or.inr (Or.inl ⟨_, _, _, rfl⟩))
    · left
      simp [Effect.touched, ha, (isDid.toIsDid.ne_buffer hkb).symm]
  | closeBuffer ix args signed pays named staged =>
    rename_i payer buffer kb₁
    by_cases ha : a = buffer.address
    · subst ha
      rw [hkb.unique staged.toIsBuffer]
      exact Or.inr (Or.inr (Or.inr rfl))
    · exact Or.inl (mt List.mem_singleton.mp ha)

/-- A DID stays a DID, with its subject and its bump. -/
theorem persists (h : Performs P c L e L' log) (hd : Registered P L a d) :
    ∃ d', Registered P L' a d' ∧ d'.subject = d.subject ∧ d'.bump = d.bump := by
  rcases h.did_cases hd with hsame | ⟨op, d', ha⟩
  · exact ⟨d, hd.of_same (h.frame hsame), rfl, rfl⟩
  · obtain ⟨key, body, hamended⟩ := h.amended ha
    obtain ⟨now, -, rfl⟩ := hamended.updated
    exact ⟨_, hamended.after, rfl, rfl⟩

/-- An account that is touched was one of the program, or becomes one. -/
theorem touched_cases (h : Performs P c L e L' log) (ha : a ∈ e.touched) :
    (L a).owner = programId ∨ (∃ d, e = .create a d) ∨ ∃ kb, e = .openBuffer a kb := by
  cases h with
  | create founds pays target found vacant rent funds clock =>
    rw [List.mem_singleton.mp ha]
    exact Or.inr (Or.inl ⟨_, rfl⟩)
  | update ix args signed pays target isDid authorized applied clock settled =>
    rw [List.mem_singleton.mp ha]
    exact Or.inl isDid.owner
  | openBuffer ix args encodable signed pays target named opens =>
    rw [List.mem_singleton.mp ha]
    exact Or.inr (Or.inr ⟨_, rfl⟩)
  | writeBuffer ix args signed named staged nonempty next fits =>
    rw [List.mem_singleton.mp ha]
    exact Or.inl staged.owner
  | finish ix args signed pays target named staged bound isDid complete authorized applied clock
        settled =>
    rcases List.mem_pair.mp ha with rfl | rfl
    · exact Or.inl isDid.owner
    · exact Or.inl staged.owner
  | closeBuffer ix args signed pays named staged =>
    rw [List.mem_singleton.mp ha]
    exact Or.inl staged.owner

/-- An account comes to the program as a new DID or as a new buffer. -/
theorem owned (h : Performs P c L e L' log) (howner : (L' a).owner = programId) :
    (L a).owner = programId ∨ (∃ d, e = .create a d) ∨ ∃ kb, e = .openBuffer a kb := by
  by_cases ha : a ∈ e.touched
  · exact h.touched_cases ha
  · exact Or.inl ((h.frame ha).2.symm.trans howner)

theorem sound (hP : P.Lawful) (hS : Sound P L) (h : Performs P c L e L' log) : Sound P L' := by
  intro a howner
  have hdid {x : Address} {d : Document} (hd : IsDid P L x d) : ∃ d', IsDid P L' x d' := by
    obtain ⟨d', hd', -⟩ := h.persists (hS.registered hd)
    exact ⟨d', hd'.toIsDid⟩
  rcases h.owned howner with hold | ⟨d, rfl⟩ | ⟨kb, rfl⟩
  · rcases hS a hold with ⟨d, hd⟩ | ⟨kb, hkb⟩
    · obtain ⟨d', hd', -⟩ := h.persists hd
      exact Or.inl ⟨d', hd'⟩
    · obtain ⟨d, hd⟩ := hkb.did
      rcases h.buffer_cases hkb.toIsBuffer with hsame | ⟨kb', chunk, rfl⟩ | hgone
      · exact Or.inr ⟨kb, hkb.toIsBuffer.of_same (h.frame hsame), hkb.found, hdid hd⟩
      · obtain ⟨-, hkb', -, hfits, rfl⟩ := h.written
        exact Or.inr ⟨_, hkb', hkb.found, hdid hd⟩
      · rw [(h.gone hgone).2.2] at howner
        exact absurd howner programId_ne_systemProgram.symm
  · exact Or.inl ⟨d, (h.created hP).2.1⟩
  · obtain ⟨-, hkb, -, hfound, -, d, hd⟩ := h.opened hP
    exact Or.inr ⟨kb, hkb, hfound, hdid hd⟩

/-- A DID was there as it is, was created, or is an earlier one amended. -/
theorem did_origin (hP : P.Lawful) (hS : Sound P L) (h : Performs P c L e L' log)
    (hd : Registered P L' a d) :
    (Registered P L a d ∧ a ∉ e.touched) ∨ e = .create a d ∨ ∃ d₀ op, e.Amends a d₀ op d := by
  rcases h.owned hd.owner with hold | ⟨d₀, rfl⟩ | ⟨kb, rfl⟩
  · rcases hS a hold with ⟨d₀, hd₀⟩ | ⟨kb, hkb⟩
    · rcases h.did_cases hd₀ with hsame | ⟨op, d', ha⟩
      · rw [hd.toIsDid.unique (hd₀.toIsDid.of_same (h.frame hsame))]
        exact Or.inl ⟨hd₀, hsame⟩
      · obtain ⟨key, body, hamended⟩ := h.amended ha
        rw [hd.toIsDid.unique hamended.after.toIsDid]
        exact Or.inr (Or.inr ⟨d₀, op, ha⟩)
    · rcases h.buffer_cases hkb.toIsBuffer with hsame | ⟨kb', chunk, rfl⟩ | hgone
      · exact absurd (hkb.toIsBuffer.of_same (h.frame hsame)) hd.toIsDid.not_isBuffer
      · exact absurd h.written.2.1 hd.toIsDid.not_isBuffer
      · have howner := hd.owner
        rw [(h.gone hgone).2.2] at howner
        exact absurd howner programId_ne_systemProgram.symm
  · rw [hd.toIsDid.unique (h.created hP).2.1.toIsDid]
    exact Or.inr (Or.inl rfl)
  · exact absurd (h.opened hP).2.1 hd.toIsDid.not_isBuffer

/-- A buffer was there as it is, was opened, or is an earlier one written. -/
theorem buffer_origin (hP : P.Lawful) (hS : Sound P L) (h : Performs P c L e L' log)
    (hkb : IsBuffer P L' a kb) :
    (IsBuffer P L a kb ∧ a ∉ e.touched) ∨ e = .openBuffer a kb ∨
      ∃ kb₀ chunk, e = .writeBuffer a kb₀ kb chunk := by
  rcases h.owned hkb.owner with hold | ⟨d, rfl⟩ | ⟨kb', rfl⟩
  · rcases hS a hold with ⟨d, hd⟩ | ⟨kb₀, hkb₀⟩
    · obtain ⟨d', hd', -⟩ := h.persists hd
      exact absurd hkb hd'.toIsDid.not_isBuffer
    · rcases h.buffer_cases hkb₀.toIsBuffer with hsame | ⟨kb', chunk, rfl⟩ | hgone
      · rw [hkb.unique (hkb₀.toIsBuffer.of_same (h.frame hsame))]
        exact Or.inl ⟨hkb₀.toIsBuffer, hsame⟩
      · rw [hkb.unique h.written.2.1]
        exact Or.inr (Or.inr ⟨kb₀, chunk, rfl⟩)
      · have howner := hkb.owner
        rw [(h.gone hgone).2.2] at howner
        exact absurd howner programId_ne_systemProgram.symm
  · exact absurd hkb (h.created hP).2.1.toIsDid.not_isBuffer
  · rw [hkb.unique (h.opened hP).2.1]
    exact Or.inr (Or.inl rfl)

end Performs

end BioDidRegistry
