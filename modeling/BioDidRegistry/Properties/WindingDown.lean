import BioDidRegistry.Properties.Authority
import BioDidRegistry.Properties.Deactivation
import BioDidRegistry.Properties.FailingCalls
import BioDidRegistry.Properties.Lamports
import BioDidRegistry.Registry.Builders
import BioDidRegistry.Registry.Making

/-!
# Winding the registry down

No lamports are locked up in the registry, except the rent of the tombstones. Whatever the
state of its DID, the holder of a key buffer can close it, and an authority of a live DID
can deactivate it. So in every reachable state there are calls that leave nothing but
tombstones behind, and everything else is with the payer.
-/

namespace BioDidRegistry

open BinaryFormat Transition Reader

variable {P : Platform} {sv : Sysvars} {L L' L₀ : Ledger} {turns : List Turn} {payer : Address}

/-! ### Calls that return lamports -/

/-- The holder of a key buffer closes it, or an authority deactivates its DID. -/
inductive Retires (P : Platform) (sv : Sysvars) (payer : Address) : Ledger → Turn → Ledger → Prop
  | close {L L' : Ledger} {authority subject : Address} {i : Instruction} {log : List Bytes}
      (built : Client.closeKeyBuffer P payer authority subject = some i)
      (done : invoke P (i.call sv) L = .ok (L', log)) :
      Retires P sv payer L (.accepted (i.call sv)) L'
  | deactivate {L L' : Ledger} {authority subject : Address} {i : Instruction} {log : List Bytes}
      (built : Client.deactivate P payer authority subject = some i)
      (done : invoke P (i.call sv) L = .ok (L', log)) :
      Retires P sv payer L (.accepted (i.call sv)) L'

theorem Retires.step {t : Turn} (h : Retires P sv payer L t L') : Step P L t L' := by
  cases h with
  | close built done => exact .accepted done
  | deactivate built done => exact .accepted done

/-- The account at `a` is not the program's, or it is a deactivated DID. -/
def Ledger.Retired (P : Platform) (L : Ledger) (a : Address) : Prop :=
  (L a).owner = programId → ∃ d, Registered P L a d ∧ d.deactivated = 1

/-- What a call does that retires the account at `a`. -/
structure Retirement (P : Platform) (sv : Sysvars) (payer : Address) (L : Ledger) (a : Address)
    (L' : Ledger) : Prop where
  left : (L.HasDid a ∧ HoldsExactRent P sv L' a ∧ ∃ d, Registered P L' a d ∧ d.deactivated = 1) ∨
    (L.HasBuffer a ∧ L' a = ⟨0, [], systemProgram⟩)
  trades : Trades L L' a payer
  kept : (L' payer).owner = (L payer).owner ∧ (L' payer).data = (L payer).data
  others : ∀ b, b ≠ a → b ≠ payer → L' b = L b

theorem Ledger.vacant_of_closed {a : Address} (ha : L a = ⟨0, [], systemProgram⟩) :
    (L a).owner ≠ programId := by
  rw [ha]
  exact programId_ne_systemProgram.symm

/-- What the account at `a` has become: what it was, a DID with its exact rent, or nothing. -/
def Released (P : Platform) (sv : Sysvars) (L L' : Ledger) (a : Address) : Prop :=
  L' a = L a ∨ (L.HasDid a ∧ L'.HasDid a ∧ HoldsExactRent P sv L' a) ∨
    (L.HasBuffer a ∧ L' a = ⟨0, [], systemProgram⟩)

theorem Ledger.HasDid.congr {a : Address} (ha : L' a = L a) : L'.HasDid a ↔ L.HasDid a := by
  rw [HasDid, HasDid, ha]

theorem Ledger.HasBuffer.congr {a : Address} (ha : L' a = L a) :
    L'.HasBuffer a ↔ L.HasBuffer a := by
  rw [HasBuffer, HasBuffer, ha]

theorem Ledger.Retired.congr {a : Address} (ha : L' a = L a) :
    L'.Retired P a ↔ L.Retired P a := by
  have hsame (d : Document) : Registered P L' a d ↔ Registered P L a d :=
    ⟨fun hd => hd.of_same ⟨by rw [ha], by rw [ha]⟩, fun hd => hd.of_same ⟨by rw [ha], by rw [ha]⟩⟩
  simp only [Retired, ha, hsame]

namespace Retirement

variable {a : Address} (hr : Retirement P sv payer L a L')

include hr

theorem retired : L'.Retired P a := by
  intro howner
  rcases hr.left with ⟨-, -, hd⟩ | ⟨-, hempty⟩
  · exact hd
  · exact absurd howner (Ledger.vacant_of_closed hempty)

theorem released (hne : a ≠ payer) (hbefore : ∀ b, b ≠ payer → Released P sv L₀ L b) :
    ∀ b, b ≠ payer → Released P sv L₀ L' b := by
  intro b hb
  by_cases hba : b = a
  · subst hba
    rcases hr.left with ⟨hdid, hexact, d, hd, -⟩ | ⟨hbuffer, hempty⟩
    · refine Or.inr (Or.inl ⟨?_, hd.toIsDid.hasDid, hexact⟩)
      rcases hbefore b hb with hsame | ⟨hdid₀, -⟩ | ⟨-, hgone⟩
      · exact (Ledger.HasDid.congr hsame).mp hdid
      · exact hdid₀
      · exact absurd hdid.1 (Ledger.vacant_of_closed hgone)
    · refine Or.inr (Or.inr ⟨?_, hempty⟩)
      rcases hbefore b hb with hsame | ⟨-, hdid, -⟩ | ⟨hbuffer₀, -⟩
      · exact (Ledger.HasBuffer.congr hsame).mp hbuffer
      · exact absurd hbuffer hdid.not_hasBuffer
      · exact hbuffer₀
  · have hsame := hr.others b hba hb
    rcases hbefore b hb with hkept | ⟨hdid₀, hdid, hexact⟩ | ⟨hbuffer₀, hgone⟩
    · exact Or.inl (hsame.trans hkept)
    · refine Or.inr (Or.inl ⟨hdid₀, (Ledger.HasDid.congr hsame).mpr hdid, ?_⟩)
      rw [HoldsExactRent, hsame]
      exact hexact
    · exact Or.inr (Or.inr ⟨hbuffer₀, hsame.trans hgone⟩)

theorem supply (hne : a ≠ payer) : L'.supply = L.supply := by
  have hmoved : Circulates L L' [a, payer] :=
    hr.trades.circulates hne (by simpa using hne) (by simp) (by simp)
  exact hmoved.supply

end Retirement

/-- A ledger that can be wound down. -/
structure Refundable (P : Platform) (sv : Sysvars) (payer : Address) (L : Ledger) : Prop where
  sound : Sound P L
  governed : ∀ a d, Registered P L a d → d.deactivated = 0 → 0 < d.body.authorityCount
  rent : ∀ a, (L a).owner = programId → HoldsRent P sv L a
  supply : L.supply < 2 ^ 64
  owner : (L payer).owner = systemProgram
  dataless : (L payer).data = []

namespace Refundable

variable (h : Refundable P sv payer L) {a : Address}

include h

theorem ne_payer (ha : (L a).owner = programId) : a ≠ payer := by
  rintro rfl
  exact programId_ne_systemProgram (ha.symm.trans h.owner)

theorem bounded (hne : a ≠ payer) : (L a).lamports + (L payer).lamports < 2 ^ 64 := by
  have hnodup : [a, payer].Nodup := by simpa using hne
  have hle := L.held_le_supply hnodup
  simp only [Ledger.held_cons, Ledger.held_nil] at hle
  have hsupply := h.supply
  omega

/-- The holder of a buffer gets its lamports back, whatever became of the DID. -/
theorem close (hP : P.Lawful) {kb : KeyBuffer} (hkb : Staged P L a kb) :
    ∃ t L', Retires P sv payer L t L' ∧ Retirement P sv payer L a L' := by
  have hne : a ≠ payer := h.ne_payer hkb.owner
  have hbounded := h.bounded hne
  obtain ⟨d, hd⟩ := hkb.did
  have hd : Registered P L kb.didAccount d := h.sound.registered hd
  have hrun : CloseKeyBuffer.process P [.writable payer true, .readonly kb.authority true,
      .writable a false] [] ⟨L, []⟩ = .ok () ⟨L.closed a payer, []⟩ :=
    (closeKeyBuffer_ok_iff hP hkb.toIsBuffer).mpr ⟨⟨rfl, rfl, rfl, rfl, rfl⟩, rfl,
      (Nat.add_comm ..).trans_lt hbounded, rfl⟩
  have hbuilt : Client.closeKeyBuffer P payer kb.authority d.subject = some ⟨programId,
      [.writable payer true, .readonly kb.authority true, .writable a false],
      Ix.closeKeyBuffer.discriminator ++ []⟩ :=
    Builder.base_eq (b := .closeKeyBuffer payer kb.authority d.subject)
      ⟨hd.didAccount, hkb.keyBuffer hd⟩
  exact ⟨_, _, .close hbuilt (Instruction.invoke_ok rfl hrun),
    Or.inr ⟨hkb.toIsBuffer.hasBuffer, Ledger.closed_self ..⟩, Ledger.closed_trades L hne.symm,
    ⟨Ledger.closed_owner _ _ hne.symm, Ledger.closed_data _ _ hne.symm⟩,
    fun b hb hb' => Ledger.closed_of_ne _ hb hb'⟩

/-- An authority turns its DID into a tombstone, and what the rent of that leaves is returned. -/
theorem deactivate (hP : P.Lawful) (hscale : P.ScalesMonotonely) {now : Int64}
    (hclock : sv.clock = .ok now) {d : Document} (hd : Registered P L a d)
    (hlive : d.deactivated = 0) :
    ∃ t L', Retires P sv payer L t L' ∧ Retirement P sv payer L a L' := by
  have hne : a ≠ payer := h.ne_payer hd.owner
  have hbounded := h.bounded hne
  obtain ⟨m, hm, hauthority⟩ := List.countP_pos_iff.mp (h.governed a d hd hlive)
  obtain ⟨signer, hsigner⟩ := (hd.wellFormed.body.methods m hm).exists_signer
    (Method.methodType_of_isAuthority hauthority)
  have hauth : Authorized P L d signer none :=
    ⟨hlive, Or.inl (Body.isAuthority_of_mem hm hauthority hsigner)⟩
  let r : Request := ⟨payer, signer, d.subject, none, .deactivate⟩
  have hbuilt : Client.deactivate P payer signer d.subject =
      some ⟨programId, r.accounts a, r.op.ix.discriminator ++ r.op.args⟩ :=
    Request.base_eq (r := r) hd.didAccount
  have hasks : r.Asks P L ⟨programId, r.accounts a, r.op.ix.discriminator ++ r.op.args⟩ a d none :=
    ⟨by simp, trivial, hd.toIsDid, rfl, hd.wellFormed⟩
  have happly : d.body.apply P.isCurvePoint signer d.subject .deactivate = .ok .empty := rfl
  have hshrinks : offSections + Body.empty.encode.length < d.encode.length := by
    have hmethod : m.encode.length ≤ (d.body.methods.flatMap Method.encode).length :=
      (List.sublist_flatten_of_mem (List.mem_map_of_mem hm)).length_le
    have hpos := m.length_encode
    have hempty : Body.empty.encode.length = 16 := rfl
    rw [d.length_encode, d.body.length_encode_eq]
    omega
  have haffords : Affords P sv L payer a (offSections + Body.empty.encode.length) := by
    obtain ⟨need, hneed, henough⟩ := h.rent a hd.owner
    rw [hd.data_eq] at hneed
    obtain ⟨less, hle, hless⟩ := rentMinimumBalance_mono hscale hshrinks.le hneed
    exact ⟨⟨less, hless, by omega⟩, h.owner, h.dataless, hbounded⟩
  obtain ⟨L₁, hsettled⟩ := hasks.exists_resettles happly (fun _ => haffords) now
  have hrun := hasks.accepted hP trivial hauth happly hclock hsettled
  have hnew : Registered P (L₁.store a (d.updated .deactivate .empty now).encode) a
      (d.updated .deactivate .empty now) := by
    apply hd.of_updated hauth happly _ (Ledger.store_data ..)
    rw [Ledger.store_owner, hsettled.owner, hd.owner]
  have hlen : d.encode.length ≠ (d.updated .deactivate .empty now).encode.length := by
    rw [d.length_updated]
    exact hshrinks.ne'
  have htrades : Trades L L₁ a payer := hsettled.trades hne
  have hpayer : (L₁.store a (d.updated .deactivate .empty now).encode) payer = L₁ payer :=
    Ledger.store_of_ne _ _ hne.symm
  refine ⟨_, _, .deactivate hbuilt hrun, Or.inl ⟨hd.toIsDid.hasDid, ?_, _, hnew, rfl⟩,
    ⟨?_, fun b hb hb' => ?_⟩, ?_, fun b hb hb' => ?_⟩
  · rw [HoldsExactRent, hnew.data_eq, Ledger.store_lamports]
    exact hsettled.rent hne hlen
  · rw [Ledger.store_lamports, Ledger.store_lamports]
    exact htrades.sum
  · rw [Ledger.store_lamports]
    exact htrades.others b hb hb'
  · rw [hpayer]
    exact ⟨hsettled.owner _, hsettled.data _⟩
  · rw [Ledger.store_of_ne _ _ hb]
    exact ((resettles_of_ne hlen).mp hsettled).of_ne hb hb'

theorem retire (hP : P.Lawful) (hscale : P.ScalesMonotonely) {now : Int64}
    (hclock : sv.clock = .ok now)
    (ha : ¬L.Retired P a) : ∃ t L', Retires P sv payer L t L' ∧ Retirement P sv payer L a L' := by
  obtain ⟨howner, hlive⟩ := Classical.not_imp.mp ha
  rcases h.sound a howner with ⟨d, hd⟩ | ⟨kb, hkb⟩
  · have hzero : d.deactivated = 0 := by
      rcases hd.wellFormed.deactivated with hzero | hone
      · exact hzero
      · exact absurd ⟨d, hd, hone.1⟩ hlive
    exact h.deactivate hP hscale hclock hd hzero
  · exact h.close hP hkb

theorem retired (hr : Retirement P sv payer L a L') (hne : a ≠ payer) (hS' : Sound P L') :
    Refundable P sv payer L' := by
  have hsame {b : Address} (hb : (L' b).owner = programId) (hba : b ≠ a) : L' b = L b := by
    refine hr.others b hba ?_
    rintro rfl
    exact programId_ne_systemProgram (hb.symm.trans (hr.kept.1.trans h.owner))
  refine ⟨hS', fun b d hd hlive => ?_, fun b hb => ?_, ?_, hr.kept.1.trans h.owner,
    hr.kept.2.trans h.dataless⟩
  · by_cases hba : b = a
    · subst hba
      rcases hr.left with ⟨-, -, d', hd', hgone⟩ | ⟨-, hempty⟩
      · rw [hd.toIsDid.unique hd'.toIsDid, hgone] at hlive
        exact absurd hlive (by decide)
      · exact absurd hd.owner (Ledger.vacant_of_closed hempty)
    · have hb := hsame hd.owner hba
      exact h.governed b d (hd.of_same ⟨by rw [hb], by rw [hb]⟩) hlive
  · by_cases hba : b = a
    · subst hba
      rcases hr.left with ⟨-, hexact, -⟩ | ⟨-, hempty⟩
      · exact hexact.holdsRent
      · exact absurd hb (Ledger.vacant_of_closed hempty)
    · have hkept := hsame hb hba
      rw [hkept] at hb
      exact (h.rent b hb).of_same (by rw [hkept]) (by rw [hkept])
  · rw [hr.supply hne]
    exact h.supply

end Refundable

/-! ### All of it -/

open Classical in
noncomputable def Ledger.unretired (P : Platform) (L : Ledger) : ℕ :=
  (Finset.univ.filter fun a => ¬L.Retired P a).card

theorem Retirement.unretired_lt {a : Address} (hr : Retirement P sv payer L a L')
    (ha : ¬L.Retired P a) (howner : (L payer).owner = systemProgram) :
    L'.unretired P < L.unretired P := by
  classical
  apply Finset.card_lt_card
  rw [Finset.ssubset_iff_of_subset]
  · exact ⟨a, by simpa using ha, by simpa using hr.retired⟩
  · intro b hb
    simp only [Finset.mem_filter, Finset.mem_univ, true_and] at hb ⊢
    have hba : b ≠ a := by
      rintro rfl
      exact hb hr.retired
    have hbp : b ≠ payer := by
      rintro rfl
      refine hb fun h => absurd (h.symm.trans (hr.kept.1.trans howner)) programId_ne_systemProgram
    exact fun h => hb ((Ledger.Retired.congr (hr.others b hba hbp)).mpr h)

/-- Retirements lead from there to a ledger with nothing left to retire. -/
theorem Refundable.exists_run (h : Refundable P sv payer L) (hP : P.Lawful)
    (hscale : P.ScalesMonotonely) {now : Int64} (hclock : sv.clock = .ok now) :
    ∃ later L', Run (Retires P sv payer) L later L' ∧
      (Refundable P sv payer L' ∧ L'.supply = L.supply ∧ ∀ a, a ≠ payer → Released P sv L L' a) ∧
      ∀ a, L'.Retired P a := by
  refine Run.exists_of_rank (fun M => M.unretired P) ?_ ⟨h, rfl, fun a _ => Or.inl rfl⟩
  rintro M ⟨hM, hsupply, hreleased⟩ hleft
  obtain ⟨a, ha⟩ := Classical.not_forall.mp hleft
  have hne : a ≠ payer := hM.ne_payer (Classical.not_imp.mp ha).1
  obtain ⟨t, M', hstep, hr⟩ := hM.retire hP hscale hclock ha
  exact ⟨t, M', hstep, ⟨hM.retired hr hne (hstep.step.sound hP hM.sound),
    (hr.supply hne).trans hsupply, hr.released hne hreleased⟩, hr.unretired_lt ha hM.owner⟩

/-- From every reachable state, closings and deactivations lead to one in which the program
has no accounts but tombstones: each DID that was live holds exactly the rent of its own, the
buffers are gone, no account but the payer's is otherwise touched, and no lamport is lost. -/
theorem registry_winds_down (hP : P.Lawful) (hscale : P.ScalesMonotonely) (h₀ : Fresh L₀)
    (hrun : Run (Step P) L₀ turns L) (hmetered : Metered P sv turns) {now : Int64}
    (hclock : sv.clock = .ok now) (hsupply : L.supply < 2 ^ 64)
    (howner : (L payer).owner = systemProgram) (hdataless : (L payer).data = []) :
    ∃ later L', Run (Retires P sv payer) L later L' ∧
      (∀ a, (L' a).owner = programId → L.HasDid a ∧ IsTombstone (L' a).data ∧
        (L' a = L a ∨ HoldsExactRent P sv L' a)) ∧
      (∀ a, L.HasDid a → (L' a).owner = programId) ∧
      (∀ a d, L.DidAt P a d → d.deactivated = 0 → HoldsExactRent P sv L' a) ∧
      (∀ a, L.HasBuffer a → L' a = ⟨0, [], systemProgram⟩) ∧
      (∀ a, a ≠ payer → ¬L.HasDid a → ¬L.HasBuffer a → L' a = L a) ∧
      L'.supply = L.supply := by
  have hrefundable : Refundable P sv payer L := ⟨sound_of_run hP h₀ hrun,
    fun a d hd => (kept_of_run hP h₀ hrun a d hd).1, holdsRent_of_run hP h₀ hrun hmetered, hsupply,
    howner, hdataless⟩
  obtain ⟨later, L', hlater, ⟨hrefundable', hsame, hreleased⟩, hretired⟩ :=
    hrefundable.exists_run hP hscale hclock
  refine ⟨later, L', hlater, fun a ha => ?_, fun a ha => ?_, fun a d hd hlive => ?_,
    fun a ha => ?_, fun a hne hdid hbuffer => ?_, hsame⟩
  · obtain ⟨d, hd, hgone⟩ := hretired a ha
    have htomb : IsTombstone (L' a).data := by
      rw [hd.data_eq]
      rcases hd.wellFormed.deactivated with hzero | ⟨-, hempty⟩
      · rw [hgone] at hzero
        exact absurd hzero (by decide)
      · exact d.isTombstone hgone hempty
    rcases hreleased a (hrefundable'.ne_payer ha) with hkept | ⟨hdid, -, hexact⟩ | ⟨-, hempty⟩
    · exact ⟨(Ledger.HasDid.congr hkept).mp hd.toIsDid.hasDid, htomb, Or.inl hkept⟩
    · exact ⟨hdid, htomb, Or.inr hexact⟩
    · exact absurd ha (Ledger.vacant_of_closed hempty)
  · rcases hreleased a (hrefundable.ne_payer ha.1) with hkept | ⟨-, hdid, -⟩ | ⟨hbuffer, -⟩
    · exact hkept ▸ ha.1
    · exact hdid.1
    · exact absurd hbuffer ha.not_hasBuffer
  · have hd₀ := hrefundable.sound.registered_of_didAt hd
    rcases hreleased a (hrefundable.ne_payer hd₀.owner) with hkept | ⟨-, -, hexact⟩ | ⟨hbuffer, -⟩
    · -- Left alone, it would be live still.
      have hd' : Registered P L' a d := hd₀.of_same ⟨by rw [hkept], by rw [hkept]⟩
      obtain ⟨d', hretired', hgone⟩ := hretired a hd'.owner
      rw [hd'.toIsDid.unique hretired'.toIsDid, hgone] at hlive
      exact absurd hlive (by decide)
    · exact hexact
    · exact absurd hbuffer hd₀.toIsDid.hasDid.not_hasBuffer
  · rcases hreleased a (hrefundable.ne_payer ha.1) with hkept | ⟨hdid, -⟩ | ⟨-, hempty⟩
    · obtain ⟨d, hd, -⟩ := hretired a (hkept ▸ ha.1)
      exact absurd ((Ledger.HasBuffer.congr hkept).mpr ha) hd.toIsDid.hasDid.not_hasBuffer
    · exact absurd ha hdid.not_hasBuffer
    · exact hempty
  · rcases hreleased a hne with hkept | ⟨hdid', -⟩ | ⟨hbuffer', -⟩
    · exact hkept
    · exact absurd hdid' hdid
    · exact absurd hbuffer' hbuffer

/-- A live DID with a key buffer: one closing and one deactivation. -/
theorem registry_winds_down_sample :
    let L := afterAll Sample.platform [Sample.creation, Sample.opening] Sample.ledger
    ∃ later L', Run (Retires Sample.platform Sample.sysvars Sample.payer) L later L' ∧
      IsTombstone (L' Sample.did).data ∧
      HoldsExactRent Sample.platform Sample.sysvars L' Sample.did ∧
      L' Sample.buffer = ⟨0, [], systemProgram⟩ ∧ L'.supply = 10 ^ 9 := by
  intro L
  have hmetered : Metered Sample.platform Sample.sysvars
      (turnsOf Sample.platform [Sample.creation, Sample.opening] Sample.ledger) := by
    intro c hc
    rcases List.mem_pair.mp (mem_of_turnsOf hc) with rfl | rfl
    · exact ⟨rfl, Sample.keyed (by decide +kernel)⟩
    · exact ⟨rfl, Sample.keyed (by decide +kernel)⟩
  have hrun : Run (Step Sample.platform) Sample.ledger
      (turnsOf Sample.platform [Sample.creation, Sample.opening] Sample.ledger) L :=
    run_of_calls [Sample.creation, Sample.opening] Sample.ledger
  have hsupply : L.supply = 10 ^ 9 := by
    rw [supply_of_run Sample.platform_lawful Sample.ledger_fresh hrun hmetered
      (outside_notMem_turnsOf _), Sample.supply_ledger]
  have hdid : L.HasDid Sample.did := by decide +kernel
  have hbuffer : L.HasBuffer Sample.buffer := by decide +kernel
  have howner : (L Sample.payer).owner = systemProgram := by decide +kernel
  have hdataless : (L Sample.payer).data = [] := by decide +kernel
  obtain ⟨later, L', hlater, htombs, hdids, hexact, hbuffers, -, hkept⟩ :=
    registry_winds_down Sample.platform_lawful (fun _ _ _ _ _ h => by cases h) Sample.ledger_fresh
      hrun hmetered (show Sample.sysvars.clock = .ok 1700000000 from rfl)
      (by rw [hsupply]; decide) howner hdataless
  exact ⟨later, L', hlater, (htombs _ (hdids _ hdid)).2.1,
    hexact Sample.did Sample.document (by decide +kernel) rfl, hbuffers _ hbuffer,
    hkept.trans hsupply⟩

end BioDidRegistry
