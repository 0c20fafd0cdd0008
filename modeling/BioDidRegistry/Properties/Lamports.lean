import BioDidRegistry.Properties.TypedAccounts
import BioDidRegistry.Registry.Balances

/-!
# Lamports

A call moves lamports among the accounts it names and creates none. In every reachable
ledger an account of the program holds the rent of its data. A resized DID is left with
its exact rent, and so is one that nobody else ever paid into.
-/

namespace BioDidRegistry

open BinaryFormat Transition

variable {P : Platform} {sv : Sysvars} {L L' L₀ : Ledger} {turns : List Turn}

def Ledger.balance (L : Ledger) (role : Option AccountView) : ℕ :=
  role.elim 0 fun view => (L view.address).lamports

theorem Ledger.held_named (L : Ledger) (c : Call) :
    L.held c.named = L.balance c.payer + L.balance c.didAccount + L.balance c.keyBuffer := by
  unfold held Call.named balance
  cases c.payer <;> cases c.didAccount <;> cases c.keyBuffer <;> simp [Nat.add_assoc]

/-- A step in which nobody else changes the balance of `a`. -/
def Undeposited (P : Platform) (a : Address) (L : Ledger) (t : Turn) (L' : Ledger) : Prop :=
  Step P L t L' ∧ (t = .outside → (L' a).lamports = (L a).lamports)

/-- The calls of a run read the rent of `sv`, and none is signed by a program address. -/
def Metered (P : Platform) (sv : Sysvars) (turns : List Turn) : Prop :=
  ∀ c, .accepted c ∈ turns → c.Metered P sv

theorem Metered.of_append {more : List Turn} (h : Metered P sv (turns ++ more)) :
    Metered P sv turns :=
  fun c hc => h c (List.mem_append_left _ hc)

theorem Call.Metered.rent_eq {c : Call} (h : c.Metered P sv) (n : ℕ) :
    rentMinimumBalance P c.sysvars n = rentMinimumBalance P sv n :=
  rentMinimumBalance_congr h.rent n

theorem Call.Metered.holdsRent_iff {c : Call} (h : c.Metered P sv) {a : Address} :
    HoldsRent P c.sysvars L a ↔ HoldsRent P sv L a := by
  unfold HoldsRent
  rw [h.rent_eq]

theorem Call.Metered.holdsExactRent_iff {c : Call} (h : c.Metered P sv) {a : Address} :
    HoldsExactRent P c.sysvars L a ↔ HoldsExactRent P sv L a := by
  unfold HoldsExactRent
  rw [h.rent_eq]

theorem holdsRent_of_run (hP : P.Lawful) (h₀ : Fresh L₀) (hrun : Run (Step P) L₀ turns L)
    (hmetered : Metered P sv turns) :
    ∀ a, (L a).owner = programId → HoldsRent P sv L a := by
  refine hrun.trace (P := fun turns L => Metered P sv turns →
    ∀ a, (L a).owner = programId → HoldsRent P sv L a) ?_ ?_ hmetered
  · intro turns L₁ t L₂ hrun₁ ih hstep hmetered a howner
    have hS₁ : Sound P L₁ := sound_of_run hP h₀ hrun₁
    have hrent := ih hmetered.of_append
    rcases hstep.cases hP hS₁ with ⟨c, e, log, rfl, h⟩ | ⟨-, hquiet⟩
    · have hc : c.Metered P sv := hmetered c (by simp)
      rw [← hc.holdsRent_iff]
      apply h.holdsRent hS₁ hc.keyed _ howner
      intro b hb
      exact hc.holdsRent_iff.mpr (hrent b hb)
    · have hold := (hquiet.owner_iff a).mp howner
      exact (hrent a hold).of_same (hquiet.data a hold) (hquiet.lamports_le a hold)
  · intro _ a howner
    exact absurd howner (h₀ a)

theorem exact_of_run (hP : P.Lawful) (h₀ : Fresh L₀) {a : Address} {seeds : List Bytes}
    {bump : UInt8} (hfind : P.deriveProgramAddress seeds = some (a, bump))
    (hempty : (L₀ a).lamports = 0) (hrun : Run (Undeposited P a) L₀ turns L)
    (hmetered : Metered P sv turns) :
    Sound P L ∧ ((L a).owner ≠ programId → (L a).lamports = 0) ∧
      (L.HasDid a → HoldsExactRent P sv L a) := by
  refine hrun.trace (P := fun turns L => Metered P sv turns → Sound P L ∧
    ((L a).owner ≠ programId → (L a).lamports = 0) ∧ (L.HasDid a → HoldsExactRent P sv L a))
    ?_ ?_ hmetered
  · rintro turns L₁ t L₂ - ih ⟨hstep, hkept⟩ hmetered
    obtain ⟨hS₁, hvacant, hexact⟩ := ih hmetered.of_append
    refine ⟨hstep.sound hP hS₁, ?_⟩
    cases hstep with
    | accepted h =>
      rename_i c log
      obtain ⟨e, hperforms⟩ := exists_performs hP hS₁ h
      have hc : c.Metered P sv := hmetered c (by simp)
      have hkept := hperforms.exact hP hS₁ hc.keyed hfind hvacant fun hd =>
        hc.holdsExactRent_iff.mpr (hexact hd)
      exact ⟨hkept.1, fun hd => hc.holdsExactRent_iff.mp (hkept.2 hd)⟩
    | refused h => exact ⟨hvacant, hexact⟩
    | outside hquiet =>
      have hsame := hkept rfl
      refine ⟨fun howner => ?_, fun hd => ?_⟩
      · rw [hsame]
        exact hvacant (mt (hquiet.owner_iff a).mpr howner)
      · have hold := (hquiet.owner_iff a).mp hd.1
        have hdata := hquiet.data a hold
        unfold HoldsExactRent
        rw [hsame, hdata]
        exact hexact ⟨hold, hdata ▸ hd.2⟩
  · intro _
    exact ⟨h₀.sound, fun _ => hempty, fun hd => absurd hd.1 (h₀ a)⟩

namespace Performs

variable {c : Call} {e : Effect} {log : List Bytes} {a : Address}

/-- A DID changes its length only as the named one. It is left with its exact rent, by a
payer, and the buffer that the call names, if any, is empty afterwards. -/
theorem resized (hkeyed : c.Keyed P) (h : Performs P c L e L' log) {d : Document}
    (hd : Registered P L a d) (hlen : (L' a).data.length ≠ (L a).data.length) :
    (∃ did, c.didAccount = some did ∧ did.address = a) ∧ HoldsExactRent P c.sysvars L' a ∧
      (∃ payer, c.Pays payer) ∧ L'.balance c.keyBuffer = 0 := by
  rcases h.did_cases hd with hsame | ⟨op, d', hamends⟩
  · exact absurd (congrArg List.length (h.frame hsame).1) hlen
  · obtain ⟨key, body, hamended⟩ := h.amended hamends
    rcases h.rent_of_amends hkeyed hamends with ⟨hsame, -⟩ | hexact
    · exact absurd hsame hlen
    · refine ⟨hamended.target, hexact, ?_⟩
      rcases hamends with rfl | ⟨buffer, kb, rfl, rfl⟩
      · cases h with
        | update ix args signed pays target isDid authorized applied clock settled =>
          rename_i payer did key' body' now L₁
          have hbuffer : c.keyBuffer = none := Call.account_eq_none ix op.keyBufferPos_ix
          refine ⟨?_, by rw [hbuffer]; rfl⟩
          rcases pays with pays | hflags
          · exact ⟨payer, pays⟩
          · apply absurd _ hlen
            rw [Ledger.store_data, isDid.data_eq]
            exact Document.length_of_flags hflags applied now
      · cases h with
        | finish ix args signed pays target named staged bound isDid complete authorized applied
              clock settled =>
          refine ⟨⟨_, pays⟩, ?_⟩
          rw [named, Ledger.balance, Option.elim_some, Ledger.closed_self]

theorem released (h : Performs P c L e L' log) {kb : KeyBuffer} (hkb : Staged P L a kb)
    (hgone : (L' a).owner ≠ programId) :
    (∃ view, c.keyBuffer = some view ∧ view.address = a) ∧ (∃ payer, c.Pays payer) ∧
      L' a = ⟨0, [], systemProgram⟩ := by
  rcases h.buffer_cases hkb.toIsBuffer with hsame | ⟨kb', chunk, rfl⟩ | hleft
  · exact absurd ((h.frame hsame).2.trans hkb.owner) hgone
  · exact absurd h.written.2.1.owner hgone
  · have hempty := (h.gone hleft).2.2
    rcases hleft with ⟨did, d, d', rfl⟩ | rfl
    · cases h with
      | finish ix args signed pays target named staged bound isDid complete authorized applied
            clock settled =>
        exact ⟨⟨_, named, rfl⟩, ⟨_, pays⟩, hempty⟩
    · cases h with
      | closeBuffer ix args signed pays named staged =>
        exact ⟨⟨_, named, rfl⟩, ⟨_, pays⟩, hempty⟩

end Performs

/-- What an accepted call does to the balances. -/
structure Conserves (P : Platform) (sv : Sysvars) (c : Call) (L L' : Ledger) : Prop where
  /-- No lamport is minted or lost. -/
  supply : L'.supply = L.supply
  /-- Only the named payer, DID and key buffer change balance. -/
  named : ∀ a, (L' a).lamports ≠ (L a).lamports → a ∈ c.named
  /-- A resized DID holds its exact rent, and the payer alone made the difference, beside
  receiving what a finished buffer held. -/
  resized : ∀ a d, L.DidAt P a d → (L' a).data.length ≠ (L a).data.length →
    (∃ did, c.didAccount = some did ∧ did.address = a) ∧ (∃ payer, c.Pays payer) ∧
      HoldsExactRent P sv L' a ∧
      L'.balance c.payer + (L' a).lamports =
        L.balance c.payer + (L a).lamports + L.balance c.keyBuffer
  /-- An accepted finish or close empties the buffer it names, and what that held is with the
  payer, beside what the named DID took or gave. -/
  emptied : c.ix = some .closeKeyBuffer ∨ c.ix = some .addVerificationMethodFromBuffer →
    ∃ view, c.keyBuffer = some view ∧ L.HasBuffer view.address ∧
      L' view.address = ⟨0, [], systemProgram⟩ ∧ (∃ payer, c.Pays payer) ∧
      L'.balance c.payer + L'.balance c.didAccount =
        L.balance c.payer + L.balance c.didAccount + (L view.address).lamports
  /-- What a finished or closed buffer held is with the payer, beside what the named DID
  took or gave. -/
  released : ∀ a, L.HasBuffer a → (L' a).owner ≠ programId →
    (∃ view, c.keyBuffer = some view ∧ view.address = a) ∧ (∃ payer, c.Pays payer) ∧
      (L' a).lamports = 0 ∧
      L'.balance c.payer + L'.balance c.didAccount =
        L.balance c.payer + L.balance c.didAccount + (L a).lamports

theorem Performs.conserves (hS : Sound P L) {c : Call} (hc : c.Metered P sv) {e : Effect}
    {log : List Bytes} (h : Performs P c L e L' log) : Conserves P sv c L L' := by
  have hmoved := h.trades hS hc.keyed
  have hsum := hmoved.held
  rw [Ledger.held_named, Ledger.held_named] at hsum
  have hreleased {a : Address} {kb : KeyBuffer} (hkb : Staged P L a kb)
      (hgone : (L' a).owner ≠ programId) : (∃ view, c.keyBuffer = some view ∧ view.address = a) ∧
        (∃ payer, c.Pays payer) ∧ (L' a).lamports = 0 ∧
        L'.balance c.payer + L'.balance c.didAccount =
          L.balance c.payer + L.balance c.didAccount + (L a).lamports := by
    obtain ⟨⟨view, hnamed, hview⟩, hpays, hempty⟩ := h.released hkb hgone
    have hbalance (L : Ledger) : L.balance c.keyBuffer = (L a).lamports := by
      rw [hnamed, Ledger.balance, Option.elim_some, hview]
    have hzero : (L' a).lamports = 0 := by rw [hempty]
    rw [hbalance, hbalance] at hsum
    exact ⟨⟨view, hnamed, hview⟩, hpays, hzero, by omega⟩
  refine ⟨hmoved.supply, ?_, ?_, ?_, ?_⟩
  · intro a hchanged
    by_contra ha
    exact hchanged (hmoved.others a ha)
  · intro a d hd hlen
    obtain ⟨⟨did, htarget, hdid⟩, hexact, hpays, hempty⟩ :=
      h.resized hc.keyed (hS.registered_of_didAt hd) hlen
    refine ⟨⟨did, htarget, hdid⟩, hpays, hc.holdsExactRent_iff.mp hexact, ?_⟩
    have hbalance (L : Ledger) : L.balance c.didAccount = (L a).lamports := by
      rw [htarget, Ledger.balance, Option.elim_some, hdid]
    rw [hbalance, hbalance] at hsum
    omega
  · intro hix
    obtain ⟨view, kb, hnamed, hends⟩ := h.ends_named hix
    obtain ⟨hkb, -, hempty⟩ := h.gone hends
    have hgone : (L' view.address).owner ≠ programId := by
      rw [hempty]
      exact programId_ne_systemProgram.symm
    obtain ⟨-, hpays, -, hpaid⟩ := hreleased hkb hgone
    exact ⟨view, hnamed, hkb.toIsBuffer.hasBuffer, hempty, hpays, hpaid⟩
  · intro a hbuffer hgone
    obtain ⟨kb, hkb⟩ := hS.exists_staged hbuffer
    exact hreleased hkb hgone

theorem supply_of_run (hP : P.Lawful) (h₀ : Fresh L₀) (hrun : Run (Step P) L₀ turns L)
    (hmetered : Metered P sv turns) (hinside : Turn.outside ∉ turns) : L.supply = L₀.supply := by
  refine hrun.trace (P := fun turns L => Metered P sv turns → Turn.outside ∉ turns →
    L.supply = L₀.supply) ?_ (fun _ _ => rfl) hmetered hinside
  intro turns L₁ t L₂ hrun₁ ih hstep hmetered hinside
  have hbefore : L₁.supply = L₀.supply :=
    ih hmetered.of_append fun h => hinside (List.mem_append_left _ h)
  cases hstep with
  | accepted h =>
    have hS : Sound P L₁ := sound_of_run hP h₀ hrun₁
    obtain ⟨e, hperforms⟩ := exists_performs hP hS h
    exact (hperforms.conserves hS (hmetered _ (by simp))).supply.trans hbefore
  | refused h => exact hbefore
  | outside h => exact absurd (by simp) hinside

/-- Accepted calls conserve the lamports, every account of the program holds its rent in
every state, and a DID that nobody else pays into holds exactly its rent. -/
theorem lamports_conserved (hP : P.Lawful) (h₀ : Fresh L₀) (hrun : Run (Step P) L₀ turns L)
    (hmetered : Metered P sv turns) :
    (∀ c L' log, c.Metered P sv → invoke P c L = .ok (L', log) → Conserves P sv c L L') ∧
    (∀ a, L.HasDid a ∨ L.HasBuffer a → HoldsRent P sv L a) ∧
    ∀ a d, L.DidAt P a d → (L₀ a).lamports = 0 → Run (Undeposited P a) L₀ turns L →
      HoldsExactRent P sv L a := by
  have hS : Sound P L := sound_of_run hP h₀ hrun
  refine ⟨?_, ?_, ?_⟩
  · intro c L' log hc hinvoke
    obtain ⟨e, hperforms⟩ := exists_performs hP hS hinvoke
    exact hperforms.conserves hS hc
  · intro a ha
    apply holdsRent_of_run hP h₀ hrun hmetered
    rcases ha with hd | hbuffer
    · exact hd.1
    · exact hbuffer.1
  · intro a d hd hempty hundeposited
    obtain ⟨-, -, hexact⟩ := exact_of_run hP h₀ hd.2.2.2 hempty hundeposited hmetered
    exact hexact hd.1

/-- A complete buffer is finished: the DID grows to its new rent and the payer has the rest. -/
theorem lamports_conserved_sample :
    let L := afterAll Sample.platform [Sample.creation, Sample.opening, Sample.writing,
      Sample.completion] Sample.ledger
    let L' := after Sample.platform Sample.finishing L
    L'.supply = L.supply ∧ HoldsExactRent Sample.platform Sample.sysvars L Sample.did ∧
      HoldsRent Sample.platform Sample.sysvars L Sample.buffer ∧
      (L' Sample.did).data.length = (L Sample.did).data.length + 44 ∧
      HoldsExactRent Sample.platform Sample.sysvars L' Sample.did ∧
      L' Sample.buffer = ⟨0, [], systemProgram⟩ ∧
      (L' Sample.payer).lamports + (L' Sample.did).lamports =
        (L Sample.payer).lamports + (L Sample.did).lamports + (L Sample.buffer).lamports := by
  intro L L'
  have hkeyed {c : Call} (hc : c ∈ [Sample.creation, Sample.opening, Sample.writing,
      Sample.completion, Sample.finishing]) : c.Metered Sample.platform Sample.sysvars := by
    simp only [List.mem_cons, List.not_mem_nil, or_false] at hc
    rcases hc with rfl | rfl | rfl | rfl | rfl
    all_goals exact ⟨rfl, Sample.keyed (by decide +kernel)⟩
  have hmetered : Metered Sample.platform Sample.sysvars (turnsOf Sample.platform
      [Sample.creation, Sample.opening, Sample.writing, Sample.completion] Sample.ledger) :=
    fun c hc => hkeyed (List.mem_append_left [Sample.finishing] (mem_of_turnsOf hc))
  have hrun := run_of_calls (P := Sample.platform) [Sample.creation, Sample.opening,
    Sample.writing, Sample.completion] Sample.ledger
  have hundeposited : Run (Undeposited Sample.platform Sample.did) Sample.ledger
      (turnsOf Sample.platform [Sample.creation, Sample.opening, Sample.writing,
        Sample.completion] Sample.ledger) L := by
    have hinside := hrun.restrict fun t ht => ne_of_mem_of_not_mem ht (outside_notMem_turnsOf _)
    simpa using hinside.map (f := id) fun _ _ _ h => ⟨h.1, fun hout => absurd hout h.2⟩
  obtain ⟨hconserves, hrent, hexact⟩ :=
    lamports_conserved Sample.platform_lawful Sample.ledger_fresh hrun hmetered
  obtain ⟨log, hdone⟩ := invoke_after (P := Sample.platform) (L := L) (c := Sample.finishing)
    (by decide +kernel)
  have hfinish := hconserves _ L' log (hkeyed (by simp)) hdone
  obtain ⟨view, hnamed, -, hempty, -, hpaid⟩ := hfinish.emptied (Or.inr (by decide +kernel))
  obtain rfl : AccountView.writable Sample.buffer false = view :=
    Option.some.inj (Eq.trans (by decide +kernel) hnamed)
  have hdid : L.DidAt Sample.platform Sample.did Sample.document := by decide +kernel
  have hgrown : (L' Sample.did).data.length = (L Sample.did).data.length + 44 := by decide +kernel
  obtain ⟨-, -, hafter, -⟩ := hfinish.resized Sample.did _
    hdid (hgrown.trans_ne (Nat.ne_of_gt (Nat.lt_add_of_pos_right (by decide))))
  exact ⟨hfinish.supply, hexact Sample.did _ hdid rfl hundeposited, hrent _ (by decide +kernel),
    hgrown, hafter, hempty, hpaid⟩

end BioDidRegistry
