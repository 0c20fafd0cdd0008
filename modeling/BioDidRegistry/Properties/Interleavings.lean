import BioDidRegistry.Registry.Locality
import BioDidRegistry.Registry.Reference

/-!
# Calls that have nothing to do with each other

Clients send their calls without knowing of each other, and the runtime takes them in some
order. Calls neither of which may write an account the other names can come in either order.
A client whose accounts nobody else writes gets what it would get alone.
-/

namespace BioDidRegistry

open Transition Footprint

variable {P : Platform} {L L' L₀ : Ledger} {turns : List Turn}

/-- No account that both calls name may be written by one of them. -/
def Call.Unrelated (c d : Call) : Prop :=
  ∀ v ∈ c.accounts, ∀ w ∈ d.accounts, v.address = w.address →
    v.isWritable = false ∧ w.isWritable = false

instance (c d : Call) : Decidable (c.Unrelated d) :=
  inferInstanceAs (Decidable (∀ v ∈ c.accounts, ∀ w ∈ d.accounts, _ → _))

theorem Call.unrelated_iff {c d : Call} :
    c.Unrelated d ↔ Footprint.Unrelated Call.readSet Call.writeSet c d := by
  simp only [Footprint.Unrelated, Call.readSet, Call.writeSet, Set.mem_ofPred_eq]
  constructor
  · intro h
    constructor
    · rintro a ⟨v, hv, rfl, hvw⟩ ⟨w, hw, hwv⟩
      rw [(h v hv w hw hwv.symm).1] at hvw
      cases hvw
    · rintro a ⟨w, hw, rfl, hww⟩ ⟨v, hv, hvw⟩
      rw [(h v hv w hw hvw).2] at hww
      cases hww
  · rintro ⟨hcd, hdc⟩ v hv w hw hsame
    constructor
    · by_contra hvw
      exact hcd _ ⟨v, hv, rfl, Bool.eq_true_of_not_eq_false hvw⟩ ⟨w, hw, hsame.symm⟩
    · by_contra hww
      exact hdc _ ⟨w, hw, rfl, Bool.eq_true_of_not_eq_false hww⟩ ⟨v, hv, hsame⟩

def Call.mayWrite (a : Address) (c : Call) : Bool :=
  c.accounts.any fun v => v.isWritable && v.address == a

/-- What each call is answered: the records it logged, if it is accepted. -/
def answers (P : Platform) : List Call → Ledger → List (Call × Option (List Bytes)) :=
  Footprint.answers (accepted P)

theorem afterAll_eq_footprint (calls : List Call) (L : Ledger) :
    Footprint.afterAll (accepted P) calls L = afterAll P calls L := by
  simp only [Footprint.afterAll, afterAll, after_eq_footprint]

/-- Two orders of the same calls that have the related ones in the same order lead to the
same ledger. Every call gets the same answer, and every account sees the calls that may write
it in the same order. -/
theorem order_of_unrelated_calls (hP : P.Lawful) (h₀ : Fresh L₀)
    (hrun : Run (Step P) L₀ turns L) {cs ds : List Call} (hperm : cs.Perm ds)
    (horder : ∀ c d : Call, ¬c.Unrelated d → only c d cs = only c d ds) :
    afterAll P cs L = afterAll P ds L ∧
    (answers P cs L).Perm (answers P ds L) ∧
    ∀ a, (answers P cs L).filter (fun x => x.1.mayWrite a) =
      (answers P ds L).filter (fun x => x.1.mayWrite a) := by
  have hreordered : Reordered (Footprint.Unrelated Call.readSet Call.writeSet) cs ds := by
    refine (reordered_iff fun _ _ h => h.symm).mpr ⟨hperm, fun c d hcd => horder c d ?_⟩
    rwa [Call.unrelated_iff]
  obtain ⟨hledger, hanswers⟩ :=
    (calls_local hP).afterAll_reordered (sound_of_run hP h₀ hrun) hreordered
  refine ⟨?_, hanswers.perm, fun a => hanswers.filter_eq fun x y hxy hx => ?_⟩
  · rwa [afterAll_eq_footprint, afterAll_eq_footprint] at hledger
  · -- Unrelated calls do not both write `a`.
    simp only [Call.mayWrite, List.any_eq_true, Bool.and_eq_true, beq_iff_eq] at hx
    obtain ⟨v, hv, hvw, hva⟩ := hx
    apply List.any_eq_false.mpr
    intro w hw hwrites
    simp only [Bool.and_eq_true, beq_iff_eq] at hwrites
    have hboth := Call.unrelated_iff.mpr hxy v hv w hw (hva.trans hwrites.2.symm)
    rw [hboth.1] at hvw
    cases hvw

/-! ### A client on its own -/

def Turn.call : Turn → Option Call
  | .accepted c | .refused c => some c
  | .outside => none

def turnsOfClient (mine : Call → Bool) (turns : List Turn) : List Turn :=
  turns.filter fun t => t.call.any mine

def callsOf (mine : Call → Bool) (turns : List Turn) : List Call :=
  (turnsOfClient mine turns).filterMap Turn.call

theorem turnsOfClient_snoc (mine : Call → Bool) (turns : List Turn) (t : Turn) :
    turnsOfClient mine (turns ++ [t]) =
      turnsOfClient mine turns ++ if t.call.any mine then [t] else [] := by
  rw [turnsOfClient, List.filter_append, List.filter_singleton]
  cases t.call.any mine <;> rfl

/-- The turn is the client's, or it leaves the accounts `cells` alone. -/
def Turn.Spares (mine : Call → Bool) (cells : Set Address) (L L' : Ledger) : Turn → Prop
  | .accepted c => mine c = true ∨ ∀ a ∈ c.writeSet, a ∉ cells
  | .refused _ => True
  | .outside => ∀ a ∈ cells, L' a = L a

theorem afterAll_snoc (calls : List Call) (c : Call) (L : Ledger) :
    afterAll P (calls ++ [c]) L = after P c (afterAll P calls L) := by
  rw [afterAll, List.foldl_append]
  rfl

theorem turnsOf_snoc (calls : List Call) (c : Call) (L : Ledger) :
    turnsOf P (calls ++ [c]) L = turnsOf P calls L ++ [c.turn P (afterAll P calls L)] := by
  induction calls generalizing L with
  | nil => rfl
  | cons d calls ih =>
    change d.turn P L :: turnsOf P (calls ++ [c]) (after P d L) = _
    rw [ih]
    rfl

/-- A call that is accepted or refused on one ledger is so on another that agrees with it on
the accounts the call names. -/
theorem Step.turn_eq (hP : P.Lawful) {A : Ledger} (hS : Sound P L) (hA : Sound P A) {t : Turn}
    {c : Call} (ht : t.call = some c) (hstep : Step P L t L')
    (hsame : ∀ a ∈ c.readSet, A a = L a) :
    c.turn P A = t ∧ ∀ a, A a = L a → after P c A a = L' a := by
  have hturn : c.turn P L = t ∧ after P c L = L' := by
    unfold Call.turn after
    cases hstep with
    | accepted h =>
      cases ht
      rw [h]
      exact ⟨rfl, rfl⟩
    | refused h =>
      cases ht
      rw [h]
      exact ⟨rfl, rfl⟩
    | outside h => cases ht
  obtain ⟨hanswer, hagree⟩ := (calls_local hP).congr hS hA hsame
  simp only [after_eq_footprint, hturn.2] at hagree
  refine ⟨?_, hagree⟩
  rw [← hturn.1]
  unfold Call.turn
  unfold BioDidRegistry.accepted at hanswer
  cases hA' : invoke P c A with
  | ok r =>
    cases hL : invoke P c L with
    | ok r' => rfl
    | error e =>
      rw [hA', hL] at hanswer
      cases hanswer
  | error e =>
    cases hL : invoke P c L with
    | ok r' =>
      rw [hA', hL] at hanswer
      cases hanswer
    | error e' => rfl

theorem run_of_calls_sparing {mine : Call → Bool} {cells : Set Address} {calls : List Call}
    (h : ∀ c ∈ calls, mine c = true ∨ ∀ a ∈ c.writeSet, a ∉ cells) (L : Ledger) :
    Run (fun L t L' => Step P L t L' ∧ t.Spares mine cells L L') L (turnsOf P calls L)
      (afterAll P calls L) := by
  induction calls generalizing L with
  | nil => exact .start
  | cons c calls ih =>
    obtain ⟨hc, hcalls⟩ := List.forall_mem_cons.mp h
    have hspares : (c.turn P L).Spares mine cells L (after P c L) := by
      unfold Call.turn
      cases invoke P c L with
      | ok r => exact hc
      | error e => trivial
    have hfirst : Run (fun L t L' => Step P L t L' ∧ t.Spares mine cells L L') L
        ([] ++ [c.turn P L]) (after P c L) := Run.start.snoc ⟨Step.of_call c L, hspares⟩
    exact hfirst.trans (ih hcalls _)

/-- A client names the accounts `cells`, which nobody else writes. Then whatever the others do
in between, its calls are accepted and refused as they would be alone, and the accounts end
as they would alone. -/
theorem calls_isolated (hP : P.Lawful) (h₀ : Fresh L₀) {before : List Turn}
    (hbefore : Run (Step P) L₀ before L) {mine : Call → Bool} {cells : Set Address}
    (hmine : ∀ c, mine c = true → c.readSet ⊆ cells)
    (hrun : Run (fun L t L' => Step P L t L' ∧ t.Spares mine cells L L') L turns L') :
    turnsOf P (callsOf mine turns) L = turnsOfClient mine turns ∧
      ∀ a ∈ cells, afterAll P (callsOf mine turns) L a = L' a := by
  have hS : Sound P L := sound_of_run hP h₀ hbefore
  refine (hrun.trace (P := fun turns L' => Sound P L' ∧
    turnsOf P (callsOf mine turns) L = turnsOfClient mine turns ∧
      ∀ a ∈ cells, afterAll P (callsOf mine turns) L a = L' a) ?_ ⟨hS, rfl, fun _ _ => rfl⟩).2
  rintro turns L₁ t L₂ - ⟨hS₁, hturns, hcells⟩ ⟨hstep, hspares⟩
  refine ⟨hstep.sound hP hS₁, ?_⟩
  by_cases ht : t.call.any mine = true
  · -- A call of the client sees what it would see alone.
    obtain ⟨c, hc, hmc⟩ : ∃ c, t.call = some c ∧ mine c = true := by
      simpa [Option.any_eq_true] using ht
    have hA : Sound P (afterAll P (callsOf mine turns) L) :=
      sound_of_run hP h₀ (hbefore.trans (run_of_calls _ L))
    have hmore : turnsOfClient mine (turns ++ [t]) = turnsOfClient mine turns ++ [t] := by
      rw [turnsOfClient_snoc, if_pos ht]
    have hcalls : callsOf mine (turns ++ [t]) = callsOf mine turns ++ [c] := by
      rw [callsOf, hmore, List.filterMap_append, List.filterMap_cons_some hc]
      rfl
    obtain ⟨hturn, hagree⟩ := hstep.turn_eq hP hS₁ hA hc fun a ha => hcells a (hmine c hmc ha)
    rw [hcalls, turnsOf_snoc, afterAll_snoc, hturns, hturn, hmore]
    exact ⟨rfl, fun a ha => hagree a (hcells a ha)⟩
  · -- Any other turn leaves the accounts alone.
    have hsame : turnsOfClient mine (turns ++ [t]) = turnsOfClient mine turns := by
      rw [turnsOfClient_snoc, if_neg ht, List.append_nil]
    rw [callsOf, hsame]
    refine ⟨hturns, fun a ha => (hcells a ha).trans ?_⟩
    cases hstep with
    | accepted h =>
      rename_i c log
      have hapart : ∀ a ∈ c.writeSet, a ∉ cells := hspares.resolve_left ht
      have hwrites : a ∉ c.writeSet := fun hw => hapart a hw ha
      exact ((calls_local hP).frame c L₁ L₂ log hS₁ (accepted_eq_some.mpr h) a hwrites).symm
    | refused h => rfl
    | outside h => exact (hspares a ha).symm

namespace Sample

def otherPayer : Address := address 7

def sharedLedger : Ledger := Function.update ledger otherPayer ⟨10 ^ 9, [], systemProgram⟩

def otherCreation : Call := send (Client.initializeDid platform otherPayer controller)

theorem sharedLedger_fresh : Fresh sharedLedger := by
  intro a
  unfold sharedLedger
  rw [Function.update_apply]
  split_ifs
  · exact programId_ne_systemProgram.symm
  · exact ledger_fresh a

end Sample

theorem order_of_unrelated_calls_sample :
    Sample.creation.Unrelated Sample.otherCreation ∧
      afterAll Sample.platform [Sample.creation, Sample.otherCreation] Sample.sharedLedger =
        afterAll Sample.platform [Sample.otherCreation, Sample.creation] Sample.sharedLedger ∧
      (afterAll Sample.platform [Sample.creation, Sample.otherCreation]
        Sample.sharedLedger).HasDid Sample.controllerDid := by
  have hunrelated : Sample.creation.Unrelated Sample.otherCreation := by decide +kernel
  have hreordered : Reordered (Footprint.Unrelated Call.readSet Call.writeSet)
      [Sample.creation, Sample.otherCreation] [Sample.otherCreation, Sample.creation] :=
    .single (Exchange.mk [] [] (Call.unrelated_iff.mp hunrelated))
  refine ⟨hunrelated, ?_, by decide +kernel⟩
  refine (order_of_unrelated_calls Sample.platform_lawful Sample.sharedLedger_fresh .start
    (List.Perm.swap _ _ _) fun c d hcd => ?_).1
  exact hreordered.only_eq (fun _ _ h => h.symm) (mt Call.unrelated_iff.mpr hcd)

/-- A client that names only these accounts creates its DID and adds a key, while another
creates a DID in between. -/
theorem calls_isolated_sample :
    let own := [Sample.payer, Sample.subject, Sample.did, systemProgram]
    let mine : Call → Bool := fun c => c.accounts.all fun v => own.contains v.address
    let calls := [Sample.creation, Sample.otherCreation, Sample.protection]
    let turns := turnsOf Sample.platform calls Sample.sharedLedger
    turnsOf Sample.platform (callsOf mine turns) Sample.sharedLedger = turnsOfClient mine turns ∧
      mine Sample.protection = true ∧ mine Sample.otherCreation = false := by
  intro own mine calls turns
  have hmine : ∀ c, mine c = true → c.readSet ⊆ {a | a ∈ own} := by
    rintro c hc a ⟨v, hv, rfl⟩
    exact List.contains_iff_mem.mp (List.all_eq_true.mp hc v hv)
  have hother : ∀ a ∈ Sample.otherCreation.writeSet, a ∉ {a | a ∈ own} := by
    have hwrites : ∀ v ∈ Sample.otherCreation.accounts, v.isWritable = true → v.address ∉ own := by
      decide +kernel
    exact fun a ⟨v, hv, ha, hw⟩ hmem => hwrites v hv hw (ha ▸ hmem)
  have hcalls : ∀ c ∈ calls, mine c = true ∨ ∀ a ∈ c.writeSet, a ∉ {a | a ∈ own} := by
    intro c hc
    have hcases : c = Sample.creation ∨ c = Sample.otherCreation ∨ c = Sample.protection := by
      simpa [calls] using hc
    rcases hcases with rfl | rfl | rfl
    · exact Or.inl (by decide +kernel)
    · exact Or.inr hother
    · exact Or.inl (by decide +kernel)
  exact ⟨(calls_isolated Sample.platform_lawful Sample.sharedLedger_fresh .start hmine
    (run_of_calls_sparing hcalls _)).1, by decide +kernel, by decide +kernel⟩

end BioDidRegistry
