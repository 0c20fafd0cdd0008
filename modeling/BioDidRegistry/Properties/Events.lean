import BioDidRegistry.Properties.TypedAccounts
import BioDidRegistry.Registry.Silence

/-!
# Versions and events

The version of a DID counts its updates. Its events tell the same story: one for its
creation, then one for each update in order, with the version that update left. Nothing
else names its account, and a refused call logs nothing.
-/

namespace BioDidRegistry

open BinaryFormat Transition Outcome

variable {P : Platform} {L L' L₀ : Ledger}

/-! ### Steps with their records -/

/-- A step with the records it logs. A refused call logs what its handler had logged when
it stopped. -/
inductive Logs (P : Platform) : Ledger → Turn × List Bytes → Ledger → Prop
  | accepted {L L' : Ledger} {c : Call} {log : List Bytes} (h : invoke P c L = .ok (L', log)) :
      Logs P L (.accepted c, log) L'
  | refused {L : Ledger} {c : Call} {e : Fault} {m : Machine}
      (h : processInstruction P c.sysvars programId c.accounts c.data ⟨L, []⟩ = .error e m) :
      Logs P L (.refused c, m.log) L
  | outside {L L' : Ledger} (h : Quiet L L') : Logs P L (.outside, []) L'

theorem Logs.step {step : Turn × List Bytes} (h : Logs P L step L') : Step P L step.1 L' := by
  cases h with
  | accepted h => exact .accepted h
  | refused h => exact .refused (by rw [invoke, h])
  | outside h => exact .outside h

/-- A step is an effect with its records, or quiet without any. -/
theorem Logs.cases (hP : P.Lawful) (hS : Sound P L) {step : Turn × List Bytes}
    (h : Logs P L step L') :
    (∃ c e, step.1 = .accepted c ∧ Performs P c L e L' step.2) ∨
      ((∀ c, step.1 ≠ .accepted c) ∧ Quiet L L' ∧ step.2 = []) := by
  cases h with
  | accepted h =>
    obtain ⟨e, hperforms⟩ := exists_performs hP hS h
    exact Or.inl ⟨_, e, rfl, hperforms⟩
  | refused h =>
    exact Or.inr ⟨by simp, Quiet.refl L, processInstruction_reports _ _ _ _ _ _ h⟩
  | outside h => exact Or.inr ⟨by simp, h, rfl⟩

theorem sound_of_logs (hP : P.Lawful) {steps : List (Turn × List Bytes)} (h₀ : Fresh L₀)
    (hrun : Run (Logs P) L₀ steps L) : Sound P L :=
  hrun.invariant (fun _ _ _ hS hstep => hstep.step.sound hP hS) h₀.sound

/-! ### What a call logs -/

/-- The records of an effect: of a DID created or updated, with what its account then
stores. -/
def Effect.log : Effect → List Bytes
  | create did d => [eventBytes didInitialized did d.subject d.version]
  | update did _ op d' => [eventBytes op.event did d'.subject d'.version]
  | finish did _ d' _ _ => [eventBytes didModified did d'.subject d'.version]
  | _ => []

def names (a : Address) (record : Bytes) : Bool := (record.drop 8).take 32 == a.val

theorem names_eventBytes {event : Bytes} (hevent : event.length = 8) (a b subject : Address)
    (v : UInt64) : names b (eventBytes event a subject v) = decide (a = b) := by
  have hdrop : (eventBytes event a subject v).drop 8 = a.val ++ (subject.val ++ u64Bytes v) := by
    rw [eventBytes, List.append_assoc, List.append_assoc, ← hevent, List.drop_left]
  rw [names, hdrop, List.take_left' a.length_eq, beq_eq_decide]
  exact decide_eq_decide.mpr Subtype.val_inj

theorem Op.length_event (op : Op) : op.event.length = 8 := by cases op <;> rfl

/-- The call updates the document of the DID account at `a`, if it is accepted. -/
def Call.updates (c : Call) (a : Address) : Bool :=
  (c.ix.any fun ix => ix.isUpdate || ix == .addVerificationMethodFromBuffer) &&
    c.didAccount.map AccountView.address == some a

def Turn.updates (a : Address) : Turn → Bool
  | accepted c => c.updates a
  | _ => false

namespace Performs

variable {c : Call} {e : Effect} {log : List Bytes} {a : Address}

theorem log_eq (h : Performs P c L e L' log) : log = e.log := by
  cases h <;> rfl

theorem updates_iff (h : Performs P c L e L' log) :
    c.updates a = true ↔ ∃ d op d', e.Amends a d op d' := by
  unfold Call.updates Effect.Amends
  cases h with
  | create founds pays target found vacant rent funds clock =>
    rcases founds.ix_cases with hix | hix <;> simp [hix, Ix.isUpdate]
  | update ix args signed pays target isDid authorized applied clock settled =>
    simp [ix, target, Op.isUpdate_ix, Subtype.val_inj]
  | openBuffer ix | writeBuffer ix | closeBuffer ix => simp [ix, Ix.isUpdate]
  | finish ix args signed pays target named staged bound isDid complete authorized applied clock
        settled =>
    simp [ix, target, Subtype.val_inj]

theorem filter_log (h : Performs P c L e L' log) (hcreate : ∀ d, e ≠ .create a d)
    (hupdate : c.updates a = false) : log.filter (names a) = [] := by
  have hamends : ¬∃ d op d', e.Amends a d op d' := by
    rw [← h.updates_iff, hupdate]
    simp
  rw [h.log_eq]
  cases e with
  | create did d =>
    have hne : did ≠ a := fun hsame => hcreate d (hsame ▸ rfl)
    simp [Effect.log, names_eventBytes, didInitialized, hne]
  | update did d op d' =>
    have hne : did ≠ a := fun hsame => hamends ⟨d, op, d', Or.inl (hsame ▸ rfl)⟩
    simp [Effect.log, names_eventBytes, op.length_event, hne]
  | finish did d d' buffer kb =>
    have hne : did ≠ a := fun hsame => hamends ⟨d, _, d', Or.inr ⟨buffer, kb, rfl, hsame ▸ rfl⟩⟩
    simp [Effect.log, names_eventBytes, didModified, hne]
  | openBuffer | writeBuffer | closeBuffer => rfl

/-- An update logs the one event of its account. -/
theorem log_of_amends (h : Performs P c L e L' log) {d d' : Document} {op : Op}
    (ha : e.Amends a d op d') : log = [eventBytes op.event a d'.subject d'.version] := by
  rw [h.log_eq]
  rcases ha with rfl | ⟨buffer, kb, rfl, rfl⟩ <;> rfl

theorem registered_iff (hP : P.Lawful) (hS : Sound P L) (h : Performs P c L e L' log)
    (hcreate : ∀ d, e ≠ .create a d) (hupdate : c.updates a = false) {d : Document} :
    Registered P L' a d ↔ Registered P L a d := by
  have hamends : ¬∃ d op d', e.Amends a d op d' := by
    rw [← h.updates_iff, hupdate]
    simp
  constructor
  · intro hd
    rcases h.did_origin hP hS hd with ⟨hold, -⟩ | rfl | ⟨d₀, op, ha⟩
    · exact hold
    · exact absurd rfl (hcreate d)
    · exact absurd ⟨d₀, op, d, ha⟩ hamends
  · intro hd
    rcases h.did_cases hd with hsame | ⟨op, d', ha⟩
    · exact hd.of_same (h.frame hsame)
    · exact absurd ⟨d, op, d', ha⟩ hamends

end Performs

/-! ### The history of a DID -/

section History

variable (steps : List (Turn × List Bytes)) (a : Address)

def updateCount : ℕ := steps.countP fun step => step.1.updates a

def eventsOf : List Bytes := (steps.flatMap Prod.snd).filter (names a)

/-- The events of the DID of `d` after `n` updates: its creation with version 1, then every
update with the version it left. Only the last can be the deactivation. -/
def Document.history (d : Document) (n : ℕ) : List Bytes :=
  eventBytes didInitialized a d.subject 1 :: (List.range n).map fun i =>
    eventBytes (if d.deactivated = 1 ∧ i + 1 = n then didDeactivated else didModified) a d.subject
      (UInt64.ofNat (i + 2))

end History

theorem Document.history_succ {a : Address} {d d' : Document} {n : ℕ} (hlive : d.deactivated = 0)
    (hsubject : d'.subject = d.subject) : d'.history a (n + 1) = d.history a n ++
      [eventBytes (if d'.deactivated = 1 then didDeactivated else didModified) a d.subject
        (UInt64.ofNat (n + 2))] := by
  have hold (i : ℕ) : (if d.deactivated = 1 ∧ i + 1 = n then didDeactivated else didModified) =
      didModified := by
    simp [hlive]
  unfold history
  rw [hsubject, List.range_succ, List.map_append, List.map_singleton, List.cons_append]
  congr 1
  congr 1
  · apply List.map_congr_left
    intro i hi
    have hlt : i ≠ n := (List.mem_range.mp hi).ne
    simp [hold, hlt]
  · simp

/-! ### Every state -/

@[simp] theorem updateCount_append (steps more : List (Turn × List Bytes)) (a : Address) :
    updateCount (steps ++ more) a = updateCount steps a + updateCount more a :=
  List.countP_append

@[simp] theorem eventsOf_append (steps more : List (Turn × List Bytes)) (a : Address) :
    eventsOf (steps ++ more) a = eventsOf steps a ++ eventsOf more a := by
  simp [eventsOf]

theorem updateCount_singleton (step : Turn × List Bytes) (a : Address) :
    updateCount [step] a = if step.1.updates a then 1 else 0 := by
  simp [updateCount, List.countP_singleton]

theorem eventsOf_singleton (step : Turn × List Bytes) (a : Address) :
    eventsOf [step] a = step.2.filter (names a) := by
  simp [eventsOf]

theorem saturatingSucc_eq {v : UInt64} {n : ℕ} (hv : v.toNat = n + 1) (hn : n + 2 < 2 ^ 64) :
    saturatingSucc v = UInt64.ofNat (n + 2) := by
  apply UInt64.toNat_inj.mp
  rw [saturatingSucc, if_pos (by omega), UInt64.toNat_add, UInt64.toNat_ofNat', hv]
  rfl

/-- The account at `a` has the version and the events that the steps gave it. -/
structure Chronicled (P : Platform) (steps : List (Turn × List Bytes)) (L : Ledger)
    (a : Address) : Prop where
  told : ∀ d, Registered P L a d → d.version.toNat = updateCount steps a + 1 ∧
    eventsOf steps a = d.history a (updateCount steps a)
  silent : ¬L.HasDid a → updateCount steps a = 0 ∧ eventsOf steps a = []

namespace Chronicled

variable {steps : List (Turn × List Bytes)} {entry : Turn × List Bytes} {a : Address}

theorem skip (hS : Sound P L) (h : Chronicled P steps L a)
    (hupdate : entry.1.updates a = false) (hevents : entry.2.filter (names a) = [])
    (hsame : ∀ d, Registered P L' a d ↔ Registered P L a d) :
    Chronicled P (steps ++ [entry]) L' a := by
  have hcount : updateCount (steps ++ [entry]) a = updateCount steps a := by
    simp [updateCount_singleton, hupdate]
  have hlog : eventsOf (steps ++ [entry]) a = eventsOf steps a := by
    simp [eventsOf_singleton, hevents]
  constructor
  · intro d hd
    rw [hcount, hlog]
    exact h.told d ((hsame d).mp hd)
  · intro hnone
    rw [hcount, hlog]
    apply h.silent
    intro hdid
    obtain ⟨d, hd⟩ := hS.exists_registered hdid
    exact hnone ((hsame d).mpr hd).toIsDid.hasDid

theorem create (hP : P.Lawful) {c : Call} {d : Document} {log : List Bytes}
    (h : Chronicled P steps L a) (hperforms : Performs P c L (.create a d) L' log) :
    Chronicled P (steps ++ [(.accepted c, log)]) L' a := by
  obtain ⟨hvacant, hd, bump, subject, key, now, -, rfl⟩ := hperforms.created hP
  have hnone : ¬L.HasDid a := by
    intro hdid
    exact programId_ne_systemProgram (hdid.1.symm.trans hvacant)
  obtain ⟨hcount, hevents⟩ := h.silent hnone
  have hupdate : ¬c.updates a = true := by
    rw [hperforms.updates_iff]
    intro ⟨d, op, d', ha⟩
    rcases ha with ha | ⟨buffer, kb, -, ha⟩ <;> cases ha
  constructor
  · intro d' hd'
    obtain rfl := hd'.toIsDid.unique hd.toIsDid
    have hlog : log.filter (names a) = [eventBytes didInitialized a subject 1] := by
      rw [hperforms.log_eq]
      simp [Effect.log, names_eventBytes, didInitialized, Document.initial]
    simp [updateCount_singleton, eventsOf_singleton, Turn.updates, hupdate, hcount, hevents, hlog,
      Document.history, Document.initial]
  · intro hgone
    exact absurd hd.toIsDid.hasDid hgone

theorem amend {c : Call} {e : Effect} {d d' : Document} {op : Op} {log : List Bytes}
    (h : Chronicled P steps L a) (hperforms : Performs P c L e L' log) (ha : e.Amends a d op d')
    (hbound : updateCount (steps ++ [(.accepted c, log)]) a + 1 < 2 ^ 64) :
    Chronicled P (steps ++ [(.accepted c, log)]) L' a := by
  obtain ⟨key, body, hamended⟩ := hperforms.amended ha
  obtain ⟨hversion, hevents⟩ := h.told d hamended.before
  obtain ⟨now, -, rfl⟩ := hamended.updated
  have hupdate : c.updates a = true := hperforms.updates_iff.mpr ⟨d, op, _, ha⟩
  have hcount : updateCount (steps ++ [(.accepted c, log)]) a = updateCount steps a + 1 := by
    simp [updateCount_singleton, Turn.updates, hupdate]
  have hlive : d.deactivated = 0 := hamended.authorized.1
  have hnext : saturatingSucc d.version = UInt64.ofNat (updateCount steps a + 2) :=
    saturatingSucc_eq hversion (by omega)
  have hevent : op.event =
      if (d.updated op body now).deactivated = 1 then didDeactivated else didModified := by
    unfold Document.updated Op.event
    rw [hlive]
    cases op <;> simp
  have hlog : log.filter (names a) = [eventBytes op.event a d.subject
      (UInt64.ofNat (updateCount steps a + 2))] := by
    rw [hperforms.log_of_amends ha, ← hnext]
    simp [names_eventBytes, op.length_event, Document.updated]
  constructor
  · intro d₁ hd₁
    obtain rfl := hd₁.toIsDid.unique hamended.after.toIsDid
    rw [hcount]
    constructor
    · change (saturatingSucc d.version).toNat = _
      rw [hnext, UInt64.toNat_ofNat', Nat.mod_eq_of_lt (by omega)]
    · have hhistory : (d.updated op body now).history a (updateCount steps a + 1) = _ :=
        Document.history_succ hlive rfl
      rw [eventsOf_append, eventsOf_singleton, hlog, hevents, hhistory, hevent]
  · intro hgone
    exact absurd hamended.after.toIsDid.hasDid hgone

theorem step (hP : P.Lawful) (hS : Sound P L) (h : Chronicled P steps L a)
    (hstep : Logs P L entry L') (hbound : updateCount (steps ++ [entry]) a + 1 < 2 ^ 64) :
    Chronicled P (steps ++ [entry]) L' a := by
  rcases hstep.cases hP hS with ⟨c, e, hturn, hperforms⟩ | ⟨hturn, hquiet, hlog⟩
  · obtain ⟨turn, log⟩ := entry
    obtain rfl : turn = .accepted c := hturn
    by_cases hcreate : ∃ d, e = .create a d
    · obtain ⟨d, rfl⟩ := hcreate
      exact h.create hP hperforms
    · push Not at hcreate
      cases hupdate : c.updates a with
      | true =>
        obtain ⟨d, op, d', ha⟩ := hperforms.updates_iff.mp hupdate
        exact h.amend hperforms ha hbound
      | false =>
        refine h.skip hS hupdate (hperforms.filter_log hcreate hupdate) ?_
        intro d
        exact hperforms.registered_iff hP hS hcreate hupdate
  · have hupdate : entry.1.updates a = false := by
      cases hkind : entry.1 with
      | accepted c => exact absurd hkind (hturn c)
      | refused c => rfl
      | outside => rfl
    apply h.skip hS hupdate
    · rw [hlog]
      rfl
    · intro d
      exact hquiet.registered_iff

end Chronicled

theorem chronicled_of_run (hP : P.Lawful) (h₀ : Fresh L₀) {steps : List (Turn × List Bytes)}
    (hrun : Run (Logs P) L₀ steps L) (a : Address) (hbound : updateCount steps a + 1 < 2 ^ 64) :
    Chronicled P steps L a := by
  refine hrun.trace (P := fun steps L => updateCount steps a + 1 < 2 ^ 64 →
    Chronicled P steps L a) ?_ ?_ hbound
  · intro steps L₁ step L₂ hrun₁ ih hstep hbound
    have hle : updateCount steps a + 1 < 2 ^ 64 := by
      rw [updateCount_append] at hbound
      omega
    exact (ih hle).step hP (sound_of_logs hP h₀ hrun₁) hstep hbound
  · intro _
    constructor
    · intro d hd
      exact absurd hd.owner (h₀ a)
    · intro _
      exact ⟨rfl, rfl⟩

/-! ### Single calls -/

/-- The event of an update. -/
def Call.event (c : Call) : Bytes :=
  if c.ix = some .deactivate then didDeactivated else didModified

/-- The call works on a key buffer alone. -/
def Call.Stages (c : Call) : Prop :=
  c.ix = some .createKeyBuffer ∨ c.ix = some .writeKeyBuffer ∨ c.ix = some .closeKeyBuffer

namespace Performs

variable {c : Call} {e : Effect} {log : List Bytes} {a : Address}

/-- An update logs what its account stores from then on. -/
theorem update_told (h : Performs P c L e L' log) (hupdate : c.updates a = true) :
    ∃ d, L'.DidAt P a d ∧ log = [eventBytes c.event a d.subject d.version] := by
  obtain ⟨d, op, d', ha⟩ := h.updates_iff.mp hupdate
  obtain ⟨key, body, hamended⟩ := h.amended ha
  have hevent : op.event = c.event := by
    unfold Call.event
    rcases hamended.ix with hix | ⟨hix, hadd⟩
    · rw [hix]
      cases op <;> rfl
    · rw [hix]
      cases op <;> cases hadd
      rfl
  refine ⟨d', hamended.after.didAt, ?_⟩
  rw [h.log_of_amends ha, hevent]

/-- Work on a buffer logs nothing and leaves every document alone. -/
theorem stages_silent (hP : P.Lawful) (hS : Sound P L) (h : Performs P c L e L' log)
    (hstages : c.Stages) :
    log = [] ∧ ∀ a d, Registered P L' a d ↔ Registered P L a d := by
  have hcreate (a : Address) (d : Document) : e ≠ .create a d := by
    rintro rfl
    obtain ⟨-, -, bump, subject, key, now, hfounds, -⟩ := h.created hP
    rcases hfounds.ix_cases with hix | hix <;> simp [Call.Stages, hix] at hstages
  have hupdate (a : Address) : c.updates a = false := by
    rcases hstages with hix | hix | hix <;> simp [Call.updates, hix, Ix.isUpdate]
  constructor
  · rw [h.log_eq]
    cases e with
    | create a d => exact absurd rfl (hcreate a d)
    | update a d op d' =>
      have hupdates : c.updates a = true := h.updates_iff.mpr ⟨d, op, d', Or.inl rfl⟩
      rw [hupdate] at hupdates
      cases hupdates
    | finish a d d' buffer kb =>
      have hupdates : c.updates a = true :=
        h.updates_iff.mpr ⟨d, _, d', Or.inr ⟨buffer, kb, rfl, rfl⟩⟩
      rw [hupdate] at hupdates
      cases hupdates
    | openBuffer buffer kb | writeBuffer buffer kb kb' chunk | closeBuffer buffer kb => rfl
  · intro a d
    exact h.registered_iff hP hS (hcreate a) (hupdate a)

end Performs

/-- What a call says of the DIDs, accepted or refused. -/
structure Reported (P : Platform) (L : Ledger) (c : Call) : Prop where
  updated : ∀ L' log, invoke P c L = .ok (L', log) → ∀ a, c.updates a = true →
    ∃ d, L'.DidAt P a d ∧ log = [eventBytes c.event a d.subject d.version]
  staged : ∀ L' log, invoke P c L = .ok (L', log) → c.Stages →
    log = [] ∧ ∀ a d, L'.DidAt P a d ↔ L.DidAt P a d
  refused : ∀ e m, processInstruction P c.sysvars programId c.accounts c.data ⟨L, []⟩ =
    .error e m → m.log = []

theorem Sound.reported (hP : P.Lawful) (hS : Sound P L) (c : Call) : Reported P L c := by
  constructor
  · intro L' log hc a hupdate
    obtain ⟨e, h⟩ := exists_performs hP hS hc
    exact h.update_told hupdate
  · intro L' log hc hstages
    obtain ⟨e, h⟩ := exists_performs hP hS hc
    obtain ⟨hlog, hsame⟩ := h.stages_silent hP hS hstages
    refine ⟨hlog, fun a d => ?_⟩
    constructor
    · intro hd
      exact ((hsame a d).mp ((h.sound hP hS).registered_of_didAt hd)).didAt
    · intro hd
      exact ((hsame a d).mpr (hS.registered_of_didAt hd)).didAt
  · intro e m h
    exact processInstruction_reports _ _ _ _ _ _ h

/-- The stored version counts the updates, and the events of an account are its creation and
then its updates, each with its version. -/
theorem events_tell_history (hP : P.Lawful) (h₀ : Fresh L₀) {steps : List (Turn × List Bytes)}
    (hrun : Run (Logs P) L₀ steps L) :
    (∀ a, updateCount steps a < 2 ^ 64 - 1 →
      (∀ d, L.DidAt P a d → d.version.toNat = 1 + updateCount steps a ∧
        eventsOf steps a = d.history a (updateCount steps a)) ∧
      (¬L.HasDid a → eventsOf steps a = [])) ∧
    ∀ c, Reported P L c := by
  have hS : Sound P L := sound_of_logs hP h₀ hrun
  refine ⟨?_, fun c => hS.reported hP c⟩
  intro a hbound
  have h : Chronicled P steps L a := chronicled_of_run hP h₀ hrun a (by omega)
  constructor
  · intro d hd
    obtain ⟨hversion, hevents⟩ := h.told d (hS.registered_of_didAt hd)
    exact ⟨by omega, hevents⟩
  · intro hnone
    exact (h.silent hnone).2

/-! ### Runs and their records -/

theorem Step.exists_logs {t : Turn} (h : Step P L t L') : ∃ records, Logs P L (t, records) L' := by
  cases h with
  | accepted h => exact ⟨_, .accepted h⟩
  | refused h =>
    unfold invoke at h
    split at h
    · cases h
    · rename_i m hm
      exact ⟨_, .refused hm⟩
  | outside h => exact ⟨_, .outside h⟩

theorem logs_of_run {turns : List Turn} (hrun : Run (Step P) L₀ turns L) :
    ∃ steps : List (Turn × List Bytes), steps.map Prod.fst = turns ∧ Run (Logs P) L₀ steps L := by
  refine hrun.trace (P := fun turns L => ∃ steps : List (Turn × List Bytes),
    steps.map Prod.fst = turns ∧ Run (Logs P) L₀ steps L) ?_ ?_
  · intro turns L₁ t L₂ _ ih hstep
    obtain ⟨steps, rfl, hrun₁⟩ := ih
    obtain ⟨records, hlogs⟩ := hstep.exists_logs
    exact ⟨steps ++ [(t, records)], by simp, hrun₁.snoc hlogs⟩
  · exact ⟨[], rfl, .start⟩

/-- A DID that was created and updated once. -/
theorem events_tell_history_sample : ∃ steps : List (Turn × List Bytes),
    steps.map Prod.fst =
      turnsOf Sample.platform [Sample.creation, Sample.protection] Sample.ledger ∧
    eventsOf steps Sample.did =
      [eventBytes didInitialized Sample.did Sample.subject 1,
        eventBytes didModified Sample.did Sample.subject 2] := by
  obtain ⟨steps, hturns, hrun⟩ := logs_of_run (P := Sample.platform)
    (run_of_calls [Sample.creation, Sample.protection] Sample.ledger)
  have hcount : updateCount steps Sample.did = 1 := by
    have hmap : updateCount steps Sample.did =
        (steps.map Prod.fst).countP (Turn.updates Sample.did) := by
      rw [List.countP_map]
      rfl
    rw [hmap, hturns]
    decide +kernel
  have hd : (afterAll Sample.platform [Sample.creation, Sample.protection] Sample.ledger).DidAt
      Sample.platform Sample.did Sample.protectedDocument := by decide +kernel
  obtain ⟨hhistory, -⟩ := (events_tell_history Sample.platform_lawful Sample.ledger_fresh hrun).1
    Sample.did (by rw [hcount]; decide)
  refine ⟨steps, hturns, ?_⟩
  rw [(hhistory _ hd).2, hcount]
  decide +kernel

end BioDidRegistry
