import BioDidRegistry.Foundation.Registers
import BioDidRegistry.Properties.Versions
import BioDidRegistry.Registry.Builders

/-!
# Who follows the log

The events are written for indexers. A follower reads the records it receives and keeps, for
every account, what the record of the highest version says. The complete log in its order
shows exactly the DIDs there are. From whatever part of it a follower receives, in whatever
order and however often, what it shows has been true, and it is true now for an account of
which it has received the present version.
-/

namespace BioDidRegistry

open BinaryFormat Cursor Reader Transition

variable {P : Platform} {L L' L₀ : Ledger} {steps : List (Turn × List Bytes)}

/-! ### Records -/

inductive Event
  | initialized
  | modified
  | deactivated
  deriving DecidableEq

def Event.discriminator : Event → Block 8
  | initialized => ⟨didInitialized, rfl⟩
  | modified => ⟨didModified, rfl⟩
  | deactivated => ⟨didDeactivated, rfl⟩

def Event.ofDiscriminator (discriminator : Block 8) : Option Event :=
  [initialized, modified, deactivated].find? fun event => event.discriminator == discriminator

theorem Event.ofDiscriminator_eq_some_iff {discriminator : Block 8} {event : Event} :
    ofDiscriminator discriminator = some event ↔ discriminator = event.discriminator := by
  constructor
  · intro h
    rw [ofDiscriminator] at h
    have hfound := List.find?_some h
    exact (beq_iff_eq.mp hfound).symm
  · rintro rfl
    cases event <;> decide

/-- What an event says: the DID's account, its subject and the version it has now. -/
structure Record where
  event : Event
  didAccount : Address
  subject : Address
  version : UInt64

namespace Record

def encode (r : Record) : Bytes :=
  eventBytes r.event.discriminator.val r.didAccount r.subject r.version

def readFields : Read .account (Block 8 × Address × Address × UInt64) := do
  let discriminator ← array 8
  let didAccount ← array 32
  let subject ← array 32
  let version ← u64
  pure (discriminator, didAccount, subject, version)

theorem readFields_reads : Reads readFields (fun a : Block 8 × Address × Address × UInt64 =>
    eventBytes a.1.val a.2.1 a.2.2.1 a.2.2.2) fun _ => True := by
  intro r a r'
  simp only [readFields, (array_reads 8).bind_ok_iff, (array_reads 32).bind_ok_iff,
    u64_reads.bind_ok_iff, pure_ok_iff, eventBytes, u64Bytes, append_prefix_iff, cursor_rest,
    rest_skip, true_and, advance_advance, List.length_append]
  constructor
  · rintro ⟨discriminator, hd, didAccount, ha, subject, hs, version, hv, rfl, rfl⟩
    exact ⟨⟨⟨⟨hd, ha⟩, hs⟩, hv⟩, rfl⟩
  · rintro ⟨⟨⟨⟨hd, ha⟩, hs⟩, hv⟩, rfl⟩
    exact ⟨_, hd, _, ha, _, hs, _, hv, rfl, rfl⟩

/-- A record as a follower reads it. Records of other programs are skipped. -/
def parse (bytes : Bytes) : Option Record := do
  let (discriminator, didAccount, subject, version) ←
    (eval (whole readFields) (new .account bytes)).toOption
  let event ← Event.ofDiscriminator discriminator
  pure ⟨event, didAccount, subject, version⟩

theorem parse_eq_some_iff {bytes : Bytes} {r : Record} :
    parse bytes = some r ↔ bytes = r.encode := by
  have hfields (a : Block 8 × Address × Address × UInt64) :
      (eval (whole readFields) (new .account bytes)).toOption = some a ↔
        bytes = eventBytes a.1.val a.2.1 a.2.2.1 a.2.2.2 := by
    rw [except_toOption_eq_some_iff, whole_ok_iff readFields_reads, and_true]
  constructor
  · intro h
    obtain ⟨a, ha, hrest⟩ := Option.bind_eq_some_iff.mp h
    obtain ⟨event, hevent, hr⟩ := Option.bind_eq_some_iff.mp hrest
    cases hr
    rw [(hfields a).mp ha, Event.ofDiscriminator_eq_some_iff.mp hevent, encode]
  · intro h
    refine Option.bind_eq_some_iff.mpr
      ⟨(r.event.discriminator, r.didAccount, r.subject, r.version), (hfields _).mpr h, ?_⟩
    exact Option.bind_eq_some_iff.mpr ⟨r.event, Event.ofDiscriminator_eq_some_iff.mpr rfl, rfl⟩

@[simp] theorem parse_encode (r : Record) : parse r.encode = some r := parse_eq_some_iff.mpr rfl

end Record

/-! ### What a follower shows -/

/-- What is known of a DID without its document. -/
structure Entry where
  subject : Address
  version : UInt64
  live : Bool
  deriving DecidableEq

def Record.entry (r : Record) : Entry := ⟨r.subject, r.version, r.event != .deactivated⟩

def Document.entry (d : Document) : Entry := ⟨d.subject, d.version, d.deactivated == 0⟩

/-- The highest version received of each account. -/
def follow (log : List Bytes) : Address → Option Entry :=
  Registers.replay (fun e => e.version.toNat)
    ((log.filterMap Record.parse).map fun r => (r.didAccount, r.entry))

/-- All records of the steps, in order. -/
def logOf (steps : List (Turn × List Bytes)) : List Bytes := steps.flatMap Prod.snd

/-- The account at `a` is a DID of which `e` is true. -/
def Ledger.Lists (P : Platform) (L : Ledger) (a : Address) (e : Entry) : Prop :=
  ∃ d, L.DidAt P a d ∧ d.entry = e

theorem follow_concat (log : List Bytes) (r : Record) : follow (log ++ [r.encode]) =
    Registers.put (fun e => e.version.toNat) (follow log) (r.didAccount, r.entry) := by
  simp [follow, Registers.replay_concat]

theorem exists_of_follow {log : List Bytes} {a : Address} {e : Entry}
    (h : follow log a = some e) :
    ∃ r : Record, r.encode ∈ log ∧ r.didAccount = a ∧ r.entry = e := by
  obtain ⟨r, hr, hentry⟩ := List.mem_map.mp (Registers.mem_of_replay h)
  obtain ⟨bytes, hbytes, hparse⟩ := List.mem_filterMap.mp hr
  obtain rfl := Record.parse_eq_some_iff.mp hparse
  cases hentry
  exact ⟨r, hbytes, rfl, rfl⟩

theorem follow_eq_some {log : List Bytes} {r : Record} (hr : r.encode ∈ log)
    (hgreatest : ∀ r' : Record, r'.encode ∈ log → r'.didAccount = r.didAccount →
      r'.version.toNat ≤ r.version.toNat ∧ (r'.version = r.version → r'.entry = r.entry)) :
    follow log r.didAccount = some r.entry := by
  refine Registers.replay_eq_some (List.mem_map.mpr ⟨r, ?_, rfl⟩) fun e he => ?_
  · exact List.mem_filterMap.mpr ⟨r.encode, hr, r.parse_encode⟩
  · obtain ⟨r', hr', hentry⟩ := List.mem_map.mp he
    obtain ⟨bytes, hbytes, hparse⟩ := List.mem_filterMap.mp hr'
    obtain rfl := Record.parse_eq_some_iff.mp hparse
    obtain ⟨hsame, rfl⟩ := Prod.mk.inj hentry
    obtain ⟨hle, hunique⟩ := hgreatest r' hbytes hsame
    exact ⟨hle, fun heq => hunique (UInt64.toNat_inj.mp heq)⟩

/-! ### What a step records -/

def Op.kind : Op → Event
  | deactivate => .deactivated
  | _ => .modified

theorem Op.event_eq (op : Op) : op.event = op.kind.discriminator.val := by cases op <;> rfl

theorem Effect.Amends.unique {e : Effect} {a b : Address} {d d₁ d' d₁' : Document} {op op' : Op}
    (h : e.Amends a d op d') (h' : e.Amends b d₁ op' d₁') : a = b := by
  rcases h with rfl | ⟨buffer, kb, -, rfl⟩ <;> rcases h' with h' | ⟨buffer', kb', -, h'⟩ <;>
    cases h' <;> rfl

/-- The step leaves one record, of the DID that it changed to `d`. -/
structure Recorded (P : Platform) (L L' : Ledger) (records : List Bytes) (r : Record)
    (d : Document) : Prop where
  records_eq : records = [r.encode]
  after : Registered P L' r.didAccount d
  entry : r.entry = d.entry
  newer : ∀ d₀, Registered P L r.didAccount d₀ → d₀.version.toNat ≤ d.version.toNat
  others : ∀ b, b ≠ r.didAccount → ∀ d, Registered P L' b d ↔ Registered P L b d

namespace Performs

variable {c : Call} {log : List Bytes} {a : Address} {d d' : Document}

theorem recorded_create (hP : P.Lawful) (h : Performs P c L (.create a d) L' log) :
    Recorded P L L' log ⟨.initialized, a, d.subject, d.version⟩ d := by
  obtain ⟨hvacant, hd, bump, subject, key, now, -, rfl⟩ := h.created hP
  refine ⟨h.log_eq, hd, rfl, fun d₀ hd₀ => ?_, fun b hb d => ?_⟩
  · exact absurd rfl (hd₀.toIsDid.owner_ne hvacant)
  · exact h.registered_iff_of_untouched (mt List.mem_singleton.mp hb)

theorem recorded_amend (hP : P.Lawful) (hS : Sound P L) {e : Effect} {op : Op}
    (h : Performs P c L e L' log) (ha : e.Amends a d op d') :
    Recorded P L L' log ⟨op.kind, a, d'.subject, d'.version⟩ d' := by
  obtain ⟨key, body, hamended⟩ := h.amended ha
  obtain ⟨now, -, rfl⟩ := hamended.updated
  have hlive : d.deactivated = 0 := hamended.authorized.1
  refine ⟨?_, hamended.after, ?_, fun d₀ hd₀ => ?_, fun b hb d₁ => ?_⟩
  · rw [h.log_of_amends ha, op.event_eq, Record.encode]
  · have hkind : (op.kind != .deactivated) = ((d.updated op body now).deactivated == 0) := by
      unfold Document.updated
      rw [hlive]
      cases op <;> rfl
    rw [Record.entry, Document.entry, hkind]
  · rw [hd₀.toIsDid.unique hamended.before.toIsDid]
    change d.version.toNat ≤ (saturatingSucc d.version).toNat
    have hlt := d.version.toNat_lt
    rw [toNat_saturatingSucc]
    omega
  · have hcreate (d₀ : Document) : e ≠ .create b d₀ := by
      rintro rfl
      rcases ha with ha | ⟨buffer, kb, -, ha⟩ <;> cases ha
    have hupdate : c.updates b = false := by
      rw [Bool.eq_false_iff]
      intro hupdates
      obtain ⟨d₀, op', d₀', ha'⟩ := h.updates_iff.mp hupdates
      exact hb (ha'.unique ha)
    exact h.registered_iff hP hS hcreate hupdate

theorem stages {e : Effect} (h : Performs P c L e L' log) (hcreate : ∀ a d, e ≠ .create a d)
    (hamends : ∀ a d op d', ¬e.Amends a d op d') : c.Stages := by
  cases h with
  | create => exact absurd rfl (hcreate _ _)
  | update => exact absurd (Or.inl rfl) (hamends _ _ _ _)
  | finish => exact absurd (Or.inr ⟨_, _, rfl, rfl⟩) (hamends _ _ _ _)
  | openBuffer ix => exact Or.inl ix
  | writeBuffer ix => exact Or.inr (Or.inl ix)
  | closeBuffer ix => exact Or.inr (Or.inr ix)

end Performs

/-- A step leaves one record of what it did, or none and every DID as it was. -/
theorem Logs.recorded (hP : P.Lawful) (hS : Sound P L) {step : Turn × List Bytes}
    (h : Logs P L step L') : (∃ r d, Recorded P L L' step.2 r d) ∨
      (step.2 = [] ∧ ∀ a d, Registered P L' a d ↔ Registered P L a d) := by
  rcases h.cases hP hS with ⟨c, e, -, h⟩ | ⟨-, hquiet, hnone⟩
  · cases e with
    | create a d => exact Or.inl ⟨_, d, h.recorded_create hP⟩
    | update a d op d' => exact Or.inl ⟨_, d', h.recorded_amend hP hS (Or.inl rfl)⟩
    | finish a d d' buffer kb =>
      exact Or.inl ⟨_, d', h.recorded_amend hP hS (Or.inr ⟨buffer, kb, rfl, rfl⟩)⟩
    | openBuffer | writeBuffer | closeBuffer =>
      refine Or.inr (h.stages_silent hP hS (h.stages (fun a d => by simp) fun a d op d' => ?_))
      simp [Effect.Amends]
  · exact Or.inr ⟨hnone, fun a d => hquiet.registered_iff⟩

/-! ### Runs -/

theorem logOf_concat (steps : List (Turn × List Bytes)) (step : Turn × List Bytes) :
    logOf (steps ++ [step]) = logOf steps ++ step.2 := by
  simp [logOf]

/-- The complete log shows the DIDs there are. -/
theorem follow_of_logs (hP : P.Lawful) (h₀ : Fresh L₀) (hrun : Run (Logs P) L₀ steps L)
    (a : Address) (e : Entry) :
    follow (logOf steps) a = some e ↔ ∃ d, Registered P L a d ∧ d.entry = e := by
  refine hrun.trace (P := fun steps L => ∀ a e, follow (logOf steps) a = some e ↔
    ∃ d, Registered P L a d ∧ d.entry = e) ?_ ?_ a e
  · intro steps L₁ step L₂ hrun₁ ih hstep a e
    rw [logOf_concat]
    rcases hstep.recorded hP (sound_of_logs hP h₀ hrun₁) with ⟨r, d, h⟩ | ⟨hnone, hsame⟩
    · rw [h.records_eq, follow_concat]
      by_cases ha : a = r.didAccount
      · subst ha
        have hnewer (e₀ : Entry) (he₀ : follow (logOf steps) r.didAccount = some e₀) :
            e₀.version.toNat ≤ r.entry.version.toNat := by
          obtain ⟨d₀, hd₀, rfl⟩ := (ih _ _).mp he₀
          rw [h.entry]
          exact h.newer d₀ hd₀
        rw [Registers.put_self hnewer, h.entry, Option.some.injEq]
        constructor
        · rintro rfl
          exact ⟨d, h.after, rfl⟩
        · rintro ⟨d', hd', rfl⟩
          rw [hd'.toIsDid.unique h.after.toIsDid]
      · rw [Registers.put_of_ne ha, ih]
        simp only [h.others a ha]
    · rw [hnone, List.append_nil, ih]
      simp only [hsame]
  · intro a e
    constructor
    · intro h
      cases h
    · rintro ⟨d, hd, -⟩
      exact absurd hd.owner (h₀ a)

/-- What a record says was true when it was written. -/
theorem exists_state_of_record (hP : P.Lawful) (h₀ : Fresh L₀) (hrun : Run (Logs P) L₀ steps L)
    (r : Record) (hr : r.encode ∈ logOf steps) : ∃ before after L₁, steps = before ++ after ∧
      Run (Logs P) L₀ before L₁ ∧ Run (Logs P) L₁ after L ∧
      ∃ d, Registered P L₁ r.didAccount d ∧ d.entry = r.entry := by
  refine hrun.trace (P := fun steps L => r.encode ∈ logOf steps →
    ∃ before after L₁, steps = before ++ after ∧ Run (Logs P) L₀ before L₁ ∧
      Run (Logs P) L₁ after L ∧ ∃ d, Registered P L₁ r.didAccount d ∧ d.entry = r.entry) ?_ ?_ hr
  · intro steps L₁ step L₂ hrun₁ ih hstep hmem
    rw [logOf_concat, List.mem_append] at hmem
    rcases hmem with hold | hnew
    · obtain ⟨before, after, L₃, rfl, hbefore, hafter, hd⟩ := ih hold
      exact ⟨before, after ++ [step], L₃, by simp, hbefore, hafter.snoc hstep, hd⟩
    · rcases hstep.recorded hP (sound_of_logs hP h₀ hrun₁) with ⟨r', d, h⟩ | ⟨hnone, -⟩
      · rw [h.records_eq, List.mem_singleton] at hnew
        have hsame : some r = some r' := by rw [← r.parse_encode, hnew, r'.parse_encode]
        cases hsame
        exact ⟨steps ++ [step], [], L₂, by simp, hrun₁.snoc hstep, .start, d, h.after,
          h.entry.symm⟩
      · rw [hnone] at hnew
        cases hnew
  · intro hmem
    cases hmem

/-- No record of an account is newer than its document, and one of the same version says what
the document says. -/
theorem Registered.records_le (hP : P.Lawful) (h₀ : Fresh L₀) (hrun : Run (Logs P) L₀ steps L)
    {a : Address} {d : Document} (hd : Registered P L a d) (hbound : d.version.toNat < 2 ^ 64 - 1)
    {r : Record} (hr : r.encode ∈ logOf steps) (ha : r.didAccount = a) :
    r.version.toNat ≤ d.version.toNat ∧ (r.version = d.version → r.entry = d.entry) := by
  subst ha
  obtain ⟨before, after, L₁, -, hbefore, hafter, d₁, hd₁, hentry⟩ :=
    exists_state_of_record hP h₀ hrun r hr
  have hsteps : Run (Step P) L₁ (after.map Prod.fst) L := hafter.map fun _ _ _ h => h.step
  obtain ⟨d', hd', haged⟩ := aged_of_run hP (sound_of_logs hP h₀ hbefore) hd₁ hsteps
  obtain rfl := hd'.toIsDid.unique hd.toIsDid
  have hversion : d₁.version = r.version := congrArg Entry.version hentry
  have hle : d₁.version.toNat ≤ d'.version.toNat := by
    have hlt := d₁.version.toNat_lt
    rw [haged.version]
    omega
  refine ⟨hversion ▸ hle, fun hsame => ?_⟩
  rw [← hentry, haged.eq_of_version (by omega) (hversion.trans hsame).symm]

/-- The complete log shows exactly the DIDs there are. Of whatever a follower has received of
it, it shows only what has been true, and of an account whose present version it has received
what is true now. -/
theorem followers_see_the_registry (hP : P.Lawful) (h₀ : Fresh L₀)
    (hrun : Run (Logs P) L₀ steps L) :
    (∀ a e, follow (logOf steps) a = some e ↔ L.Lists P a e) ∧
    ∀ received, received ⊆ logOf steps → ∀ a,
      (∀ e, follow received a = some e → ∃ before after L₁, steps = before ++ after ∧
        Run (Logs P) L₀ before L₁ ∧ Run (Logs P) L₁ after L ∧ L₁.Lists P a e) ∧
      ∀ d, L.DidAt P a d → d.version.toNat < 2 ^ 64 - 1 →
        (∃ r : Record, r.encode ∈ received ∧ r.didAccount = a ∧ r.version = d.version) →
        follow received a = some d.entry := by
  have hS : Sound P L := sound_of_logs hP h₀ hrun
  refine ⟨fun a e => ?_, fun received hreceived a => ⟨fun e he => ?_, ?_⟩⟩
  · rw [follow_of_logs hP h₀ hrun]
    constructor
    · rintro ⟨d, hd, rfl⟩
      exact ⟨d, hd.didAt, rfl⟩
    · rintro ⟨d, hd, rfl⟩
      exact ⟨d, hS.registered_of_didAt hd, rfl⟩
  · obtain ⟨r, hr, rfl, rfl⟩ := exists_of_follow he
    obtain ⟨before, after, L₁, hsteps, hbefore, hafter, d, hd, hentry⟩ :=
      exists_state_of_record hP h₀ hrun r (hreceived hr)
    exact ⟨before, after, L₁, hsteps, hbefore, hafter, d, hd.didAt, hentry⟩
  · rintro d hd hbound ⟨r, hr, rfl, hversion⟩
    have hrecords {r' : Record} (hr' : r'.encode ∈ received) (ha : r'.didAccount = r.didAccount) :
        r'.version.toNat ≤ d.version.toNat ∧ (r'.version = d.version → r'.entry = d.entry) :=
      (hS.registered_of_didAt hd).records_le hP h₀ hrun hbound (hreceived hr') ha
    have hentry : r.entry = d.entry := (hrecords hr rfl).2 hversion
    rw [← hentry]
    refine follow_eq_some hr fun r' hr' ha => ?_
    rw [hversion, hentry]
    exact hrecords hr' ha

def Sample.records : Record × Record :=
  (⟨.initialized, did, subject, 1⟩, ⟨.modified, did, subject, 2⟩)

/-- A follower receives the second record twice, and the first one late. -/
theorem followers_see_the_registry_sample : ∃ steps L,
    Run (Logs Sample.platform) Sample.ledger steps L ∧
    logOf steps = [Sample.records.1.encode, Sample.records.2.encode] ∧
    follow [Sample.records.2.encode, Sample.records.1.encode, Sample.records.2.encode] Sample.did =
      some Sample.protectedDocument.entry := by
  let L := after Sample.platform Sample.creation Sample.ledger
  obtain ⟨first, hcreated⟩ := invoke_after (P := Sample.platform) (L := Sample.ledger)
    (c := Sample.creation) (by decide +kernel)
  obtain ⟨second, hupdated⟩ := invoke_after (P := Sample.platform) (L := L)
    (c := Sample.protection) (by decide +kernel)
  have hfirst : (invoke Sample.platform Sample.creation Sample.ledger).toOption.map Prod.snd =
      some [Sample.records.1.encode] := by decide +kernel
  have hsecond : (invoke Sample.platform Sample.protection L).toOption.map Prod.snd =
      some [Sample.records.2.encode] := by decide +kernel
  rw [hcreated] at hfirst
  rw [hupdated] at hsecond
  obtain rfl : first = [Sample.records.1.encode] := Option.some.inj hfirst
  obtain rfl : second = [Sample.records.2.encode] := Option.some.inj hsecond
  have hbefore : Run (Logs Sample.platform) Sample.ledger ([] ++ [_]) L :=
    Run.start.snoc (.accepted hcreated)
  have hrun := hbefore.snoc (.accepted hupdated)
  have hd : (after Sample.platform Sample.protection L).DidAt Sample.platform Sample.did
      Sample.protectedDocument := by decide +kernel
  have hreceived : [Sample.records.2.encode, Sample.records.1.encode, Sample.records.2.encode] ⊆
      [Sample.records.1.encode, Sample.records.2.encode] := by simp
  obtain ⟨-, hnow⟩ := (followers_see_the_registry Sample.platform_lawful Sample.ledger_fresh
    hrun).2 _ hreceived Sample.did
  exact ⟨_, _, hrun, rfl, hnow _ hd (by decide) ⟨Sample.records.2, by simp, rfl, by decide⟩⟩

end BioDidRegistry
