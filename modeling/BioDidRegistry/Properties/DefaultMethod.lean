import BioDidRegistry.Document.Authority
import BioDidRegistry.Properties.Founding

/-!
# The founding method's name

`#default` is the name of the founding method. A document has at most one method of that
name, with the founding key, and no service of that name, and a document that has lost
it never has one again.
-/

namespace BioDidRegistry

open Transition

variable {P : Platform} {L L' L₀ : Ledger} {turns : List Turn}

/-- The DID at `a` was founded for `d.subject`, and the name is its founding key's. -/
def Document.NamesFounder (P : Platform) (turns : List Turn) (a : Address) (d : Document) : Prop :=
  ∃ c key, .accepted c ∈ turns ∧ c.creates a = true ∧ c.Founds P d.subject key ∧
    d.body.DefaultOnly key

theorem namesFounder_of_run (hP : P.Lawful) (h₀ : Fresh L₀) (hrun : Run (Step P) L₀ turns L) :
    ∀ a d, Registered P L a d → d.NamesFounder P turns a := by
  refine documents_of_run hP (Q := fun turns a d => d.NamesFounder P turns a) h₀ hrun ?_ ?_ ?_
  · intro turns t a d ⟨c, key, hc, hrest⟩
    exact ⟨c, key, List.mem_append_left _ hc, hrest⟩
  · intro turns c L₁ L₂ log a d h
    obtain ⟨-, -, bump, subject, key, now, hfounds, rfl⟩ := h.created hP
    refine ⟨c, key, by simp, h.creates_iff.mpr ⟨_, rfl⟩, hfounds, ?_, ?_⟩
    · intro svc hsvc
      cases hsvc
    · intro m hm _
      rw [List.mem_singleton.mp hm]
      exact ⟨rfl, rfl⟩
  · intro turns c L₁ L₂ a d op d' signer body hamended ⟨c₀, key, hc₀, hcreates, hfounds, hnames⟩
    obtain ⟨now, -, rfl⟩ := hamended.updated
    exact ⟨c₀, key, List.mem_append_left _ hc₀, hcreates, hfounds, hnames.apply hamended.applied⟩

def Document.DefaultFree (d : Document) : Prop :=
  ∀ m ∈ d.body.methods, m.fragment ≠ defaultFragment

theorem Step.keeps_defaultFree (hP : P.Lawful) (hS : Sound P L) {t : Turn} {a : Address}
    {d : Document} (h : Step P L t L') (hd : Registered P L a d) (hfree : d.DefaultFree) :
    ∃ d', Registered P L' a d' ∧ d'.DefaultFree := by
  rcases h.cases hP hS with ⟨c, e, log, -, hperforms⟩ | ⟨-, hquiet⟩
  · rcases hperforms.did_cases hd with hsame | ⟨op, d', ha⟩
    · exact ⟨d, hd.of_same (hperforms.frame hsame), hfree⟩
    · obtain ⟨key, body, hamended⟩ := hperforms.amended ha
      obtain ⟨now, -, rfl⟩ := hamended.updated
      exact ⟨_, hamended.after, Body.default_free_of_apply hamended.applied hfree⟩
  · exact ⟨d, hquiet.registered_iff.mpr hd, hfree⟩

theorem Registered.run_defaultFree (hP : P.Lawful) (hS : Sound P L) {later : List Turn}
    {a : Address} {d : Document} (hd : Registered P L a d) (hfree : d.DefaultFree)
    (hrun : Run (Step P) L later L') : ∃ d', Registered P L' a d' ∧ d'.DefaultFree := by
  have hkept := hrun.invariant (P := fun L => Sound P L ∧
    ∃ d, Registered P L a d ∧ d.DefaultFree) ?_ ⟨hS, d, hd, hfree⟩
  · exact hkept.2
  · intro L₁ t L₂ ⟨hS₁, d₁, hd₁, hfree₁⟩ hstep
    exact ⟨hstep.sound hP hS₁, hstep.keeps_defaultFree hP hS₁ hd₁ hfree₁⟩

/-- `#default` names the founding key and nothing else, and once no method has the name
none ever has it again. -/
theorem default_names_founding_key (hP : P.Lawful) (h₀ : Fresh L₀)
    (hrun : Run (Step P) L₀ turns L) :
    (∀ a d, L.DidAt P a d →
      (∀ svc ∈ d.body.services, svc.fragment ≠ defaultFragment) ∧
      (d.body.methods.countP fun m => m.fragment == defaultFragment) ≤ 1 ∧
      turns.countP (Turn.creates a) = 1 ∧
      ∃ c key, .accepted c ∈ turns ∧ c.creates a = true ∧ c.Founds P d.subject key ∧
        ∀ m ∈ d.body.methods, m.fragment = defaultFragment →
          m.methodType = vmTypeEd25519 ∧ m.key = key.val) ∧
    ∀ a d later L' d', L.DidAt P a d → (∀ m ∈ d.body.methods, m.fragment ≠ defaultFragment) →
      Run (Step P) L later L' → L'.DidAt P a d' →
      ∀ m ∈ d'.body.methods, m.fragment ≠ defaultFragment := by
  have hS : Sound P L := sound_of_run hP h₀ hrun
  refine ⟨?_, ?_⟩
  · intro a d hd
    have hd₀ := hS.registered_of_didAt hd
    obtain ⟨c, key, hc, hcreates, hfounds, hservices, hmethods⟩ :=
      namesFounder_of_run hP h₀ hrun a d hd₀
    refine ⟨hservices, ?_, ?_, c, key, hc, hcreates, hfounds, hmethods⟩
    · have hnodup : (d.body.methods.map Method.fragment).Nodup :=
        (List.nodup_append.mp hd₀.wellFormed.body.fragments).1
      calc d.body.methods.countP (fun m => m.fragment == defaultFragment)
          = (d.body.methods.map Method.fragment).count defaultFragment := by
            rw [List.count, List.countP_map]
            rfl
        _ ≤ 1 := List.nodup_iff_count_le_one.mp hnodup _
    · rw [countP_creates hP h₀ hrun a, if_pos hd.1]
  · intro a d later L' d' hd hfree hlater hd'
    obtain ⟨d₁, hd₁, hfree₁⟩ := (hS.registered_of_didAt hd).run_defaultFree hP hS hfree hlater
    have hS' : Sound P L' := sound_of_run hP h₀ (hrun.trans hlater)
    obtain rfl : d₁ = d' := hd₁.toIsDid.unique (hS'.registered_of_didAt hd').toIsDid
    exact hfree₁

namespace Sample

def rotation : Call :=
  send (Client.removeVerificationMethod platform payer subject subject defaultFragment)

/-- Asks for a method of that name again. -/
def restoration : Call :=
  send (Client.addVerificationMethod platform payer subject subject defaultFragment vmTypeEd25519
    vmFlagsDefault subject.val)

def rotatedDocument : Document :=
  { protectedDocument with
    body := { protectedDocument.body with methods := protectedDocument.body.methods.drop 1 }
    version := 3 }

end Sample

/-- The founding key moves to another method, and the name of the first is not given again. -/
theorem default_names_founding_key_sample :
    let L := afterAll Sample.platform [Sample.creation, Sample.protection] Sample.ledger
    let L₁ := afterAll Sample.platform [Sample.creation, Sample.protection, Sample.rotation]
      Sample.ledger
    let L₂ := afterAll Sample.platform [Sample.restoration, Sample.opening, Sample.writing] L₁
    L.DidAt Sample.platform Sample.did Sample.protectedDocument ∧
    (∃ (c : Call) (key : Address), c.creates Sample.did = true ∧
      c.Founds Sample.platform Sample.subject key ∧
      ∀ m ∈ Sample.protectedDocument.body.methods, m.fragment = defaultFragment →
        m.methodType = vmTypeEd25519 ∧ m.key = key.val) ∧
    L₁.DidAt Sample.platform Sample.did Sample.rotatedDocument ∧
    ∀ d, L₂.DidAt Sample.platform Sample.did d →
      ∀ m ∈ d.body.methods, m.fragment ≠ defaultFragment := by
  intro L L₁ L₂
  have hd : L.DidAt Sample.platform Sample.did Sample.protectedDocument := by decide +kernel
  have hd₁ : L₁.DidAt Sample.platform Sample.did Sample.rotatedDocument := by decide +kernel
  obtain ⟨-, -, -, c, key, -, hcreates, hfounds, hmethods⟩ :=
    (default_names_founding_key Sample.platform_lawful Sample.ledger_fresh
      (run_of_calls [Sample.creation, Sample.protection] Sample.ledger)).1 _ _ hd
  refine ⟨hd, ⟨c, key, hcreates, hfounds, hmethods⟩, hd₁, fun d hd₂ => ?_⟩
  exact (default_names_founding_key Sample.platform_lawful Sample.ledger_fresh
    (run_of_calls [Sample.creation, Sample.protection, Sample.rotation] Sample.ledger)).2
      Sample.did Sample.rotatedDocument _ L₂ d hd₁ (by decide) (run_of_calls _ _) hd₂

end BioDidRegistry
