import BioDidRegistry.Properties.Events

/-!
# What a version says

The version of a document counts the updates it has seen and stops at the largest number.
Below that number it identifies the bytes: as long as an account shows the version it
showed before, it holds what it held before. The time in the document is what the clock
said at the last update.
-/

namespace BioDidRegistry

open Transition

variable {P : Platform} {L L' L₀ : Ledger} {turns : List Turn} {a : Address} {d d' : Document}

theorem toNat_saturatingSucc (v : UInt64) :
    (saturatingSucc v).toNat = min (v.toNat + 1) (2 ^ 64 - 1) := by
  have hlt := v.toNat_lt
  unfold saturatingSucc
  split_ifs with h
  · have hsum : (v + 1).toNat = (v.toNat + 1) % 2 ^ 64 := UInt64.toNat_add v 1
    rw [hsum, Nat.mod_eq_of_lt h]
    omega
  · omega

/-- The updates of `a` among the turns, oldest first. -/
def updatesOf (a : Address) (turns : List Turn) : List Turn := turns.filter (Turn.updates a)

theorem updatesOf_snoc (a : Address) (turns : List Turn) (t : Turn) :
    updatesOf a (turns ++ [t]) = updatesOf a turns ++ if t.updates a then [t] else [] := by
  rw [updatesOf, List.filter_append, List.filter_singleton]
  cases t.updates a <;> rfl

/-- What the turns have made of the document `d` of `a`, which is `d'` after them. -/
structure Aged (a : Address) (d : Document) (turns : List Turn) (d' : Document) : Prop where
  version : d'.version.toNat = min (d.version.toNat + (updatesOf a turns).length) (2 ^ 64 - 1)
  same : updatesOf a turns = [] → d' = d
  stamp : ∀ c, (updatesOf a turns).getLast? = some (.accepted c) →
    c.sysvars.clock = .ok d'.updatedAt

namespace Aged

theorem start (a : Address) (d : Document) : Aged a d [] d where
  version := by
    have hlt := d.version.toNat_lt
    rw [updatesOf, List.filter_nil, List.length_nil]
    omega
  same _ := rfl
  stamp c hc := by cases hc

theorem skip {t : Turn} (h : Aged a d turns d') (ht : t.updates a = false) :
    Aged a d (turns ++ [t]) d' := by
  have hsame : updatesOf a (turns ++ [t]) = updatesOf a turns := by
    rw [updatesOf_snoc, ht, if_neg Bool.false_ne_true, List.append_nil]
  exact ⟨hsame ▸ h.version, hsame ▸ h.same, hsame ▸ h.stamp⟩

theorem update {c : Call} {op : Op} {body : Body} {now : Int64} (h : Aged a d turns d')
    (hc : c.updates a = true) (hclock : c.sysvars.clock = .ok now) :
    Aged a d (turns ++ [.accepted c]) (d'.updated op body now) := by
  have hmore : updatesOf a (turns ++ [.accepted c]) = updatesOf a turns ++ [.accepted c] := by
    rw [updatesOf_snoc, Turn.updates, hc, if_pos rfl]
  refine ⟨?_, ?_, ?_⟩
  · change (saturatingSucc d'.version).toNat = _
    rw [toNat_saturatingSucc, h.version, hmore, List.length_append, List.length_singleton]
    omega
  · rw [hmore]
    simp
  · intro c' hc'
    rw [hmore, List.getLast?_concat] at hc'
    cases hc'
    exact hclock

/-- A version below the largest that has not moved belongs to the same document. -/
theorem eq_of_version (h : Aged a d turns d') (hlt : d.version.toNat < 2 ^ 64 - 1)
    (heq : d'.version = d.version) : d' = d := by
  apply h.same
  have hversion := h.version
  rw [heq] at hversion
  exact List.eq_nil_of_length_eq_zero (by omega)

end Aged

theorem aged_of_run (hP : P.Lawful) (hS : Sound P L) (hd : Registered P L a d)
    (hrun : Run (Step P) L turns L') : ∃ d', Registered P L' a d' ∧ Aged a d turns d' := by
  refine (hrun.trace (P := fun turns L' => Sound P L' ∧
    ∃ d', Registered P L' a d' ∧ Aged a d turns d') ?_ ⟨hS, d, hd, .start a d⟩).2
  rintro turns L₁ t L₂ - ⟨hS₁, d₁, hd₁, haged⟩ hstep
  refine ⟨hstep.sound hP hS₁, ?_⟩
  rcases hstep.cases hP hS₁ with ⟨c, e, log, rfl, h⟩ | ⟨hnone, hquiet⟩
  · cases hupdates : c.updates a with
    | true =>
      obtain ⟨d₀, op, d₂, ha⟩ := h.updates_iff.mp hupdates
      obtain ⟨key, body, hamended⟩ := h.amended ha
      obtain ⟨now, hclock, rfl⟩ := hamended.updated
      rw [hamended.before.toIsDid.unique hd₁.toIsDid] at hamended
      exact ⟨_, hamended.after, haged.update hupdates hclock⟩
    | false =>
      have hcreate : ∀ d, e ≠ .create a d := by
        rintro d rfl
        exact programId_ne_systemProgram (hd₁.owner.symm.trans (h.created hP).1)
      exact ⟨d₁, (h.registered_iff hP hS₁ hcreate hupdates).mpr hd₁, haged.skip hupdates⟩
  · have hupdates : t.updates a = false := by
      cases t with
      | accepted c => exact absurd rfl (hnone c)
      | refused c => rfl
      | outside => rfl
    exact ⟨d₁, hquiet.registered_iff.mpr hd₁, haged.skip hupdates⟩

/-- Over every run the version of a DID counts its updates, up to the largest number, and
its time is that of the last one. An account that shows the version it showed before, below
the largest, has not changed. -/
theorem version_identifies_document (hP : P.Lawful) (h₀ : Fresh L₀) {before : List Turn}
    (hbefore : Run (Step P) L₀ before L) (hrun : Run (Step P) L turns L')
    (hd : L.DidAt P a d) (hd' : L'.DidAt P a d') :
    d'.version.toNat = min (d.version.toNat + (updatesOf a turns).length) (2 ^ 64 - 1) ∧
    (∀ c, (updatesOf a turns).getLast? = some (.accepted c) →
      c.sysvars.clock = .ok d'.updatedAt) ∧
    (updatesOf a turns = [] → (L' a).data = (L a).data) ∧
    (d.version.toNat < 2 ^ 64 - 1 → d'.version = d.version → (L' a).data = (L a).data) := by
  have hS : Sound P L := sound_of_run hP h₀ hbefore
  have hS' : Sound P L' := sound_of_run hP h₀ (hbefore.trans hrun)
  have hreg : Registered P L a d := hS.registered_of_didAt hd
  obtain ⟨d₁, hd₁, haged⟩ := aged_of_run hP hS hreg hrun
  obtain rfl : d₁ = d' := hd₁.toIsDid.unique (hS'.registered_of_didAt hd').toIsDid
  have hdata (heq : d₁ = d) : (L' a).data = (L a).data := by
    rw [hd₁.data_eq, hreg.data_eq, heq]
  exact ⟨haged.version, haged.stamp, fun h => hdata (haged.same h),
    fun hlt heq => hdata (haged.eq_of_version hlt heq)⟩

/-- A created DID after one update and after none. -/
theorem version_identifies_document_sample :
    let L := afterAll Sample.platform [Sample.creation] Sample.ledger
    let L' := afterAll Sample.platform [Sample.protection] L
    L.DidAt Sample.platform Sample.did Sample.document ∧
      L'.DidAt Sample.platform Sample.did Sample.protectedDocument ∧
      Sample.protectedDocument.version.toNat = min (Sample.document.version.toNat +
        (updatesOf Sample.did (turnsOf Sample.platform [Sample.protection] L)).length)
          (2 ^ 64 - 1) ∧
      Sample.protectedDocument.version ≠ Sample.document.version := by
  intro L L'
  have hd : L.DidAt Sample.platform Sample.did Sample.document := by decide +kernel
  have hd' : L'.DidAt Sample.platform Sample.did Sample.protectedDocument := by decide +kernel
  have hversion := (version_identifies_document Sample.platform_lawful Sample.ledger_fresh
    (run_of_calls [Sample.creation] Sample.ledger) (run_of_calls [Sample.protection] L) hd hd').1
  exact ⟨hd, hd', hversion, by decide +kernel⟩

end BioDidRegistry
