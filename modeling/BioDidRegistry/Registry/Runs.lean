import BioDidRegistry.Foundation.Runs
import BioDidRegistry.Registry.Frame

/-!
# Runs

A run is a sequence of calls of the program, accepted or refused, between which
other programs do what they like with their own accounts. A run that starts on a
ledger without accounts of the program stays sound, so each of its accepted calls
has one of the six effects.
-/

namespace BioDidRegistry

open Transition

variable {P : Platform} {L L' : Ledger}

/-- The account at `a` is of the program and begins as a `DidAccount`. -/
def Ledger.HasDid (L : Ledger) (a : Address) : Prop :=
  (L a).owner = programId ∧ (L a).data.take 8 = accountDiscriminator

/-- The account at `a` is of the program and begins as a `KeyBuffer`. -/
def Ledger.HasBuffer (L : Ledger) (a : Address) : Prop :=
  (L a).owner = programId ∧ (L a).data.take 8 = keyBufferDiscriminator

instance (L : Ledger) (a : Address) : Decidable (L.HasDid a) :=
  inferInstanceAs (Decidable (_ ∧ _))

instance (L : Ledger) (a : Address) : Decidable (L.HasBuffer a) :=
  inferInstanceAs (Decidable (_ ∧ _))

/-- The ledger holds no account of the program. -/
def Fresh (L : Ledger) : Prop := ∀ a, (L a).owner ≠ programId

/-- The accounts of the program are the same, with the same data and no fewer lamports. -/
structure Quiet (L L' : Ledger) : Prop where
  owner_iff : ∀ a, (L' a).owner = programId ↔ (L a).owner = programId
  data : ∀ a, (L a).owner = programId → (L' a).data = (L a).data
  lamports_le : ∀ a, (L a).owner = programId → (L a).lamports ≤ (L' a).lamports

/-- What happens to the ledger at one time. -/
inductive Turn
  | accepted (c : Call)
  | refused (c : Call)
  | outside

/-- The runtime keeps what an accepted call wrote and drops what a refused one did.
Other programs leave the accounts of this one alone, though they may pay into them. -/
inductive Step (P : Platform) : Ledger → Turn → Ledger → Prop
  | accepted {L L' : Ledger} {c : Call} {log : List Bytes} (h : invoke P c L = .ok (L', log)) :
      Step P L (.accepted c) L'
  | refused {L : Ledger} {c : Call} {e : Fault} (h : invoke P c L = .error e) :
      Step P L (.refused c) L
  | outside {L L' : Ledger} (h : Quiet L L') : Step P L .outside L'

/-! ### Quiet steps -/

theorem Quiet.refl (L : Ledger) : Quiet L L :=
  ⟨fun _ => Iff.rfl, fun _ _ => rfl, fun _ _ => le_rfl⟩

namespace Quiet

variable (h : Quiet L L') {a : Address} {d : Document} {kb : KeyBuffer}

include h

theorem same (ha : (L a).owner = programId) :
    (L' a).data = (L a).data ∧ (L' a).owner = (L a).owner :=
  ⟨h.data a ha, ((h.owner_iff a).mpr ha).trans ha.symm⟩

theorem same' (ha : (L' a).owner = programId) :
    (L a).data = (L' a).data ∧ (L a).owner = (L' a).owner :=
  ⟨(h.same ((h.owner_iff a).mp ha)).1.symm, (h.same ((h.owner_iff a).mp ha)).2.symm⟩

theorem registered_iff : Registered P L' a d ↔ Registered P L a d :=
  ⟨fun hd => hd.of_same (h.same' hd.owner), fun hd => hd.of_same (h.same hd.owner)⟩

theorem isBuffer_iff : IsBuffer P L' a kb ↔ IsBuffer P L a kb :=
  ⟨fun hkb => hkb.of_same (h.same' hkb.owner), fun hkb => hkb.of_same (h.same hkb.owner)⟩

theorem sound (hS : Sound P L) : Sound P L' := by
  intro a howner
  rcases hS a ((h.owner_iff a).mp howner) with ⟨d, hd⟩ | ⟨kb, hkb⟩
  · exact Or.inl ⟨d, h.registered_iff.mpr hd⟩
  · obtain ⟨d, hd⟩ := hkb.did
    exact Or.inr ⟨kb, h.isBuffer_iff.mpr hkb.toIsBuffer, hkb.found, d, hd.of_same (h.same hd.owner)⟩

end Quiet

/-! ### Steps -/

theorem Step.cases (hP : P.Lawful) (hS : Sound P L) {t : Turn} (h : Step P L t L') :
    (∃ c e log, t = .accepted c ∧ Performs P c L e L' log) ∨
      ((∀ c, t ≠ .accepted c) ∧ Quiet L L') := by
  cases h with
  | accepted h =>
    obtain ⟨e, hperforms⟩ := exists_performs hP hS h
    exact Or.inl ⟨_, e, _, rfl, hperforms⟩
  | refused h => exact Or.inr ⟨by simp, Quiet.refl L⟩
  | outside h => exact Or.inr ⟨by simp, h⟩

theorem Step.sound (hP : P.Lawful) (hS : Sound P L) {t : Turn} (h : Step P L t L') :
    Sound P L' := by
  rcases h.cases hP hS with ⟨c, e, log, -, hperforms⟩ | ⟨-, hquiet⟩
  · exact hperforms.sound hP hS
  · exact hquiet.sound hS

/-! ### Sound states -/

theorem Fresh.sound (h : Fresh L) : Sound P L := fun a howner => absurd howner (h a)

/-- Every state of every run is sound. -/
theorem sound_of_run (hP : P.Lawful) {L₀ : Ledger} {turns : List Turn} (h₀ : Fresh L₀)
    (hrun : Run (Step P) L₀ turns L) : Sound P L :=
  hrun.invariant (fun _ _ _ hS hstep => hstep.sound hP hS) h₀.sound

/-- What the first documents have, the amended ones keep, and later turns do not take away,
every document of every run has. -/
theorem documents_of_run (hP : P.Lawful) {Q : List Turn → Address → Document → Prop}
    {L₀ : Ledger} {turns : List Turn} (h₀ : Fresh L₀) (hrun : Run (Step P) L₀ turns L)
    (hmono : ∀ turns t a d, Q turns a d → Q (turns ++ [t]) a d)
    (hcreate : ∀ turns c L L' log a d, Performs P c L (.create a d) L' log →
      Q (turns ++ [.accepted c]) a d)
    (hamend : ∀ turns c L L' a d op d' key body, Amended P c L L' a d op d' key body →
      Q turns a d → Q (turns ++ [.accepted c]) a d') :
    ∀ a d, Registered P L a d → Q turns a d := by
  refine hrun.trace (P := fun turns L => ∀ a d, Registered P L a d → Q turns a d) ?_ ?_
  · intro turns L₁ t L₂ hrun₁ ih hstep a d hd
    have hS₁ : Sound P L₁ := sound_of_run hP h₀ hrun₁
    rcases hstep.cases hP hS₁ with ⟨c, e, log, rfl, h⟩ | ⟨-, hquiet⟩
    · rcases h.did_origin hP hS₁ hd with ⟨hd₁, -⟩ | rfl | ⟨d₁, op, ha⟩
      · exact hmono _ _ _ _ (ih a d hd₁)
      · exact hcreate _ _ _ _ _ _ _ h
      · obtain ⟨key, body, hamended⟩ := h.amended ha
        exact hamend _ _ _ _ _ _ _ _ _ _ hamended (ih a d₁ hamended.before)
    · exact hmono _ _ _ _ (ih a d (hquiet.registered_iff.mp hd))
  · intro a d hd
    exact absurd hd.owner (h₀ a)

namespace Sound

variable (hS : Sound P L) {a : Address}

include hS

theorem exists_registered (h : L.HasDid a) : ∃ d, Registered P L a d :=
  hS.registered_of_take h.1 h.2

theorem exists_staged (h : L.HasBuffer a) : ∃ kb, Staged P L a kb :=
  hS.staged_of_take h.1 h.2

end Sound

theorem IsDid.hasDid {a : Address} {d : Document} (hd : IsDid P L a d) : L.HasDid a :=
  ⟨hd.owner, hd.take_data⟩

theorem IsBuffer.hasBuffer {a : Address} {kb : KeyBuffer} (hkb : IsBuffer P L a kb) :
    L.HasBuffer a :=
  ⟨hkb.owner, hkb.take_data⟩

end BioDidRegistry
