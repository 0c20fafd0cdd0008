import BioDidRegistry.Foundation.Separator
import BioDidRegistry.Properties.TypedAccounts

/-!
# External controllers

An external controller is `did:`, a method name, a colon and an id. The program cuts it at
the first colon after `did:`. A method name has no colon, so that cut is the only one, and
the id may have colons of its own. No DID of this registry passes, so whoever sets the
controllers names those of the registry by their keys.
-/

namespace BioDidRegistry

open BinaryFormat Separator Reader Transition

/-- A method name and an id that make up the DID of another method. -/
structure ForeignParts (method id : Bytes) : Prop where
  method_ne : method ≠ []
  method_chars : ∀ b ∈ method, (97 ≤ b ∧ b ≤ 122) ∨ (48 ≤ b ∧ b ≤ 57)
  foreign : method ≠ bioMethod
  id_ne : id ≠ []
  id_chars : ∀ b ∈ id, 0x21 ≤ b ∧ b ≤ 0x7e

def didUri (method id : Bytes) : Bytes := didPrefix ++ (method ++ 58 :: id)

def bioPrefix : Bytes := didPrefix ++ (bioMethod ++ [58])

section Values

variable {value rest method id method' id' : Bytes}

theorem stripPrefix_eq_some_iff {p : Bytes} :
    stripPrefix p value = some rest ↔ value = p ++ rest := by
  unfold stripPrefix
  constructor
  · intro h
    split_ifs at h with hpre
    obtain ⟨tail, rfl⟩ := List.isPrefixOf_iff_prefix.mp hpre
    rw [← Option.some.inj h, List.drop_left]
  · rintro rfl
    rw [if_pos (List.isPrefixOf_iff_prefix.mpr (List.prefix_append p rest)), List.drop_left]

namespace ForeignParts

variable (h : ForeignParts method id)

include h

theorem cut : Cut 58 (method ++ 58 :: id) method id where
  eq := rfl
  first := by
    intro hmem
    have hchar := h.method_chars 58 hmem
    revert hchar
    decide

theorem printable {b : UInt8} (hb : b ∈ didUri method id) : 0x21 ≤ b ∧ b ≤ 0x7e := by
  rcases List.mem_append.mp hb with hb | hb
  · have hscheme : (didPrefix.all fun b => 0x21 ≤ b && b ≤ 0x7e) = true := rfl
    simpa using List.all_eq_true.mp hscheme b hb
  · rcases List.mem_append.mp hb with hb | hb
    · have hletters : (0x21 : UInt8) ≤ 97 ∧ (122 : UInt8) ≤ 0x7e := by decide
      have hdigits : (0x21 : UInt8) ≤ 48 ∧ (57 : UInt8) ≤ 0x7e := by decide
      rcases h.method_chars b hb with ⟨hlow, hhigh⟩ | ⟨hlow, hhigh⟩
      · exact ⟨UInt8.le_trans hletters.1 hlow, UInt8.le_trans hhigh hletters.2⟩
      · exact ⟨UInt8.le_trans hdigits.1 hlow, UInt8.le_trans hhigh hdigits.2⟩
    · rcases List.mem_cons.mp hb with rfl | hb
      · decide
      · exact h.id_chars b hb

theorem unique (h' : ForeignParts method' id') (heq : didUri method id = didUri method' id') :
    method = method' ∧ id = id' := by
  have hrest : method ++ 58 :: id = method' ++ 58 :: id' := List.append_cancel_left heq
  have hcut : Cut 58 (method ++ 58 :: id) method' id' := hrest ▸ h'.cut
  exact h.cut.unique hcut

theorem not_bio : ¬bioPrefix <+: didUri method id := by
  rintro ⟨tail, htail⟩
  have hrest : bioMethod ++ 58 :: tail = method ++ 58 :: id := by
    have hassoc : didPrefix ++ (bioMethod ++ 58 :: tail) = didUri method id := by
      rw [← htail, bioPrefix, List.append_assoc, List.append_assoc, List.singleton_append]
    exact List.append_cancel_left hassoc
  have hcut : Cut 58 (method ++ 58 :: id) bioMethod tail := ⟨hrest.symm, by decide⟩
  exact h.foreign (h.cut.unique hcut).1

end ForeignParts

/-- The check accepts the DIDs of other methods that are not too long. -/
theorem validExternalController_iff : validExternalController value = true ↔
    value.length ≤ 128 ∧ ∃ method id, ForeignParts method id ∧ value = didUri method id := by
  constructor
  · intro h
    unfold validExternalController at h
    split_ifs at h with huri
    rw [Bool.not_eq_true', Bool.not_eq_false] at huri
    obtain ⟨⟨-, hlen⟩, hprintable⟩ := validUriAscii_iff.mp huri
    cases hstrip : stripPrefix didPrefix value with
    | none => simp [hstrip] at h
    | some rest =>
      cases hcolon : rest.findIdx? (· == 58) with
      | none => simp [hstrip, hcolon] at h
      | some colon =>
        obtain ⟨method, id, hcut, rfl⟩ := findIdx?_eq_some_iff.mp hcolon
        simp only [hstrip, hcolon, hcut.take_eq, hcut.drop_eq, Bool.and_eq_true,
          List.all_eq_true, bne_iff_ne, Bool.not_eq_true', List.isEmpty_eq_false_iff,
          Bool.or_eq_true, isAsciiLowercase, isAsciiDigit, decide_eq_true_eq] at h
        obtain ⟨⟨⟨hmethod, hforeign⟩, hchars⟩, hid⟩ := h
        have hvalue : value = didUri method id := by
          rw [stripPrefix_eq_some_iff.mp hstrip, hcut.eq, didUri]
        refine ⟨hlen, method, id, ⟨hmethod, hchars, hforeign, hid, ?_⟩, hvalue⟩
        intro b hb
        exact hprintable b (by simp [hvalue, didUri, hb])
  · rintro ⟨hlen, method, id, hparts, rfl⟩
    have huri : validUriAscii (didUri method id) maxControllerLen = true :=
      validUriAscii_iff.mpr ⟨⟨by simp [didUri, didPrefix], hlen⟩, fun b hb => hparts.printable hb⟩
    have hstrip : stripPrefix didPrefix (didUri method id) = some (method ++ 58 :: id) :=
      stripPrefix_eq_some_iff.mpr rfl
    have hcolon : (method ++ 58 :: id).findIdx? (· == 58) = some method.length :=
      findIdx?_eq_some_iff.mpr ⟨method, id, hparts.cut, rfl⟩
    unfold validExternalController
    simp only [huri, hstrip, hcolon, hparts.cut.take_eq, hparts.cut.drop_eq, Bool.not_true,
      Bool.false_eq_true, if_false, Bool.and_eq_true, List.all_eq_true, bne_iff_ne,
      Bool.not_eq_true', List.isEmpty_eq_false_iff, Bool.or_eq_true, isAsciiLowercase,
      isAsciiDigit, decide_eq_true_eq]
    exact ⟨⟨⟨hparts.method_ne, hparts.foreign⟩, hparts.method_chars⟩, hparts.id_ne⟩

theorem not_bio_of_valid (h : validExternalController value = true) : ¬bioPrefix <+: value := by
  obtain ⟨-, method, id, hparts, rfl⟩ := validExternalController_iff.mp h
  exact hparts.not_bio

end Values

theorem others_of_check {subject : Address} {doc : DidView} {natives : List Address}
    {others : List Bytes} {len : ℕ} {tail : SetControllers.Tail}
    (h : SetControllers.check subject doc (.ofLists natives others len) = .ok tail) :
    ∀ v ∈ others, validExternalController v = true := by
  rw [SetControllers.check_ofLists] at h
  simp only [except_bind_ok_iff] at h
  obtain ⟨_, -, _, -, _, hothers, -⟩ := h
  have hallowed : entriesAllowed validExternalController others = true :=
    require_eq_ok.mp hothers
  rw [entriesAllowed, Bool.and_eq_true, List.all_eq_true] at hallowed
  exact hallowed.1

/-- A call that sets the controllers was given acceptable ones, whatever the ledger is. -/
theorem others_of_invoke {P : Platform} {L L' : Ledger} {c : Call} {log : List Bytes}
    (hix : c.ix = some .setControllers) (h : invoke P c L = .ok (L', log)) :
    ∃ natives others, c.args = (Op.setControllers natives others).args ∧
      (Op.setControllers natives others).Encodable ∧
      ∀ v ∈ others, validExternalController v = true := by
  obtain ⟨ix, hix', hrun⟩ := invoke_ok_iff.mp h
  obtain rfl : ix = .setControllers := Option.some.inj (hix'.symm.trans hix)
  rw [handler_update_eq rfl, lift_bind_ok_iff] at hrun
  obtain ⟨u, -, hrun⟩ := hrun
  change updateDocument P u.toTarget c.args SetControllers.parse (SetControllers.check u.subject)
    (SetControllers.commit P c.sysvars u c.args) didModified ⟨L, []⟩ = _ at hrun
  cases hparse : eval SetControllers.parse (new .args c.args) with
  | error e =>
    rw [updateDocument_error hparse] at hrun
    cases hrun
  | ok a =>
    obtain ⟨natives, others, hargs, hop, rfl⟩ := SetControllers.parse_ok_iff.mp hparse
    rw [updateDocument_eq hparse, lift_bind_ok_iff] at hrun
    obtain ⟨tail, hchecks, -⟩ := hrun
    obtain ⟨doc, -, hchecks⟩ := except_bind_ok_iff.mp hchecks
    obtain ⟨-, -, hcheck⟩ := except_bind_ok_iff.mp hchecks
    exact ⟨natives, others, hargs, hop, others_of_check hcheck⟩

/-- The external controllers are the DIDs of other methods. -/
theorem external_controllers_foreign :
    (∀ v, validExternalController v = true ↔
      v.length ≤ 128 ∧ ∃ method id, ForeignParts method id ∧ v = didUri method id) ∧
    (∀ method id method' id', ForeignParts method id → ForeignParts method' id' →
      didUri method id = didUri method' id' → method = method' ∧ id = id') ∧
    (∀ v, validExternalController v = true → ¬bioPrefix <+: v) ∧
    (∀ P L c L' log, c.ix = some .setControllers → invoke P c L = .ok (L', log) →
      ∃ natives others, c.args = (Op.setControllers natives others).args ∧
        (Op.setControllers natives others).Encodable ∧
        ∀ v ∈ others, validExternalController v = true ∧ ¬bioPrefix <+: v) ∧
    ∀ P L₀ turns L, P.Lawful → Fresh L₀ → Run (Step P) L₀ turns L →
      ∀ a d, L.DidAt P a d → ∀ v ∈ d.body.others, ¬bioPrefix <+: v := by
  refine ⟨fun v => validExternalController_iff, fun method id method' id' h h' => h.unique h',
    fun v => not_bio_of_valid, ?_, ?_⟩
  · intro P L c L' log hix hrun
    obtain ⟨natives, others, hargs, hop, hvalid⟩ := others_of_invoke hix hrun
    exact ⟨natives, others, hargs, hop, fun v hv => ⟨hvalid v hv, not_bio_of_valid (hvalid v hv)⟩⟩
  · intro P L₀ turns L hP h₀ hrun a d hd v hv
    have hregistered : Registered P L a d := (sound_of_run hP h₀ hrun).registered_of_didAt hd
    exact not_bio_of_valid (hregistered.wellFormed.body.others.2 v hv)

namespace Sample

/-- `did:key:z:6`, whose id has a colon. -/
def keyDid : Bytes := [100, 105, 100, 58, 107, 101, 121, 58, 122, 58, 54]

/-- Names `controller` by its key and `keyDid` as the controllers of `subject`. -/
def control : Call :=
  send (Client.setControllers platform payer subject subject [controller] [keyDid])

end Sample

theorem external_controllers_foreign_sample :
    (∃ L' log natives others,
      invoke Sample.platform Sample.control (afterAll Sample.platform [Sample.creation]
        Sample.ledger) = .ok (L', log) ∧
      Sample.control.args = (Op.setControllers natives others).args ∧
      ∀ v ∈ others, validExternalController v = true ∧ ¬bioPrefix <+: v) ∧
    ¬validExternalController (bioPrefix ++ [122]) = true := by
  have hall := external_controllers_foreign
  obtain ⟨log, hrun⟩ := invoke_after (P := Sample.platform) (c := Sample.control)
    (L := afterAll Sample.platform [Sample.creation] Sample.ledger) (by decide +kernel)
  obtain ⟨natives, others, hargs, -, hvalid⟩ := hall.2.2.2.1 _ _ _ _ _ (by decide +kernel) hrun
  refine ⟨⟨_, log, natives, others, hrun, hargs, hvalid⟩, ?_⟩
  intro h
  exact hall.2.2.1 _ h (List.prefix_append _ _)

end BioDidRegistry
