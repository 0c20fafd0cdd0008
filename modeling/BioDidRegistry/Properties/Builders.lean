import BioDidRegistry.Properties.TypedAccounts
import BioDidRegistry.Registry.Builders

/-!
# Builders and parsers are inverse

What a builder makes of its values is dispatched to its own handler, whose parser finds the
same values in it and whose account checks pass. Every argument string a parser accepts was
built, from one request only, and neither a shorter nor a longer string is accepted.
-/

namespace BioDidRegistry

open BinaryFormat Reader

variable {P : Platform}

theorem builders_and_parsers_are_inverse (hP : P.Lawful) :
    (∀ (b : Builder) (via : Option Address) (i : Instruction), b.instruction P via = some i →
      i.data = b.ix.discriminator ++ b.args) ∧
    (∀ (sv : Sysvars) (L : Ledger) (b : Builder) (via : Option Address) (i : Instruction),
      b.Encodable → b.Named P L → b.instruction P via = some i → b.Received P sv L via i) ∧
    (∀ (natives : List Address) (others : List Bytes) (len : ℕ),
      natives.length ≤ maxNativeControllers → others.length ≤ maxOtherControllers →
      (SetControllers.Args.ofLists natives others len).lists = (natives.map Subtype.val, others)) ∧
    (∀ (ix : Ix) (args : Bytes) (v : Values), ix.parse args = .ok v →
      ∃ b : Builder, b.ix = ix ∧ b.Encodable ∧ args = b.args ∧ v = b.values) ∧
    (∀ (ix : Ix) (args args' : Bytes) (v : Values), ix.parse args = .ok v →
      ix.parse args' = .ok v → v.Kept → args = args') ∧
    (∀ (ix : Ix) (args t : Bytes) (v v' : Values), ix.parse args = .ok v →
      ix.parse (args ++ t) = .ok v' → t = []) ∧
    ∀ (c : Call) (L L' : Ledger) (log : List Bytes), invoke P c L = .ok (L', log) →
      ∃ b : Builder, b.Encodable ∧ c.data = b.ix.discriminator ++ b.args ∧ b.values.Kept ∧
        b.ix.checkAccounts P L c.accounts b.args = .ok () := by
  refine ⟨fun b via i hi => ?_, fun sv L b via i hb hnamed hi => ?_,
    fun natives others len hn ho => ?_, fun ix args v h => ?_,
    fun ix args args' v h h' hkept => ?_, fun ix args t v v' h h' => ?_,
    fun c L L' log h => ?_⟩
  · obtain ⟨did, buffer, -, rfl⟩ := Builder.instruction_eq_some hi
    rfl
  · exact Builder.received sv hb hnamed hi
  · exact SetControllers.Args.lists_ofLists ⟨hn, ho⟩
  · exact Ix.parse_ok_iff.mp h
  · exact Ix.args_unique h h' hkept
  · exact Ix.eq_nil_of_append h h'
  · obtain ⟨ix, hix, hrun⟩ := invoke_ok_iff.mp h
    obtain ⟨v, hparse, hkept, hchecked⟩ := Ix.received_of_run hP hrun
    obtain ⟨b, rfl, hb, hargs, rfl⟩ := Ix.parse_ok_iff.mp hparse
    rw [hargs] at hchecked
    refine ⟨b, hb, ?_, hkept, hchecked⟩
    rw [Call.data_of_ix hix, hargs]

theorem setControllers_wrapped {n : ℕ} (hn : n ≠ 0) (hwrap : u32Bytes n = u32Bytes 0)
    (v : Values) : Ix.parse (Op.setControllers (List.replicate n systemProgram) []).args
      .setControllers ≠ .ok v := by
  intro h
  obtain ⟨k, rfl⟩ := Nat.exists_eq_succ_of_ne_zero hn
  have hempty : Ix.parse (Op.setControllers [] []).args .setControllers =
      .ok (Op.setControllers [] []).values :=
    (Ix.parse_update_ok_iff rfl).mpr
      ⟨.setControllers [] [], rfl, ⟨by simp, by simp, by simp⟩, rfl, rfl⟩
  -- The first key of the list is read as the other count.
  have hargs : (Op.setControllers (List.replicate (k + 1) systemProgram) []).args =
      (Op.setControllers [] []).args ++ (List.replicate 28 0 ++
        (List.replicate k systemProgram).flatMap Subtype.val ++ u32Bytes 0) := by
    have hkey : systemProgram.val = u32Bytes 0 ++ List.replicate 28 0 := by decide
    have hflat : (List.replicate (k + 1) systemProgram).flatMap Subtype.val =
        u32Bytes 0 ++ List.replicate 28 0 ++
          (List.replicate k systemProgram).flatMap Subtype.val := by
      rw [List.replicate_succ, List.flatMap_cons, hkey]
    simp only [Op.args, vec, List.length_replicate, hwrap, hflat, List.length_nil,
      List.flatMap_nil, List.append_nil, List.append_assoc]
  rw [hargs] at h
  have hnil := Ix.eq_nil_of_append hempty h
  simp at hnil

namespace Sample

/-- The subject's DID with a service to add. -/
def serviceBuilder : Builder :=
  .update payer subject subject (.addService ⟨[97], [98], [99]⟩)

def nine (byte : UInt8) : Op := .setControllers (List.replicate 9 (address byte)) []

/-- As many native controllers as a `u32` cannot count. -/
def uncounted : Op := .setControllers (List.replicate (2 ^ 32) systemProgram) []

end Sample

theorem builders_and_parsers_are_inverse_sample :
    let L := afterAll Sample.platform [Sample.creation] Sample.ledger
    (∃ i : Instruction,
      Sample.serviceBuilder.instruction Sample.platform (some Sample.controller) = some i ∧
      Sample.serviceBuilder.Received Sample.platform Sample.sysvars L (some Sample.controller) i) ∧
    (∃ b : Builder, b.ix = Ix.removeService ∧ Reader.lenPrefix [97] = b.args) ∧
    ∀ t v, Ix.parse (Reader.lenPrefix [97] ++ t) .removeService = .ok v → t = [] := by
  intro L
  obtain ⟨-, hreceived, -, hbuilt, -, hend, -⟩ :=
    builders_and_parsers_are_inverse Sample.platform_lawful
  have hparse : Ix.parse (Reader.lenPrefix [97]) .removeService = .ok (.fragment [97]) :=
    Ix.parse_ok_iff.mpr ⟨.update Sample.payer Sample.subject Sample.subject (.removeService [97]),
      rfl, ⟨by decide, by decide⟩, rfl, rfl⟩
  refine ⟨?_, ?_, fun t v h => hend _ _ _ _ _ hparse h⟩
  · obtain ⟨i, hi⟩ := Option.isSome_iff_exists.mp (show
      (Sample.serviceBuilder.instruction Sample.platform (some Sample.controller)).isSome = true by
        decide +kernel)
    have hS : Sound Sample.platform L := sound_of_run Sample.platform_lawful Sample.ledger_fresh
      (run_of_calls [Sample.creation] Sample.ledger)
    obtain ⟨d, hd⟩ := hS.exists_registered (show L.HasDid Sample.did by decide +kernel)
    have hsubject : d.subject = Sample.subject := by
      have hdecode : Document.decode (L Sample.did).data = some Sample.document := by
        decide +kernel
      cases hd.toIsDid.decode.symm.trans hdecode
      rfl
    exact ⟨i, hi, hreceived _ L _ _ i ⟨by decide, by decide, by decide⟩
      ⟨Sample.did, by decide +kernel, d, hd.toIsDid, hsubject⟩ hi⟩
  · obtain ⟨b, hix, -, hargs, -⟩ := hbuilt _ _ _ hparse
    exact ⟨b, hix, hargs⟩

/-- Two lists of nine controllers yield the same values, and `2 ^ 32` controllers are
refused. -/
theorem builders_and_parsers_are_not_inverse :
    (Ix.parse (Sample.nine 1).args .setControllers = .ok (Sample.nine 1).values ∧
      Ix.parse (Sample.nine 2).args .setControllers = .ok (Sample.nine 1).values ∧
      Sample.nine 1 ≠ Sample.nine 2) ∧
    ∃ i : Instruction, (Builder.update Sample.payer Sample.subject Sample.subject
        Sample.uncounted).instruction Sample.platform none = some i ∧
      i.data = Ix.setControllers.discriminator ++ Sample.uncounted.args ∧
      ∀ v, Ix.parse Sample.uncounted.args .setControllers ≠ .ok v := by
  have hnine (byte : UInt8) :
      Ix.parse (Sample.nine byte).args .setControllers = .ok (Sample.nine byte).values :=
    (Ix.parse_update_ok_iff rfl).mpr
      ⟨Sample.nine byte, rfl, ⟨by simp, by simp, by simp⟩, rfl, rfl⟩
  have hlen : (Sample.nine 2).args.length = (Sample.nine 1).args.length := by decide +kernel
  have hsame : (Sample.nine 2).values = (Sample.nine 1).values := by
    change Values.controllers (.ofLists _ _ (Sample.nine 2).args.length) = _
    rw [hlen]
    rfl
  refine ⟨⟨hnine 1, hsame ▸ hnine 2, by decide⟩, ?_⟩
  have hdid : Client.didAccount Sample.platform Sample.subject = some Sample.did := by
    decide +kernel
  exact ⟨_, Builder.update_instruction hdid, rfl, setControllers_wrapped (by decide) (by decide)⟩

end BioDidRegistry
