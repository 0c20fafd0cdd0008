import BioDidRegistry.Document.View
import BioDidRegistry.Program.Deprecated
import BioDidRegistry.Registry.Reference

/-!
# The deprecated iteration agrees with the view

The parser walked as many entries as each count says, and the region of a section is what
these entries take up. A loop by the count therefore reads the entries the iterators of the
view return, and none of its reads fails.
-/

namespace BioDidRegistry

open BinaryFormat Cursor Visits

section Loops

variable {σ α γ : Type} {p : Read .account α} {enc : γ → Bytes} {ref : γ → ℕ → α}
  {ok : γ → Prop}

/-- A loop over as many entries as are encoded visits them with their spans, whatever comes
after them. -/
theorem forEach_eq_visit
    (hp : ∀ x r, ok x → enc x <+: r.rest → p r = .ok (ref x r.pos) (advance (enc x).length r))
    (f : α → EStateM Fault σ Bool) {xs : List γ} (hxs : ∀ x ∈ xs, ok x) {r : Reader .account}
    (hpre : xs.flatMap enc <+: r.rest) :
    forEach p f xs.length r = visit f (spans enc ref r.pos xs) := by
  induction xs generalizing r with
  | nil => rfl
  | cons x xs ih =>
    obtain ⟨hx, hxs⟩ := List.forall_mem_cons.mp hxs
    rw [List.flatMap_cons, append_prefix_iff] at hpre
    obtain ⟨hhere, hrest⟩ := hpre
    have hread : p r = .ok (ref x r.pos) (advance (enc x).length r) := hp x r hx hhere
    have hloop := ih hxs (r := advance (enc x).length r) (by simpa using hrest)
    rw [Reader.pos_skip_over hhere] at hloop
    rw [List.length_cons, forEach, hread]
    simp only [spans, visit, hloop]

theorem exists_at' {a b : Bytes} {n : ℕ} (h : n = a.length) :
    ∃ r, Reader.at' .account (a ++ b) n = .ok r ∧ r.rest = b ∧ r.pos = n := by
  subst h
  refine ⟨_, if_pos (by simp), List.drop_left, ?_⟩
  simp [Reader.pos]

theorem afterLoop_marking {q : α → Bool} {xs : List α} {loop : EStateM Fault Bool Unit}
    (h : loop = visit (marking q) xs) : afterLoop loop false = .ok (xs.any q) := by
  rw [h, afterLoop, visit_marking]

theorem afterLoop_counting {q : α → Bool} {xs : List α} {loop : EStateM Fault ℕ Unit}
    (h : loop = visit (counting q) xs) : afterLoop loop 0 = .ok (xs.countP q) := by
  rw [h, afterLoop, visit_counting, Nat.zero_add]

end Loops

namespace DidView

variable (v : DidView) {σ : Type}

theorem forEachVm_eq (f : VmRef → EStateM Fault σ Bool) :
    forEachVm v.data v.sections f = visit f v.vms := by
  obtain ⟨head, b, h⟩ := v.exists_shows
  have hdata : v.data = (head ++ b.nativesBytes ++ b.othersBytes ++ u32Bytes b.methods.length) ++
      (b.methods.flatMap Method.encode ++ b.servicesBytes) := by
    simp only [h.data_eq, Body.encode, Body.methodsBytes, vec, List.append_assoc]
  have hstart : b.sections.vmItems = (head ++ b.nativesBytes ++ b.othersBytes ++
      u32Bytes b.methods.length).length := by
    simp only [Body.sections, List.length_append, h.length_head, length_u32Bytes]
  obtain ⟨r, hr, hrest, hpos⟩ := @exists_at' _ (b.methods.flatMap Method.encode ++ b.servicesBytes)
    _ hstart
  have hloop := forEach_eq_visit (fun m r hm hpre => readVm_run m r hm hpre) f h.fits.methods.2
    (hrest ▸ List.prefix_append _ _)
  rw [h.vms_eq, forEachVm, h.sections_eq, hdata, hr]
  rw [hpos] at hloop
  exact hloop

theorem forEachService_eq (f : SvcRef → EStateM Fault σ Bool) :
    forEachService v.data v.sections f = visit f v.services := by
  obtain ⟨head, b, h⟩ := v.exists_shows
  have hdata : v.data = (head ++ b.nativesBytes ++ b.othersBytes ++ b.methodsBytes ++
      u32Bytes b.services.length) ++ b.services.flatMap Service.encode := by
    simp only [h.data_eq, Body.encode, Body.servicesBytes, vec, List.append_assoc]
  have hstart : b.sections.svcItems = (head ++ b.nativesBytes ++ b.othersBytes ++
      b.methodsBytes ++ u32Bytes b.services.length).length := by
    simp only [Body.sections, List.length_append, h.length_head, length_u32Bytes]
  obtain ⟨r, hr, hrest, hpos⟩ := @exists_at' _ (b.services.flatMap Service.encode) _ hstart
  have hpre : b.services.flatMap Service.encode <+: r.rest := by rw [hrest]
  have hloop := forEach_eq_visit (fun svc r hs hpre => readSvc_run svc r hs hpre) f
    h.fits.services.2 hpre
  rw [h.services_eq, forEachService, h.sections_eq, hdata, hr]
  rw [hpos] at hloop
  exact hloop

theorem requireAuthority_eq (signer : Address) :
    BioDidRegistry.requireAuthority v.data v.sections signer = v.requireAuthority signer := by
  have hloop := afterLoop_marking (v.forEachVm_eq (marking fun vm : VmRef =>
    vm.methodType == vmTypeEd25519 && hasFlag vm.flags vmFlagCapabilityInvocation &&
      vm.key == signer.val))
  unfold BioDidRegistry.requireAuthority requireAuthority isDeactivated
  rw [hloop]
  cases index v.data offDeactivated with
  | error e => rfl
  | ok b =>
    have hlive : (b == 0) = !(b != 0) := by rw [bne, Bool.not_not]
    simp only [except_bind_ok, except_pure, hlive]
    rfl

theorem authorityCount_eq :
    BioDidRegistry.authorityCount v.data v.sections = .ok v.authorityCount :=
  afterLoop_counting (v.forEachVm_eq _)

theorem requireFragmentFree_eq (fragment : Bytes) :
    BioDidRegistry.requireFragmentFree v.data v.sections fragment =
      v.requireFragmentFree fragment := by
  have hvms := afterLoop_marking (v.forEachVm_eq (marking fun vm : VmRef =>
    vm.fragment == fragment))
  have hservices := afterLoop_marking (v.forEachService_eq (marking fun svc : SvcRef =>
    svc.fragment == fragment))
  unfold BioDidRegistry.requireFragmentFree requireFragmentFree findVm findService
  rw [hvms, List.isSome_find?, List.isSome_find?, except_bind_ok]
  cases v.vms.any fun vm => vm.fragment == fragment with
  | true => rfl
  | false =>
    simp only [Bool.not_false, if_true, hservices, except_bind_ok, Bool.false_or]

end DidView

/-- On data that parses, the deprecated functions do what the view does. -/
theorem deprecated_agrees {data : Bytes} {s : Sections} (h : Sections.parse data = .ok s) :
    let v : DidView := ⟨data, s, h⟩
    (∀ (σ : Type) (f : VmRef → EStateM Fault σ Bool),
      Visits.Shows (forEachVm data s f) f v.vms) ∧
    (∀ (σ : Type) (f : SvcRef → EStateM Fault σ Bool),
      Visits.Shows (forEachService data s f) f v.services) ∧
    (∀ signer, requireAuthority data s signer = v.requireAuthority signer) ∧
    authorityCount data s = .ok v.authorityCount ∧
    ∀ fragment, requireFragmentFree data s fragment = v.requireFragmentFree fragment := by
  intro v
  refine ⟨?_, ?_, v.requireAuthority_eq, v.authorityCount_eq, v.requireFragmentFree_eq⟩
  · intro σ f
    have hloop : forEachVm data s f = visit f v.vms := v.forEachVm_eq f
    rw [hloop]
    exact shows_visit f v.vms
  · intro σ f
    have hloop : forEachService data s f = visit f v.services := v.forEachService_eq f
    rw [hloop]
    exact shows_visit f v.services

namespace Sample

/-- A document with two methods and two services. -/
def listedDocument : Document :=
  { protectedDocument with
    body := { protectedDocument.body with services := [⟨[115], [88], [120]⟩, ⟨[116], [88], []⟩] } }

theorem listedDocument_fits : listedDocument.body.Fits :=
  ⟨by decide, ⟨by decide, by decide⟩, ⟨by decide, by decide⟩, ⟨by decide, by decide⟩⟩

theorem listedDocument_parse :
    Sections.parse listedDocument.encode = .ok listedDocument.body.sections :=
  sections_parse_ok_iff.mpr ⟨_, _, listedDocument.length_head, listedDocument_fits, rfl, rfl⟩

/-- Notes the fragment of each entry, up to the entry of the name `last`. -/
def noting {α : Type} (fragment : α → Bytes) (last : Bytes) (x : α) :
    EStateM Fault (List Bytes) Bool := fun seen =>
  .ok (fragment x != last) (seen ++ [fragment x])

end Sample

/-- A callback sees both methods, and stops at the first of two services. -/
theorem deprecated_agrees_sample : ∃ s, Sections.parse Sample.listedDocument.encode = .ok s ∧
    forEachVm Sample.listedDocument.encode s (Sample.noting VmRef.fragment []) [] =
      .ok () [defaultFragment, [112]] ∧
    forEachService Sample.listedDocument.encode s (Sample.noting SvcRef.fragment [115]) [] =
      .ok () [[115]] ∧
    authorityCount Sample.listedDocument.encode s = .ok 2 ∧
    requireAuthority Sample.listedDocument.encode s Sample.subject = .ok () ∧
    requireFragmentFree Sample.listedDocument.encode s [116] =
      .error DidError.fragmentAlreadyInUse.fault := by
  obtain ⟨hvms, hservices, hauthority, hcount, hfree⟩ :=
    deprecated_agrees Sample.listedDocument_parse
  have hshows : (⟨_, _, Sample.listedDocument_parse⟩ : DidView).Shows Sample.listedDocument.head
      Sample.listedDocument.body :=
    ⟨Sample.listedDocument.length_head, Sample.listedDocument_fits, rfl⟩
  refine ⟨_, Sample.listedDocument_parse, ?_, ?_, ?_, ?_, ?_⟩
  · refine ((hvms _ _).ok_iff _ _).mpr (Or.inl ?_)
    rw [hshows.vms_eq]
    exact .cons rfl (.cons rfl (.nil _))
  · refine ((hservices _ _).ok_iff _ _).mpr (Or.inr ?_)
    rw [hshows.services_eq]
    exact ⟨[], _, _, [], rfl, .nil _, rfl⟩
  · rw [hcount]
    decide +kernel
  · rw [hauthority]
    decide +kernel
  · rw [hfree]
    decide +kernel

end BioDidRegistry
