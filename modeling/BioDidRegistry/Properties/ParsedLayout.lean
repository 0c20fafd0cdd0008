import BioDidRegistry.Document.Model
import BioDidRegistry.Document.View

/-!
# The parser accepts exactly the layout

`DidView.parse` walks the sections by their counts, and the iterators walk them again
by their bytes. Both accept what the documented layout produces and nothing else, and
they agree about every entry and its place. `Mirrors` collects what a view then says
about the lists it lies over.
-/

namespace BioDidRegistry

open BinaryFormat

/-! ### Entries and their bytes -/

/-- The bytes of `data` from `start` to `last`. -/
def span (data : Bytes) (start last : ℕ) : Bytes := (data.take last).drop start

theorem span_append {a b c : Bytes} {start last : ℕ} (hstart : start = a.length)
    (hlast : last = a.length + b.length) : span (a ++ b ++ c) start last = b := by
  subst hstart hlast
  rw [span, ← List.length_append, List.take_left, List.drop_left]

/-- An entry of an iterator is the encoding of an element in its place. -/
theorem exists_of_mem_spans {α γ : Type} {enc : γ → Bytes} {ref : γ → ℕ → α} {start : ℕ}
    {xs : List γ} {r : α} (h : r ∈ spans enc ref start xs) : ∃ before x after,
      xs = before ++ x :: after ∧ r = ref x (start + (before.flatMap enc).length) := by
  induction xs generalizing start with
  | nil => cases h
  | cons x xs ih =>
    rcases List.mem_cons.mp h with rfl | h
    · exact ⟨[], x, xs, rfl, by simp⟩
    · obtain ⟨before, y, after, rfl, rfl⟩ := ih h
      exact ⟨x :: before, y, after, rfl, by simp [Nat.add_assoc]⟩

def VmRef.toMethod (r : VmRef) : Method := ⟨r.fragment, r.methodType, r.flags, r.key⟩

theorem Method.flags_span (m : Method) (a c : Bytes) :
    span (a ++ m.encode ++ c) (a.length + 5 + m.fragment.length)
      (a.length + 5 + m.fragment.length + 2) = u16Bytes m.flags := by
  have hsplit : a ++ m.encode ++ c = (a ++ (Reader.lenPrefix m.fragment ++ [m.methodType])) ++
      u16Bytes m.flags ++ (Reader.lenPrefix m.key ++ c) := by
    simp only [Method.encode, List.append_assoc]
  have hlen : a.length + 5 + m.fragment.length =
      (a ++ (Reader.lenPrefix m.fragment ++ [m.methodType])).length := by
    simp only [List.length_append, Reader.length_lenPrefix, List.length_cons, List.length_nil]
    omega
  rw [hsplit]
  exact span_append hlen (by rw [hlen, length_u16Bytes])

/-! ### What a view says -/

namespace DidView

/-- The view answers every question as the lists of `b` do, and its entries are the exact
byte spans of theirs. -/
structure Mirrors (v : DidView) (b : Body) : Prop where
  sections : v.sections = b.sections
  endPos : v.sections.endPos = v.data.length
  vms : v.vms = b.vmRefs ∧ v.vms.map VmRef.toMethod = b.methods
  vm_spans : ∀ r ∈ v.vms, v.sections.vmItems ≤ r.start ∧ r.endPos ≤ v.sections.svcCountPos ∧
    span v.data r.start r.endPos = r.toMethod.encode ∧
    span v.data r.flagsPos (r.flagsPos + 2) = u16Bytes r.flags
  services : v.services = b.svcRefs ∧
    v.services.map SvcRef.fragment = b.services.map Service.fragment
  service_spans : ∀ r ∈ v.services, v.sections.svcItems ≤ r.start ∧
    r.endPos ≤ v.sections.endPos ∧
    ∃ svc ∈ b.services, r.fragment = svc.fragment ∧ span v.data r.start r.endPos = svc.encode
  findVm : ∀ fragment, v.findVm fragment = b.methods[b.methodIdx fragment]?.map fun m =>
    m.ref (b.sections.vmItems +
      ((b.methods.take (b.methodIdx fragment)).flatMap Method.encode).length)
  findService : ∀ fragment, v.findService fragment =
    b.services[b.serviceIdx fragment]?.map fun svc => svc.ref (b.sections.svcItems +
      ((b.services.take (b.serviceIdx fragment)).flatMap Service.encode).length)
  isNativeController : ∀ key, v.isNativeController key = .ok (decide (key ∈ b.natives))
  isAuthority : ∀ key, v.isAuthority key = true ↔ ∃ m ∈ b.methods,
    m.methodType = vmTypeEd25519 ∧ hasFlag m.flags vmFlagCapabilityInvocation = true ∧
      m.key = key.val
  authorityCount : v.authorityCount = b.methods.countP fun m =>
    m.methodType == vmTypeEd25519 && hasFlag m.flags vmFlagCapabilityInvocation

namespace Shows

variable {v : DidView} {head : Bytes} {b : Body} (h : v.Shows head b)

include h

theorem vm_spans : ∀ r ∈ v.vms, v.sections.vmItems ≤ r.start ∧
    r.endPos ≤ v.sections.svcCountPos ∧ span v.data r.start r.endPos = r.toMethod.encode ∧
    span v.data r.flagsPos (r.flagsPos + 2) = u16Bytes r.flags := by
  intro r hr
  rw [h.vms_eq] at hr
  obtain ⟨before, m, after, hsplit, rfl⟩ := exists_of_mem_spans hr
  have hdata : v.data = (head ++ b.nativesBytes ++ b.othersBytes ++ u32Bytes b.methods.length ++
      before.flatMap Method.encode) ++ m.encode ++
      (after.flatMap Method.encode ++ b.servicesBytes) := by
    simp only [h.data_eq, Body.encode, Body.methodsBytes, vec, hsplit, List.flatMap_append,
      List.flatMap_cons, List.append_assoc]
  have hstart : b.sections.vmItems + (before.flatMap Method.encode).length =
      (head ++ b.nativesBytes ++ b.othersBytes ++ u32Bytes b.methods.length ++
        before.flatMap Method.encode).length := by
    simp only [Body.sections, List.length_append, h.length_head, length_u32Bytes]
  rw [h.sections_eq, hdata]
  refine ⟨Nat.le_add_right _ _, ?_, ?_, ?_⟩
  · simp only [Method.ref, Body.sections, Body.methodsBytes, vec, hsplit, List.flatMap_append,
      List.flatMap_cons, List.length_append, length_u32Bytes]
    omega
  · exact span_append hstart (by rw [← hstart]; rfl)
  · have hflags := m.flags_span (head ++ b.nativesBytes ++ b.othersBytes ++
      u32Bytes b.methods.length ++ before.flatMap Method.encode)
      (after.flatMap Method.encode ++ b.servicesBytes)
    rw [← hstart] at hflags
    exact hflags

theorem service_spans : ∀ r ∈ v.services, v.sections.svcItems ≤ r.start ∧
    r.endPos ≤ v.sections.endPos ∧
    ∃ svc ∈ b.services, r.fragment = svc.fragment ∧ span v.data r.start r.endPos = svc.encode := by
  intro r hr
  rw [h.services_eq] at hr
  obtain ⟨before, svc, after, hsplit, rfl⟩ := exists_of_mem_spans hr
  have hdata : v.data = (head ++ b.nativesBytes ++ b.othersBytes ++ b.methodsBytes ++
      u32Bytes b.services.length ++ before.flatMap Service.encode) ++ svc.encode ++
      after.flatMap Service.encode := by
    simp only [h.data_eq, Body.encode, Body.servicesBytes, vec, hsplit, List.flatMap_append,
      List.flatMap_cons, List.append_assoc]
  have hstart : b.sections.svcItems + (before.flatMap Service.encode).length =
      (head ++ b.nativesBytes ++ b.othersBytes ++ b.methodsBytes ++
        u32Bytes b.services.length ++ before.flatMap Service.encode).length := by
    simp only [Body.sections, List.length_append, h.length_head, length_u32Bytes]
  rw [h.sections_eq, hdata]
  refine ⟨Nat.le_add_right _ _, ?_, svc, by simp [hsplit], rfl, ?_⟩
  · simp only [Service.ref, Body.sections, Body.length_encode, Body.servicesBytes, vec, hsplit,
      List.flatMap_append, List.flatMap_cons, List.length_append, length_u32Bytes]
    omega
  · exact span_append hstart (by rw [← hstart]; rfl)

theorem mirrors : v.Mirrors b where
  sections := h.sections_eq
  endPos := h.endPos_eq
  vms := by
    have href (m : Method) (start : ℕ) : (m.ref start).toMethod = id m := rfl
    rw [h.vms_eq]
    exact ⟨rfl, (map_spans href _ _).trans (List.map_id _)⟩
  vm_spans := h.vm_spans
  services := by
    have href (svc : Service) (start : ℕ) : (svc.ref start).fragment = svc.fragment := rfl
    rw [h.services_eq]
    exact ⟨rfl, map_spans href _ _⟩
  service_spans := h.service_spans
  findVm := h.findVm_eq
  findService := h.findService_eq
  isNativeController := h.isNativeController_eq
  isAuthority := by
    intro key
    simp only [h.isAuthority_eq, Body.isAuthority, Method.isAuthority, List.any_eq_true,
      Bool.and_eq_true, beq_iff_eq, and_assoc]
  authorityCount := h.authorityCount_eq

end Shows

end DidView

/-- The parser accepts 58 bytes followed by the encoding of four lists and nothing else, the
lists are determined by the bytes, and the view then answers as they do. -/
theorem parse_accepts_exactly_the_layout (data : Bytes) :
    ((∃ v, DidView.parse data = .ok v) ↔
      ∃ head b, head.length = offSections ∧ Body.Fits b ∧ data = head ++ b.encode) ∧
    (∀ head b head' b', head.length = offSections → Body.Fits b → data = head ++ b.encode →
      head'.length = offSections → Body.Fits b' → data = head' ++ b'.encode →
      head = head' ∧ b = b') ∧
    ∀ v head b, DidView.parse data = .ok v → head.length = offSections → Body.Fits b →
      data = head ++ b.encode → v.data = data ∧ v.Mirrors b := by
  refine ⟨⟨?_, ?_⟩, ?_, ?_⟩
  · rintro ⟨v, hv⟩
    obtain ⟨head, b, hshows⟩ := v.exists_shows
    exact ⟨head, b, hshows.length_head, hshows.fits,
      (DidView.parse_ok_iff.mp hv).symm.trans hshows.data_eq⟩
  · rintro ⟨head, b, hhead, hb, rfl⟩
    obtain ⟨v, hv, -⟩ := DidView.exists_parse hhead hb
    exact ⟨v, hv⟩
  · intro head b head' b' hhead hb hdata hhead' hb' hdata'
    obtain ⟨hheads, hbodies⟩ :=
      List.append_inj (hdata.symm.trans hdata') (hhead.trans hhead'.symm)
    exact ⟨hheads, Body.encode_injective hb hb' hbodies⟩
  · intro v head b hv hhead hb hdata
    have hview : v.data = data := DidView.parse_ok_iff.mp hv
    have hshows : v.Shows head b := ⟨hhead, hb, hview.trans hdata⟩
    exact ⟨hview, hshows.mirrors⟩

end BioDidRegistry
