import BioDidRegistry.Document.Parsing

/-!
# What a view of an encoded document answers

`v.Shows head b` says that the view `v` lies over `head` and the encoding of
`b`. Every view shows exactly one such pair, and every question the program
asks a view is then a question about the lists of `b`.
-/

namespace BioDidRegistry

open BinaryFormat Cursor

/-! ### The iterators -/

/-- A region between two known parts of the data. -/
theorem section'_append {a b c : Bytes} {i n : ℕ} (hi : i = a.length)
    (hn : n = a.length + b.length) :
    (section' (a ++ b ++ c) i n).rest = b ∧ (section' (a ++ b ++ c) i n).pos = i := by
  subst hi hn
  have hin : a.length + b.length ≤ (a ++ b ++ c).length := by simp
  have htake : (a ++ b ++ c).take (a.length + b.length) = a ++ b := by
    rw [← List.length_append, List.take_left]
  have hle : a.length ≤ (a ++ b).length := by simp
  unfold section' Reader.at'
  rw [if_pos hin, htake, if_pos hle]
  refine ⟨List.drop_left, ?_⟩
  simp [Reader.pos]

/-- An iterator over back to back encodings returns each of them in order, with
its span, and stops at the end of the region. -/
theorem entries_eq_spans {α γ : Type} {p : Read .account α} {enc : γ → Bytes} {ref : γ → ℕ → α}
    {ok : γ → Prop}
    (hp : ∀ x r, ok x → enc x <+: r.rest → p r = .ok (ref x r.pos) (advance (enc x).length r))
    (hne : ∀ x, enc x ≠ []) {xs : List γ} (hxs : ∀ x ∈ xs, ok x) {fuel : ℕ}
    {r : Reader .account} (hrest : r.rest = xs.flatMap enc) (hfuel : r.rest.length ≤ fuel) :
    entries p fuel r = spans enc ref r.pos xs := by
  induction xs generalizing r fuel with
  | nil =>
    have hnone : next p r = none := by simp [next, hrest]
    cases fuel with
    | zero => rfl
    | succ fuel => simp [entries, hnone, spans]
  | cons x xs ih =>
    obtain ⟨hx, hxs⟩ := List.forall_mem_cons.mp hxs
    rw [List.flatMap_cons] at hrest
    have hpre : enc x <+: r.rest := hrest ▸ List.prefix_append _ _
    have hpos : 0 < (enc x).length := List.length_pos_iff.mpr (hne x)
    have hlen : r.rest.length = (enc x).length + (xs.flatMap enc).length := by
      rw [hrest, List.length_append]
    have hsome : next p r = some (ref x r.pos, advance (enc x).length r) := by
      have hnil : r.rest.isEmpty = false := by
        cases h : r.rest with
        | nil => rw [h, List.length_nil] at hlen; omega
        | cons _ _ => rfl
      simp [next, hnil, hp x r hx hpre]
    cases fuel with
    | zero => omega
    | succ fuel =>
      have hrest' : (advance (enc x).length r).rest = xs.flatMap enc := by
        rw [Reader.rest_skip, hrest, List.drop_left]
      rw [entries, hsome]
      simp only [spans]
      rw [ih hxs hrest' (by rw [hrest']; omega), Reader.pos_skip_over hpre]

theorem readVm_run (m : Method) (r : Reader .account) (hm : m.Fits)
    (hpre : m.encode <+: r.rest) :
    readVm r = .ok (m.ref r.pos) (advance m.encode.length r) := by
  have hend := Reader.pos_skip_over hpre
  simp only [Method.encode, append_prefix_iff, List.length_append] at hpre
  obtain ⟨⟨⟨hf, ht⟩, hfl⟩, hk⟩ := hpre
  have htpos := Reader.pos_skip (r := r) (n := (Reader.lenPrefix m.fragment).length + 1) (by
    have := ht.length_le
    rw [List.length_drop] at this
    simp only [List.length_cons, List.length_nil] at this
    omega)
  simp only [readVm, Reader.offset_bind]
  rw [Reader.lenPrefixed_reads.bind_run hm.1 hf,
    Reader.u8_reads.bind_run trivial (by simpa using ht)]
  simp only [Reader.offset_bind, advance_advance]
  rw [Reader.u16_reads.bind_run trivial (by simpa [u16Bytes] using hfl), advance_advance,
    Reader.lenPrefixed_reads.bind_run hm.2 (by simpa [u16Bytes] using hk), advance_advance]
  have hall : (Reader.lenPrefix m.fragment).length + [m.methodType].length +
      (leBytes 2 m.flags.toNat).length + (Reader.lenPrefix m.key).length = m.encode.length := by
    simp only [Method.encode, u16Bytes, List.length_append]
  simp only [List.length_cons, List.length_nil, Nat.zero_add] at hall ⊢
  rw [hall, htpos]
  simp only [Reader.offset_bind, hend, Method.ref, Reader.length_lenPrefix]
  rw [show r.pos + (4 + m.fragment.length + 1) = r.pos + 5 + m.fragment.length by omega]
  rfl

theorem readSvc_run (svc : Service) (r : Reader .account) (hs : svc.Fits)
    (hpre : svc.encode <+: r.rest) :
    readSvc r = .ok (svc.ref r.pos) (advance svc.encode.length r) := by
  have hend := Reader.pos_skip_over hpre
  simp only [Service.encode, append_prefix_iff, List.length_append] at hpre
  obtain ⟨⟨hf, ht⟩, he⟩ := hpre
  simp only [readSvc, Reader.offset_bind]
  rw [Reader.lenPrefixed_reads.bind_run hs.1 hf,
    Reader.lenPrefixed_reads.bind_run hs.2.1 (by simpa using ht), advance_advance,
    Reader.lenPrefixed_reads.bind_run hs.2.2 (by simpa using he), advance_advance]
  have hall : (Reader.lenPrefix svc.fragment).length + (Reader.lenPrefix svc.serviceType).length +
      (Reader.lenPrefix svc.endpoint).length = svc.encode.length := by
    simp only [Service.encode, List.length_append]
  rw [hall]
  simp only [Reader.offset_bind, hend, Service.ref]
  rfl

/-! ### Questions about every entry -/

section Spans

variable {α γ : Type} {enc : γ → Bytes} {ref : γ → ℕ → α} {g : α → Bool} {f : γ → Bool}

theorem any_spans (hg : ∀ x start, g (ref x start) = f x) (start : ℕ) (xs : List γ) :
    (spans enc ref start xs).any g = xs.any f := by
  induction xs generalizing start with
  | nil => rfl
  | cons x xs ih => simp only [spans, List.any_cons, hg, ih]

theorem countP_spans (hg : ∀ x start, g (ref x start) = f x) (start : ℕ) (xs : List γ) :
    (spans enc ref start xs).countP g = xs.countP f := by
  induction xs generalizing start with
  | nil => rfl
  | cons x xs ih => simp only [spans, List.countP_cons, hg, ih]

theorem map_spans {δ : Type} {g : α → δ} {f : γ → δ} (hg : ∀ x start, g (ref x start) = f x)
    (start : ℕ) (xs : List γ) : (spans enc ref start xs).map g = xs.map f := by
  induction xs generalizing start with
  | nil => rfl
  | cons x xs ih => simp only [spans, List.map_cons, hg, ih]

/-- The first matching entry, with the place its predecessors leave it at. -/
theorem find?_spans (hg : ∀ x start, g (ref x start) = f x) (start : ℕ) (xs : List γ) :
    (spans enc ref start xs).find? g = xs[xs.findIdx f]?.map fun x =>
      ref x (start + ((xs.take (xs.findIdx f)).flatMap enc).length) := by
  induction xs generalizing start with
  | nil => rfl
  | cons x xs ih =>
    cases hx : f x with
    | true => simp [spans, hg, hx, List.findIdx_cons]
    | false =>
      rw [spans, List.find?_cons_of_neg (by simp [hg, hx]), ih, List.findIdx_cons, hx]
      simp [Nat.add_assoc]

end Spans

/-- Cutting concatenated addresses into chunks gives the addresses back. -/
theorem chunks32_flatMap (as : List Address) :
    DidView.chunks32 (as.flatMap Subtype.val) = as.map Subtype.val := by
  have hcount : (as.flatMap Subtype.val).length / 32 = as.length := by
    rw [length_flatMap_addresses]
    omega
  rw [DidView.chunks32, hcount]
  induction as with
  | nil => rfl
  | cons a as ih =>
    have ih := ih (by rw [length_flatMap_addresses]; omega)
    have hhead : (a.val ++ as.flatMap Subtype.val).take 32 = a.val :=
      List.take_left' a.length_eq
    have htail (i : ℕ) : (a.val ++ as.flatMap Subtype.val).drop (32 * (i + 1)) =
        (as.flatMap Subtype.val).drop (32 * i) := by
      rw [show 32 * (i + 1) = a.val.length + 32 * i by rw [a.length_eq]; omega,
        ← List.drop_drop, List.drop_left]
    rw [List.length_cons, List.range_succ_eq_map, List.map_cons, List.map_map, List.map_cons,
      List.flatMap_cons, ← ih]
    simp only [Nat.mul_zero, List.drop_zero, hhead, Function.comp_def, Nat.succ_eq_add_one, htail]

/-! ### Views -/

/-- The view lies over `head` and the encoding of `b`. -/
structure DidView.Shows (v : DidView) (head : Bytes) (b : Body) : Prop where
  length_head : head.length = offSections
  fits : b.Fits
  data_eq : v.data = head ++ b.encode

namespace DidView

theorem exists_shows (v : DidView) : ∃ head b, v.Shows head b := by
  obtain ⟨head, b, hhead, hb, hdata, -⟩ := sections_parse_ok_iff.mp v.parsed
  exact ⟨head, b, hhead, hb, hdata⟩

theorem parse_ok_iff {data : Bytes} {v : DidView} : parse data = .ok v ↔ v.data = data := by
  unfold parse
  split
  · rename_i sections h
    constructor
    · intro hv
      cases hv
      rfl
    · rintro rfl
      have hs : sections = v.sections := Except.ok.inj (h.symm.trans v.parsed)
      subst hs
      rfl
  · rename_i e h
    constructor
    · intro hv
      cases hv
    · rintro rfl
      rw [v.parsed] at h
      cases h

/-- Parsing what the layout produces succeeds. -/
theorem exists_parse {head : Bytes} {b : Body} (hhead : head.length = offSections) (hb : b.Fits) :
    ∃ v : DidView, parse (head ++ b.encode) = .ok v ∧ v.Shows head b := by
  have hparse := sections_parse_ok_iff.mpr ⟨head, b, hhead, hb, rfl, rfl⟩
  exact ⟨⟨_, _, hparse⟩, parse_ok_iff.mpr rfl, hhead, hb, rfl⟩

namespace Shows

variable {v : DidView} {head : Bytes} {b : Body} (h : v.Shows head b)

include h

theorem sections_eq : v.sections = b.sections := by
  have hparse := sections_parse_ok_iff.mpr ⟨head, b, h.length_head, h.fits, h.data_eq, rfl⟩
  exact Except.ok.inj (v.parsed.symm.trans hparse)

theorem length_data : v.data.length = offSections + b.encode.length := by
  rw [h.data_eq, List.length_append, h.length_head]

theorem endPos_eq : v.sections.endPos = v.data.length := by
  rw [h.sections_eq, h.length_data]
  rfl

theorem vms_eq : v.vms = b.vmRefs := by
  obtain ⟨hrest, hpos⟩ := section'_append
    (a := head ++ b.nativesBytes ++ b.othersBytes ++ u32Bytes b.methods.length)
    (b := b.methods.flatMap Method.encode) (c := b.servicesBytes)
    (i := b.sections.vmItems) (n := b.sections.svcCountPos)
    (by simp only [Body.sections, List.length_append, h.length_head, length_u32Bytes])
    (by simp only [Body.sections, Body.methodsBytes, vec, List.length_append, h.length_head,
      length_u32Bytes]; omega)
  have hdata : v.data = head ++ b.nativesBytes ++ b.othersBytes ++ u32Bytes b.methods.length ++
      b.methods.flatMap Method.encode ++ b.servicesBytes := by
    simp only [h.data_eq, Body.encode, Body.methodsBytes, vec, List.append_assoc]
  rw [vms, h.sections_eq, hdata]
  rw [entries_eq_spans (fun m r hm hpre => readVm_run m r hm hpre)
    (fun m hm => by simpa using congrArg List.length hm) h.fits.methods.2 hrest le_rfl, hpos]
  rfl

theorem services_eq : v.services = b.svcRefs := by
  obtain ⟨hrest, hpos⟩ := section'_append
    (a := head ++ b.nativesBytes ++ b.othersBytes ++ b.methodsBytes ++
      u32Bytes b.services.length)
    (b := b.services.flatMap Service.encode) (c := [])
    (i := b.sections.svcItems) (n := b.sections.endPos)
    (by simp only [Body.sections, List.length_append, h.length_head, length_u32Bytes])
    (by simp only [Body.sections, Body.length_encode, Body.servicesBytes, vec, List.length_append,
      h.length_head, length_u32Bytes]; omega)
  have hdata : v.data = head ++ b.nativesBytes ++ b.othersBytes ++ b.methodsBytes ++
      u32Bytes b.services.length ++ b.services.flatMap Service.encode ++ [] := by
    simp only [h.data_eq, Body.encode, Body.servicesBytes, vec, List.append_assoc, List.append_nil]
  rw [services, h.sections_eq, hdata]
  rw [entries_eq_spans (fun svc r hs hpre => readSvc_run svc r hs hpre)
    (fun svc hs => by simpa using congrArg List.length hs) h.fits.services.2 hrest le_rfl, hpos]
  rfl

theorem findVm_eq (fragment : Bytes) :
    v.findVm fragment =
      b.methods[b.methods.findIdx fun m => m.fragment == fragment]?.map fun m =>
        m.ref (b.sections.vmItems +
          ((b.methods.take (b.methods.findIdx fun m => m.fragment == fragment)).flatMap
            Method.encode).length) := by
  have href (m : Method) (start : ℕ) :
      ((m.ref start).fragment == fragment) = (m.fragment == fragment) := rfl
  rw [findVm, h.vms_eq]
  exact find?_spans href _ _

theorem findService_eq (fragment : Bytes) :
    v.findService fragment =
      b.services[b.services.findIdx fun svc => svc.fragment == fragment]?.map fun svc =>
        svc.ref (b.sections.svcItems +
          ((b.services.take (b.services.findIdx fun svc => svc.fragment == fragment)).flatMap
            Service.encode).length) := by
  have href (svc : Service) (start : ℕ) :
      ((svc.ref start).fragment == fragment) = (svc.fragment == fragment) := rfl
  rw [findService, h.services_eq]
  exact find?_spans href _ _

theorem isAuthority_eq (signer : Address) : v.isAuthority signer = b.isAuthority signer := by
  have href (m : Method) (start : ℕ) : ((m.ref start).isAuthority &&
      (m.ref start).key == signer.val) = (m.isAuthority && m.key == signer.val) := rfl
  rw [isAuthority, h.vms_eq]
  exact any_spans href _ _

theorem authorityCount_eq : v.authorityCount = b.authorityCount := by
  rw [authorityCount, h.vms_eq]
  exact countP_spans Method.isAuthority_ref _ _

theorem isNativeController_eq (key : Address) :
    v.isNativeController key = .ok (decide (key ∈ b.natives)) := by
  have hcount := h.fits.natives
  have hdata : v.data = head ++ u32Bytes b.natives.length ++ b.natives.flatMap Subtype.val ++
      (b.othersBytes ++ b.methodsBytes ++ b.servicesBytes) := by
    simp only [h.data_eq, Body.encode, Body.nativesBytes, vec, List.append_assoc]
  have hstart : (head ++ u32Bytes b.natives.length).length = offSections + 4 := by
    rw [List.length_append, h.length_head, length_u32Bytes]
  have hany : ((b.natives.map Subtype.val).any fun controller => controller == key.val) =
      decide (key ∈ b.natives) := by
    rw [Bool.eq_iff_iff]
    simp only [List.any_map, List.any_eq_true, Function.comp_apply, beq_iff_eq,
      decide_eq_true_eq]
    constructor
    · rintro ⟨a, ha, hkey⟩
      exact Subtype.ext hkey ▸ ha
    · intro hkey
      exact ⟨key, hkey, rfl⟩
  rw [isNativeController, h.sections_eq]
  simp only [Body.sections]
  rw [mulUsize_of_lt (by omega), except_bind_ok,
    addUsize_of_lt (by simp only [offSections]; omega), except_bind_ok, hdata,
    slice_append hstart.symm (by rw [hstart, length_flatMap_addresses]; omega), except_bind_ok,
    chunks32_flatMap, hany, except_pure]

end Shows

end DidView

end BioDidRegistry
