import BioDidRegistry.Document.Verdicts

/-!
# The edits in place

Each handler's byte moves, on the layout of a body, leave the layout of the
edited body. An edit is a span replacement: the bytes after the span move to
where the new span will end, the new span is written into the gap, and a count
elsewhere is patched. What is left past the end is cut off by the resize.
-/

namespace BioDidRegistry

open BinaryFormat

theorem bind_congr_ok {α β : Type} {x : Except Fault α} {f g : α → Except Fault β}
    (h : ∀ a, x = .ok a → f a = g a) : x >>= f = x >>= g := by
  cases x with
  | ok a => exact h a rfl
  | error e => rfl

theorem length_of_copyWithin {data d : Bytes} {first last dest : ℕ}
    (h : copyWithin data first last dest = .ok d) : d.length = data.length := by
  unfold copyWithin at h
  split_ifs at h with hin
  cases h
  apply length_splice
  rw [List.length_take, List.length_drop]
  omega

theorem writeAt_bind_writeAt {α : Type} {data xs ys : Bytes} {pos next : ℕ}
    {k : Bytes → Except Fault α} (hnext : next = pos + xs.length)
    (h : pos + xs.length + ys.length ≤ data.length) :
    (writeAt data pos xs >>= fun d => writeAt d next ys >>= k) =
      writeAt data pos (xs ++ ys) >>= k := by
  rw [← writeAt_writeAt hnext h, bind_assoc]

theorem copyWithin_cut {before old after : Bytes} {first last dest : ℕ}
    (hfirst : first = before.length + old.length)
    (hlast : last = before.length + old.length + after.length) (hdest : dest = before.length) :
    ∃ junk : Bytes, junk.length = old.length ∧
      copyWithin (before ++ old ++ after) first last dest = .ok (before ++ after ++ junk) := by
  obtain ⟨junk, hjunk, hrun⟩ := @writeAt_copyWithin before old after [] [] first last dest
    hfirst hlast (by simpa using hdest) (by simp)
  refine ⟨junk, by simpa using hjunk, ?_⟩
  rw [List.append_nil, except_bind_ok_iff] at hrun
  obtain ⟨d, hcopy, hwrite⟩ := hrun
  have hd : d = before ++ after ++ junk := by
    unfold writeAt at hwrite
    split_ifs at hwrite
    simpa [splice] using hwrite
  rw [hcopy, hd]

/-! ### Entries -/

theorem writeService_eq {data : Bytes} {pos : ℕ} (fragment serviceType endpoint : Bytes)
    (h : pos + (Service.encode ⟨fragment, serviceType, endpoint⟩).length ≤ data.length) :
    writeService data pos fragment serviceType endpoint =
      writeAt data pos (Service.encode ⟨fragment, serviceType, endpoint⟩) := by
  simp only [Service.length_encode] at h
  unfold writeService
  dsimp only
  rw [writeAt_bind_writeAt (by simp) (by simp; omega),
    writeAt_bind_writeAt (by simp; omega) (by simp; omega),
    writeAt_bind_writeAt (by simp; omega) (by simp; omega),
    writeAt_bind_writeAt (by simp; omega) (by simp; omega),
    writeAt_writeAt (by simp; omega) (by simp; omega)]
  simp only [Service.encode, Reader.lenPrefix, u32Bytes, List.append_assoc]

theorem vmSpace_eq {m : Method} (hm : m.Fits) :
    vmSpace m.fragment.length m.key.length = .ok m.encode.length := by
  obtain ⟨hf, hk⟩ := hm
  unfold vmSpace
  rw [addUsize_of_lt (by omega), except_bind_ok, addUsize_of_lt (by omega), except_bind_ok,
    addUsize_of_lt (by omega), except_bind_ok, addUsize_of_lt (by omega), except_bind_ok,
    addUsize_of_lt (by omega), Method.length_encode]
  congr 1
  omega

theorem serviceSpace_eq {svc : Service} (hs : svc.Fits) :
    serviceSpace svc.fragment.length svc.serviceType.length svc.endpoint.length =
      .ok svc.encode.length := by
  obtain ⟨hf, ht, he⟩ := hs
  unfold serviceSpace
  rw [addUsize_of_lt (by omega), except_bind_ok, addUsize_of_lt (by omega), except_bind_ok,
    addUsize_of_lt (by omega), except_bind_ok, addUsize_of_lt (by omega), except_bind_ok,
    addUsize_of_lt (by omega), Service.length_encode]
  congr 1
  omega

/-- The writes of `insertVm` between the move and the count are one write of the
encoded entry. -/
theorem insertVm_eq {data : Bytes} {s : Sections} (m : Method) (hm : m.Fits)
    (h : s.svcCountPos + m.encode.length ≤ data.length) (hsmall : data.length < 2 ^ 64) :
    insertVm data s m.toNew m.key = (do
      let data ← copyWithin data s.svcCountPos s.endPos (s.svcCountPos + m.encode.length)
      let data ← writeAt data s.svcCountPos m.encode
      let count ← addUsize s.vmCount 1
      writeAt data s.vmCountPos (u32Bytes count)) := by
  have hspace : vmSpace m.toNew.fragment.length m.key.length = .ok m.encode.length := vmSpace_eq hm
  have henc := m.length_encode
  unfold insertVm
  dsimp only
  rw [hspace, except_bind_ok, addUsize_of_lt (by omega), except_bind_ok]
  refine bind_congr_ok fun d hd => ?_
  have hlen := length_of_copyWithin hd
  rw [henc] at h
  change (writeAt d s.svcCountPos (u32Bytes m.fragment.length) >>= fun d =>
    writeAt d (s.svcCountPos + 4) m.fragment >>= _) = _
  rw [writeAt_bind_writeAt (by simp) (by simp; omega),
    writeAt_bind_writeAt (by simp [Method.toNew]; omega) (by simp; omega),
    writeAt_bind_writeAt (by simp [Method.toNew]; omega) (by simp; omega),
    writeAt_bind_writeAt (by simp [Method.toNew]; omega) (by simp; omega),
    writeAt_bind_writeAt (by simp [Method.toNew]; omega) (by simp; omega)]
  simp only [Method.encode, Reader.lenPrefix, u32Bytes, Method.toNew, List.append_assoc]

/-- One entry cut out of a counted section, and the count patched. -/
theorem cutEntry_eq {front before entry after : Bytes} {n : ℕ} {r : Removal}
    (hfirst : r.first = (front ++ u32Bytes n ++ before).length)
    (hlast : r.last = r.first + entry.length)
    (hold : r.oldLen = (front ++ u32Bytes n ++ before ++ entry ++ after).length)
    (hpos : r.countPos = front.length) (hcount : r.count = n) :
    ∃ junk : Bytes, junk.length = entry.length ∧
      (do
        let data ← copyWithin (front ++ u32Bytes n ++ before ++ entry ++ after) r.last r.oldLen
          r.first
        writeAt data r.countPos (u32Bytes (r.count - 1))) =
        .ok (front ++ u32Bytes (n - 1) ++ (before ++ after) ++ junk) := by
  obtain ⟨junk, hjunk, hcopy⟩ := @copyWithin_cut (front ++ u32Bytes n ++ before) entry after
    r.last r.oldLen r.first (by rw [hlast, hfirst])
    (by rw [hold, List.length_append, List.length_append]) hfirst
  refine ⟨junk, hjunk, ?_⟩
  have hsplit : front ++ u32Bytes n ++ before ++ after ++ junk =
      front ++ u32Bytes n ++ (before ++ after ++ junk) := by
    simp only [List.append_assoc]
  rw [hcopy, except_bind_ok, hsplit, writeAt_append hpos (by simp), hcount]
  simp only [List.append_assoc]

/-! ### Edits of a body -/

section Layout

variable {head : Bytes} {b : Body} (hhead : head.length = offSections)

include hhead

theorem insertVm_encode {m : Method} {zeros : Bytes} (hm : m.Fits)
    (hzeros : zeros.length = m.encode.length)
    (hsmall : (head ++ b.encode ++ zeros).length < 2 ^ 64)
    (hcount : b.methods.length + 1 < 2 ^ 64) :
    insertVm (head ++ b.encode ++ zeros) b.sections m.toNew m.key =
      .ok (head ++ ({ b with methods := b.methods ++ [m] } : Body).encode) := by
  have hbefore : b.sections.svcCountPos =
      (head ++ b.nativesBytes ++ b.othersBytes ++ b.methodsBytes).length := by
    simp only [Body.sections, List.length_append, hhead]
  have hend : b.sections.endPos = b.sections.svcCountPos + b.servicesBytes.length := by
    simp only [Body.sections, b.length_encode]
    omega
  have hdata : head ++ b.encode ++ zeros = head ++ b.nativesBytes ++ b.othersBytes ++
      b.methodsBytes ++ [] ++ b.servicesBytes ++ zeros := by
    simp only [Body.encode, List.append_assoc, List.nil_append]
  have hroom : b.sections.svcCountPos + m.encode.length ≤ (head ++ b.encode ++ zeros).length := by
    simp only [List.length_append, hzeros, hbefore, b.length_encode]
    omega
  obtain ⟨junk, hjunk, hedit⟩ := @writeAt_copyWithin
    (head ++ b.nativesBytes ++ b.othersBytes ++ b.methodsBytes) [] b.servicesBytes zeros m.encode
    b.sections.svcCountPos b.sections.endPos (b.sections.svcCountPos + m.encode.length)
    (by simpa using hbefore) (by rw [hend, hbefore]; simp) (by rw [hbefore]) (by simp [hzeros])
  have hnil : junk = [] := by
    apply List.length_eq_zero_iff.mp
    simpa [hzeros] using hjunk
  rw [insertVm_eq m hm hroom hsmall, ← bind_assoc, hdata]
  rw [← hbefore] at hedit
  rw [hedit, except_bind_ok, show b.sections.vmCount = b.methods.length from rfl,
    addUsize_of_lt hcount, except_bind_ok, hnil]
  have hsplit : head ++ b.nativesBytes ++ b.othersBytes ++ b.methodsBytes ++ m.encode ++
      b.servicesBytes ++ [] = (head ++ b.nativesBytes ++ b.othersBytes) ++
        u32Bytes b.methods.length ++
          (b.methods.flatMap Method.encode ++ m.encode ++ b.servicesBytes) := by
    simp only [Body.methodsBytes, vec, List.append_assoc, List.append_nil]
  rw [hsplit, writeAt_append (by simp only [Body.sections, List.length_append, hhead]) (by simp)]
  simp only [Body.encode, Body.nativesBytes, Body.othersBytes, Body.methodsBytes,
    Body.servicesBytes, vec, List.length_append, List.length_singleton, List.flatMap_append,
    List.flatMap_singleton, List.append_assoc]

theorem appendService_encode (svc : Service) (zeros : Bytes)
    (hzeros : zeros.length = svc.encode.length) :
    (do
      let data ← writeService (head ++ b.encode ++ zeros) b.sections.endPos svc.fragment
        svc.serviceType svc.endpoint
      writeAt data b.sections.svcCountPos (u32Bytes (b.services.length + 1))) =
      .ok (head ++ ({ b with services := b.services ++ [svc] } : Body).encode) := by
  have hend : b.sections.endPos = (head ++ b.encode).length := by
    simp only [Body.sections, List.length_append, hhead]
  have hroom : b.sections.endPos + svc.encode.length ≤ (head ++ b.encode ++ zeros).length := by
    simp only [hend, List.length_append, hzeros]
    omega
  rw [writeService_eq _ _ _ hroom]
  have hwrite : writeAt (head ++ b.encode ++ zeros) b.sections.endPos svc.encode =
      .ok (head ++ b.encode ++ svc.encode) := by
    have h := writeAt_append (c := []) hend hzeros.symm
    simpa only [List.append_nil] using h
  have hsplit : head ++ b.encode ++ svc.encode =
      (head ++ b.nativesBytes ++ b.othersBytes ++ b.methodsBytes) ++ u32Bytes b.services.length ++
        (b.services.flatMap Service.encode ++ svc.encode) := by
    simp only [Body.encode, Body.servicesBytes, vec, List.append_assoc]
  change (writeAt _ _ svc.encode >>= _) = _
  rw [hwrite, except_bind_ok, hsplit,
    writeAt_append (by simp only [Body.sections, List.length_append, hhead]) (by simp)]
  simp only [Body.encode, Body.nativesBytes, Body.othersBytes, Body.methodsBytes,
    Body.servicesBytes, vec, List.length_append, List.length_singleton, List.flatMap_append,
    List.flatMap_singleton, List.append_assoc]

theorem cutMethod_encode {r : Removal} {b' : Body} (h : b.CutsMethod r b') :
    ∃ junk : Bytes, junk.length = r.last - r.first ∧
      (do
        let data ← copyWithin (head ++ b.encode) r.last r.oldLen r.first
        writeAt data r.countPos (u32Bytes (r.count - 1))) = .ok (head ++ b'.encode ++ junk) := by
  obtain ⟨before, m, after, hms, rfl, rfl⟩ := h
  have hdata : head ++ b.encode =
      head ++ b.nativesBytes ++ b.othersBytes ++ u32Bytes b.methods.length ++
        before.flatMap Method.encode ++ m.encode ++
          (after.flatMap Method.encode ++ b.servicesBytes) := by
    simp only [Body.encode, Body.methodsBytes, vec, hms, List.flatMap_append, List.flatMap_cons,
      List.append_assoc]
  rw [hdata]
  obtain ⟨junk, hjunk, hrun⟩ := @cutEntry_eq (head ++ b.nativesBytes ++ b.othersBytes)
    (before.flatMap Method.encode) m.encode (after.flatMap Method.encode ++ b.servicesBytes)
    b.methods.length ⟨b.methodStart before, b.methodStart before + m.encode.length,
      b.sections.endPos, b.sections.vmCountPos, b.methods.length⟩
    (by simp only [Body.methodStart, Body.sections, List.length_append, hhead, length_u32Bytes])
    rfl (by rw [← hdata, List.length_append, hhead]; rfl)
    (by simp only [Body.sections, List.length_append, hhead]) rfl
  refine ⟨junk, by simp [hjunk], hrun.trans ?_⟩
  have hlen : b.methods.length - 1 = (before ++ after).length := by simp [hms]
  rw [hlen]
  simp only [Body.encode, Body.nativesBytes, Body.othersBytes, Body.methodsBytes,
    Body.servicesBytes, vec, List.flatMap_append, List.append_assoc]

theorem cutService_encode {r : Removal} {b' : Body} (h : b.CutsService r b') :
    ∃ junk : Bytes, junk.length = r.last - r.first ∧
      (do
        let data ← copyWithin (head ++ b.encode) r.last r.oldLen r.first
        writeAt data r.countPos (u32Bytes (r.count - 1))) = .ok (head ++ b'.encode ++ junk) := by
  obtain ⟨before, svc, after, hss, rfl, rfl⟩ := h
  have hdata : head ++ b.encode =
      head ++ b.nativesBytes ++ b.othersBytes ++ b.methodsBytes ++ u32Bytes b.services.length ++
        before.flatMap Service.encode ++ svc.encode ++ after.flatMap Service.encode := by
    simp only [Body.encode, Body.servicesBytes, vec, hss, List.flatMap_append, List.flatMap_cons,
      List.append_assoc]
  rw [hdata]
  obtain ⟨junk, hjunk, hrun⟩ := @cutEntry_eq
    (head ++ b.nativesBytes ++ b.othersBytes ++ b.methodsBytes)
    (before.flatMap Service.encode) svc.encode (after.flatMap Service.encode)
    b.services.length ⟨b.serviceStart before, b.serviceStart before + svc.encode.length,
      b.sections.endPos, b.sections.svcCountPos, b.services.length⟩
    (by simp only [Body.serviceStart, Body.sections, List.length_append, hhead, length_u32Bytes])
    rfl (by rw [← hdata, List.length_append, hhead]; rfl)
    (by simp only [Body.sections, List.length_append, hhead]) rfl
  refine ⟨junk, by simp [hjunk], hrun.trans ?_⟩
  have hlen : b.services.length - 1 = (before ++ after).length := by simp [hss]
  rw [hlen]
  simp only [Body.encode, Body.nativesBytes, Body.othersBytes, Body.methodsBytes,
    Body.servicesBytes, vec, List.flatMap_append, List.append_assoc]

theorem patchFlags_encode {flags : UInt16} {pos : ℕ} {b' : Body}
    (h : b.PatchesFlags flags pos b') :
    writeAt (head ++ b.encode) pos (u16Bytes flags) = .ok (head ++ b'.encode) := by
  obtain ⟨before, m, after, hms, rfl, rfl⟩ := h
  have hdata : head ++ b.encode =
      (head ++ b.nativesBytes ++ b.othersBytes ++ u32Bytes b.methods.length ++
        before.flatMap Method.encode ++ Reader.lenPrefix m.fragment ++ [m.methodType]) ++
          u16Bytes m.flags ++
            (Reader.lenPrefix m.key ++ after.flatMap Method.encode ++ b.servicesBytes) := by
    simp only [Body.encode, Body.methodsBytes, vec, hms, List.flatMap_append, List.flatMap_cons,
      Method.encode, List.append_assoc]
  have hpos : b.methodStart before + 5 + m.fragment.length = (head ++ b.nativesBytes ++
      b.othersBytes ++ u32Bytes b.methods.length ++ before.flatMap Method.encode ++
        Reader.lenPrefix m.fragment ++ [m.methodType]).length := by
    simp only [Body.methodStart, Body.sections, List.length_append, hhead, length_u32Bytes,
      Reader.length_lenPrefix, List.length_singleton]
    omega
  rw [hdata, writeAt_append hpos (by simp)]
  simp only [Body.encode, Body.nativesBytes, Body.othersBytes, Body.methodsBytes,
    Body.servicesBytes, vec, hms, List.flatMap_append, List.flatMap_cons, Method.encode,
    List.length_append, List.length_cons, List.append_assoc]

/-- A service written over another of any size, in data with room for it. -/
theorem replaceService_encode {svc : Service} {r : UpdateService.Replacement} {b' : Body}
    (spare : Bytes) (h : b.ReplacesService svc r b')
    (hroom : r.start + svc.encode.length ≤ r.last + spare.length) :
    ∃ junk : Bytes,
      junk.length + (head ++ b'.encode).length = (head ++ b.encode).length + spare.length ∧
      (do
        let data ← copyWithin (head ++ b.encode ++ spare) r.last r.oldLen
          (r.start + svc.encode.length)
        writeService data r.start svc.fragment svc.serviceType svc.endpoint) =
          .ok (head ++ b'.encode ++ junk) := by
  obtain ⟨before, old, after, hss, rfl, rfl⟩ := h
  have hdata : head ++ b.encode =
      (head ++ b.nativesBytes ++ b.othersBytes ++ b.methodsBytes ++ u32Bytes b.services.length ++
        before.flatMap Service.encode) ++ old.encode ++ after.flatMap Service.encode := by
    simp only [Body.encode, Body.servicesBytes, vec, hss, List.flatMap_append, List.flatMap_cons,
      List.append_assoc]
  have hnew : head ++ ({ b with services := before ++ svc :: after } : Body).encode =
      (head ++ b.nativesBytes ++ b.othersBytes ++ b.methodsBytes ++ u32Bytes b.services.length ++
        before.flatMap Service.encode) ++ svc.encode ++ after.flatMap Service.encode := by
    simp only [Body.encode, Body.nativesBytes, Body.othersBytes, Body.methodsBytes,
      Body.servicesBytes, vec, hss, List.flatMap_append, List.flatMap_cons, List.length_append,
      List.length_cons, List.append_assoc]
  have hstart : b.serviceStart before = (head ++ b.nativesBytes ++ b.othersBytes ++
      b.methodsBytes ++ u32Bytes b.services.length ++ before.flatMap Service.encode).length := by
    simp only [Body.serviceStart, Body.sections, List.length_append, hhead, length_u32Bytes]
  have hend : b.sections.endPos = (head ++ b.encode).length := by
    simp only [Body.sections, List.length_append, hhead]
  generalize head ++ b.nativesBytes ++ b.othersBytes ++ b.methodsBytes ++
    u32Bytes b.services.length ++ before.flatMap Service.encode = front at hdata hnew hstart
  rw [hdata] at hend
  rw [hdata, hnew]
  dsimp only at hroom ⊢
  obtain ⟨junk, hjunk, hedit⟩ := @writeAt_copyWithin front old.encode
    (after.flatMap Service.encode) spare svc.encode (b.serviceStart before + old.encode.length)
    b.sections.endPos (b.serviceStart before + svc.encode.length) (by rw [hstart])
    (by rw [hend, List.length_append, List.length_append]) (by rw [hstart]) (by omega)
  refine ⟨junk, ?_, ?_⟩
  · simp only [List.length_append] at hjunk ⊢
    omega
  · rw [← hedit]
    refine bind_congr_ok fun d hd => ?_
    have hlen := length_of_copyWithin hd
    have hfit : b.serviceStart before + svc.encode.length ≤ d.length := by
      rw [hlen, hstart]
      simp only [List.length_append]
      omega
    rw [← hstart]
    exact writeService_eq svc.fragment svc.serviceType svc.endpoint hfit

/-- Both controller lists written over the old ones, in data with room for them. -/
theorem replaceControllers_encode (natives : List Address) (others : List Bytes) (spare : Bytes)
    (hroom : offSections + (vec Subtype.val natives ++ vec Reader.lenPrefix others).length ≤
      b.sections.vmCountPos + spare.length) :
    ∃ junk : Bytes,
      junk.length + (head ++ ({ b with natives, others } : Body).encode).length =
        (head ++ b.encode).length + spare.length ∧
      (do
        let data ← copyWithin (head ++ b.encode ++ spare) b.sections.vmCountPos b.sections.endPos
          (offSections + (vec Subtype.val natives ++ vec Reader.lenPrefix others).length)
        writeAt data offSections (vec Subtype.val natives ++ vec Reader.lenPrefix others)) =
          .ok (head ++ ({ b with natives, others } : Body).encode ++ junk) := by
  have hdata : head ++ b.encode =
      head ++ (b.nativesBytes ++ b.othersBytes) ++ (b.methodsBytes ++ b.servicesBytes) := by
    simp only [Body.encode, List.append_assoc]
  have hnew : head ++ ({ b with natives, others } : Body).encode =
      head ++ (vec Subtype.val natives ++ vec Reader.lenPrefix others) ++
        (b.methodsBytes ++ b.servicesBytes) := by
    simp only [Body.encode, Body.nativesBytes, Body.othersBytes, Body.methodsBytes,
      Body.servicesBytes, List.append_assoc]
  have hpos : b.sections.vmCountPos = head.length + (b.nativesBytes ++ b.othersBytes).length := by
    simp only [Body.sections, List.length_append, hhead]
    omega
  have hend : b.sections.endPos = (head ++ b.encode).length := by
    simp only [Body.sections, List.length_append, hhead]
  rw [hdata] at hend
  rw [hdata, hnew, ← hhead]
  rw [← hhead] at hroom
  generalize vec Subtype.val natives ++ vec Reader.lenPrefix others = new at hroom ⊢
  obtain ⟨junk, hjunk, hedit⟩ := @writeAt_copyWithin head (b.nativesBytes ++ b.othersBytes)
    (b.methodsBytes ++ b.servicesBytes) spare new b.sections.vmCountPos b.sections.endPos
    (head.length + new.length) hpos (by rw [hend, List.length_append, List.length_append]) rfl
    (by omega)
  refine ⟨junk, ?_, hedit⟩
  simp only [List.length_append] at hjunk hroom hpos ⊢
  omega

end Layout

/-! ### The header -/

namespace Document

/-- The document with its version and time stamped. -/
def touched (d : Document) (now : Int64) : Document :=
  { d with version := saturatingSucc d.version, updatedAt := now }

theorem version_head (d : Document) (rest : Bytes) :
    BioDidRegistry.version (d.head ++ rest) = .ok d.version := by
  have hsplit : d.head ++ rest = accountDiscriminator ++ u64Bytes d.version ++
      ([d.bump] ++ d.subject.val ++ [d.deactivated] ++ i64Bytes d.updatedAt ++ rest) := by
    simp only [head, List.append_assoc]
  unfold BioDidRegistry.version
  rw [hsplit, slice_append (by rfl) (by simp [accountDiscriminator, offVersion]), except_bind_ok,
    u64Bytes, leValue_leBytes_of_lt (by simpa using d.version.toNat_lt), UInt64.ofNat_toNat]
  rfl

theorem touch_head (d : Document) (rest : Bytes) (now : Int64) :
    touch (d.head ++ rest) now = .ok ((d.touched now).head ++ rest) := by
  have hfirst : d.head ++ rest = accountDiscriminator ++ u64Bytes d.version ++
      ([d.bump] ++ d.subject.val ++ [d.deactivated] ++ i64Bytes d.updatedAt ++ rest) := by
    simp only [head, List.append_assoc]
  have hsecond : accountDiscriminator ++ u64Bytes (saturatingSucc d.version) ++
      ([d.bump] ++ d.subject.val ++ [d.deactivated] ++ i64Bytes d.updatedAt ++ rest) =
      (accountDiscriminator ++ u64Bytes (saturatingSucc d.version) ++ [d.bump] ++ d.subject.val ++
        [d.deactivated]) ++ i64Bytes d.updatedAt ++ rest := by
    simp only [List.append_assoc]
  unfold touch
  rw [version_head, except_bind_ok, hfirst, writeAt_append (by rfl) (by simp), except_bind_ok,
    hsecond, writeAt_append (by simp [offUpdatedAt, accountDiscriminator, d.subject.length_eq])
    (by simp)]
  rfl

/-- The deactivated byte set and the four counts zeroed. -/
theorem deactivate_encode (d : Document) {tail : Bytes} (htail : 16 ≤ tail.length) :
    (do
      let data ← writeAt (d.head ++ tail) offDeactivated [1]
      writeAt data offSections (List.replicate (tombstoneSpace - offSections) 0)) =
      .ok ({ d with deactivated := 1 }.head ++ Body.empty.encode ++ tail.drop 16) := by
  have hfirst : d.head ++ tail = (accountDiscriminator ++ u64Bytes d.version ++ [d.bump] ++
      d.subject.val) ++ [d.deactivated] ++ (i64Bytes d.updatedAt ++ tail) := by
    simp only [head, List.append_assoc]
  have hsecond : (accountDiscriminator ++ u64Bytes d.version ++ [d.bump] ++ d.subject.val) ++
      [1] ++ (i64Bytes d.updatedAt ++ tail) =
      { d with deactivated := 1 }.head ++ tail.take 16 ++ tail.drop 16 := by
    rw [List.append_assoc _ (tail.take 16), List.take_append_drop]
    simp only [head, List.append_assoc]
  rw [hfirst, writeAt_append (by simp [offDeactivated, accountDiscriminator, d.subject.length_eq])
    (by simp), except_bind_ok, hsecond,
    writeAt_append (by simp) (by simp [tombstoneSpace, offSections]; omega)]
  rfl

end Document

/-! ### Lengths -/

theorem Body.length_setFlags {signer : Address} {fragment : Bytes} {flags : UInt16} {b b' : Body}
    (h : Body.setFlags signer fragment flags b = .ok b') :
    b'.encode.length = b.encode.length := by
  obtain ⟨before, m, after, hsplit, -, -, -, -, rfl⟩ := Body.setFlags_ok h
  have hlen := Body.length_replaceMethod hsplit [{ m with flags }]
  simp only [List.flatMap_singleton, List.singleton_append, Method.length_encode] at hlen
  omega

end BioDidRegistry
