import BioDidRegistry.Document.Decode

/-!
# The section walk accepts exactly the layout

`Sections.parse` succeeds on 58 bytes followed by an encoded body and on
nothing else, and the offsets it computes are those of the encoder. The entry
iterators then walk the same bytes again by region, and return the encoded
entries with their spans.
-/

namespace BioDidRegistry

open BinaryFormat Cursor

namespace Reader

variable {s : Source} {α γ δ : Type}

def pos (r : Reader s) : ℕ := r.len - r.rest.length

theorem pos_skip {r : Reader s} {n : ℕ} (h : n ≤ r.rest.length) :
    (advance n r).pos = r.pos + n := by
  have hle := r.rest_le
  simp only [pos, rest_skip, len_skip, List.length_drop]
  omega

theorem pos_skip_over {r : Reader s} {bs : Bytes} (h : bs <+: r.rest) :
    (advance bs.length r).pos = r.pos + bs.length :=
  pos_skip h.length_le

@[simp] theorem offset_bind (f : ℕ → Read s δ) (r : Reader s) :
    (offset >>= f) r = f r.pos r := rfl

@[simp] theorem lift_bind {x : Except Fault α} {a : α} (h : x = .ok a) (f : α → Read s δ)
    (r : Reader s) : ((liftM x : Read s α) >>= f) r = f a r := by
  subst h
  rfl

/-- A counted section read entry by entry: where it began, its count, and where
its first entry is. -/
theorem counted_ok_iff {p : Read s α} {enc : γ → Bytes} {ok : γ → Prop} (h : Skips p enc ok)
    {f : ℕ → UInt32 → ℕ → Read s δ} {r r' : Reader s} {d : δ} :
    (do
      let start ← offset
      let n ← u32
      let items ← offset
      let _ ← collect p n.toNat
      f start n items) r = .ok d r' ↔
    ∃ n cs, (n.toNat = cs.length ∧ (∀ c ∈ cs, ok c) ∧ vec enc cs <+: r.rest) ∧
      f r.pos n (r.pos + 4) (advance (vec enc cs).length r) = .ok d r' := by
  simp only [offset_bind, u32_reads.bind_ok_iff, true_and, cursor_rest]
  constructor
  · rintro ⟨n, hn, hrun⟩
    obtain ⟨cs, ⟨⟨hlen, hok⟩, hpre⟩, hrun⟩ := (h.collect n.toNat).bind_ok_iff.mp hrun
    have hvec : vec enc cs = leBytes 4 n.toNat ++ cs.flatMap enc := by simp [vec, u32Bytes, hlen]
    refine ⟨n, cs, ⟨hlen.symm, hok, ?_⟩, ?_⟩
    · rw [hvec, append_prefix_iff]
      exact ⟨hn, hpre⟩
    · rw [pos_skip_over hn, advance_advance] at hrun
      simpa [hvec] using hrun
  · rintro ⟨n, cs, ⟨hlen, hok, hpre⟩, hrun⟩
    have hvec : vec enc cs = leBytes 4 n.toNat ++ cs.flatMap enc := by simp [vec, u32Bytes, hlen]
    rw [hvec, append_prefix_iff] at hpre
    refine ⟨n, hpre.1, (h.collect n.toNat).bind_ok_iff.mpr ⟨cs, ⟨⟨hlen.symm, hok⟩, hpre.2⟩, ?_⟩⟩
    rw [pos_skip_over hpre.1, advance_advance]
    simpa [hvec] using hrun

end Reader

/-! ### Walking over entries -/

theorem exists_tag_flags {bs : Bytes} (h : bs.length = 3) :
    ∃ t flags, bs = t :: u16Bytes flags := by
  obtain ⟨a, b, c, rfl⟩ := List.length_eq_three.mp h
  refine ⟨a, UInt16.ofNat (leValue [b, c]), ?_⟩
  have hlt : leValue [b, c] < 2 ^ 16 := by simpa using leValue_lt [b, c]
  rw [u16Bytes, UInt16.toNat_ofNat', Nat.mod_eq_of_lt hlt]
  exact congrArg _ (leBytes_leValue [b, c]).symm

theorem skipMethod_skips : Skips Sections.skipMethod Method.encode Method.Fits := by
  intro r r'
  simp only [Sections.skipMethod, Reader.lenPrefixed_reads.bind_ok_iff,
    (Reader.bytes_reads (1 + 2)).bind_ok_iff, Method.encode, append_prefix_iff, id_eq,
    Reader.cursor_rest, Reader.rest_skip, advance_advance, List.length_append, pure_ok_iff]
  constructor
  · rintro ⟨-, f, ⟨hf, hpf⟩, bs, ⟨hbs, hpbs⟩, k, ⟨hk, hpk⟩, -, rfl⟩
    obtain ⟨t, flags, rfl⟩ := exists_tag_flags hbs
    have htag : [t] ++ u16Bytes flags <+: r.rest.drop (Reader.lenPrefix f).length := hpbs
    rw [append_prefix_iff, List.drop_drop] at htag
    refine ⟨⟨f, t, flags, k⟩, ⟨⟨hf, hk⟩, ⟨⟨hpf, htag.1⟩, htag.2⟩, ?_⟩, ?_⟩
    · simpa using hpk
    · simp
  · rintro ⟨m, ⟨⟨hf, hk⟩, ⟨⟨hpf, ht⟩, hfl⟩, hpk⟩, rfl⟩
    refine ⟨(), m.fragment, ⟨hf, hpf⟩, [m.methodType] ++ u16Bytes m.flags, ⟨by simp, ?_⟩, m.key,
      ⟨hk, ?_⟩, trivial, ?_⟩
    · rw [append_prefix_iff, List.drop_drop]
      exact ⟨ht, hfl⟩
    · simpa using hpk
    · simp

theorem skipService_skips : Skips Sections.skipService Service.encode Service.Fits := by
  intro r r'
  simp only [Sections.skipService, Reader.lenPrefixed_reads.bind_ok_iff, Service.encode,
    append_prefix_iff, Reader.cursor_rest, Reader.rest_skip, advance_advance, List.length_append,
    pure_ok_iff]
  constructor
  · rintro ⟨-, f, ⟨hf, hpf⟩, t, ⟨ht, hpt⟩, e, ⟨he, hpe⟩, -, rfl⟩
    exact ⟨⟨f, t, e⟩, ⟨⟨hf, ht, he⟩, ⟨hpf, hpt⟩, hpe⟩, rfl⟩
  · rintro ⟨svc, ⟨⟨hf, ht, he⟩, ⟨hpf, hpt⟩, hpe⟩, rfl⟩
    exact ⟨(), _, ⟨hf, hpf⟩, _, ⟨ht, hpt⟩, _, ⟨he, hpe⟩, trivial, rfl⟩

theorem exists_addresses (n : ℕ) {bs : Bytes} (h : bs.length = n * 32) :
    ∃ as : List Address, as.length = n ∧ as.flatMap Subtype.val = bs := by
  induction n generalizing bs with
  | zero =>
    refine ⟨[], rfl, ?_⟩
    rw [Nat.zero_mul] at h
    exact (List.length_eq_zero_iff.mp h).symm
  | succ n ih =>
    have hdrop : (bs.drop 32).length = n * 32 := by
      rw [List.length_drop]
      omega
    obtain ⟨as, hlen, hflat⟩ := ih hdrop
    refine ⟨⟨bs.take 32, by rw [List.length_take]; omega⟩ :: as, by simp [hlen], ?_⟩
    rw [List.flatMap_cons, hflat]
    exact List.take_append_drop 32 bs

theorem length_flatMap_addresses (as : List Address) :
    (as.flatMap Subtype.val).length = as.length * 32 := by
  induction as with
  | nil => rfl
  | cons a as ih =>
    simp only [List.flatMap_cons, List.length_append, a.length_eq, ih, List.length_cons]
    omega

/-- The native controllers are read as one block of bytes. -/
theorem natives_ok_iff {δ : Type} {f : UInt32 → ℕ → Read .account δ} {r r' : Reader .account}
    {d : δ} :
    (do
      let n ← Reader.u32
      let items ← Reader.offset
      let len ← mulUsize n.toNat 32
      let _ ← Reader.bytes len
      f n items) r = .ok d r' ↔
    ∃ (n : UInt32) (as : List Address),
      (n.toNat = as.length ∧ vec Subtype.val as <+: r.rest) ∧
        f n (r.pos + 4) (advance (vec Subtype.val as).length r) = .ok d r' := by
  simp only [Reader.u32_reads.bind_ok_iff, Reader.offset_bind, true_and, Reader.cursor_rest]
  -- A `u32` count times 32 never overflows `usize`.
  have hmul (n : UInt32) : mulUsize n.toNat 32 = .ok (n.toNat * 32) := by
    have hlt : n.toNat < 2 ^ 32 := n.toNat_lt
    exact mulUsize_of_lt (by omega)
  simp only [Reader.lift_bind (hmul _), (Reader.bytes_reads _).bind_ok_iff, id_eq,
    Reader.cursor_rest, Reader.rest_skip, advance_advance]
  constructor
  · rintro ⟨n, hn, bs, ⟨hbs, hpre⟩, hrun⟩
    obtain ⟨as, hlen, rfl⟩ := exists_addresses n.toNat hbs
    have hvec : vec Subtype.val as = leBytes 4 n.toNat ++ as.flatMap Subtype.val := by
      rw [vec, hlen]
      rfl
    refine ⟨n, as, ⟨hlen.symm, ?_⟩, ?_⟩
    · rw [hvec, append_prefix_iff]
      exact ⟨hn, hpre⟩
    · rw [Reader.pos_skip_over hn, length_leBytes] at hrun
      rw [hvec, List.length_append, length_leBytes]
      exact hrun
  · rintro ⟨n, as, ⟨hlen, hpre⟩, hrun⟩
    have hvec : vec Subtype.val as = leBytes 4 n.toNat ++ as.flatMap Subtype.val := by
      rw [vec, hlen]
      rfl
    rw [hvec, append_prefix_iff] at hpre
    refine ⟨n, hpre.1, as.flatMap Subtype.val, ⟨?_, hpre.2⟩, ?_⟩
    · rw [length_flatMap_addresses, hlen]
    · rw [Reader.pos_skip_over hpre.1, length_leBytes]
      rw [hvec, List.length_append, length_leBytes] at hrun
      exact hrun

theorem encode_prefix_iff {b : Body} {l : Bytes} :
    b.encode <+: l ↔
      b.nativesBytes <+: l ∧ b.othersBytes <+: l.drop b.nativesBytes.length ∧
        b.methodsBytes <+: l.drop (b.nativesBytes.length + b.othersBytes.length) ∧
        b.servicesBytes <+:
          l.drop (b.nativesBytes.length + b.othersBytes.length + b.methodsBytes.length) := by
  simp only [Body.encode, append_prefix_iff, List.length_append, and_assoc]

/-- The positions a cursor at the first count measures in front of each section
are the offsets of the layout. -/
theorem measured_sections {r : Reader .account} {b : Body} (hpos : r.pos = offSections)
    (hpre : b.encode <+: r.rest) {nn no nm ns : ℕ} (hn : nn = b.natives.length)
    (ho : no = b.others.length) (hm : nm = b.methods.length) (hs : ns = b.services.length) :
    ({ ncCount := nn, ncItems := r.pos + 4
       ocCount := no, ocCountPos := (advance b.nativesBytes.length r).pos
       ocItems := (advance b.nativesBytes.length r).pos + 4
       vmCount := nm
       vmCountPos := (advance (b.nativesBytes.length + b.othersBytes.length) r).pos
       vmItems := (advance (b.nativesBytes.length + b.othersBytes.length) r).pos + 4
       svcCount := ns
       svcCountPos := (advance (b.nativesBytes.length + b.othersBytes.length +
         b.methodsBytes.length) r).pos
       svcItems := (advance (b.nativesBytes.length + b.othersBytes.length +
         b.methodsBytes.length) r).pos + 4
       endPos := (advance (b.nativesBytes.length + b.othersBytes.length +
         b.methodsBytes.length + b.servicesBytes.length) r).pos } : Sections) = b.sections := by
  have hle := hpre.length_le
  rw [b.length_encode] at hle
  have hadv {n : ℕ} (h : n ≤ r.rest.length) : (advance n r).pos = offSections + n := by
    rw [Reader.pos_skip h, hpos]
  rw [hadv (by omega), hadv (by omega), hadv (by omega), hadv (by omega)]
  subst hn ho hm hs
  simp only [Body.sections, b.length_encode, hpos, Nat.add_assoc]

/-- The walk accepts an encoded body that the input ends with, and nothing else. -/
theorem walk_ok_iff {r r' : Reader .account} {sections : Sections} (hpos : r.pos = offSections) :
    Sections.walk r = .ok sections r' ↔
      ∃ b : Body, b.Fits ∧ r.rest = b.encode ∧ sections = b.sections ∧
        r' = advance b.encode.length r := by
  unfold Sections.walk
  rw [natives_ok_iff]
  simp only [Reader.counted_ok_iff (Skips.of_reads Reader.lenPrefixed_reads)]
  simp only [Reader.counted_ok_iff skipMethod_skips]
  simp only [Reader.counted_ok_iff skipService_skips]
  simp only [Reader.offset_bind, bind_ok_iff, Reader.finish_ok_iff, pure_ok_iff, Reader.rest_skip,
    advance_advance]
  constructor
  · rintro ⟨nn, ns, ⟨hnn, hpn⟩, no, os, ⟨hno, hoko, hpo⟩, nm, ms, ⟨hnm, hokm, hpm⟩, nv, ss,
      ⟨hnv, hoks, hps⟩, -, r₁, ⟨hend, rfl⟩, rfl, rfl⟩
    have hlt (n : UInt32) : n.toNat < 2 ^ 32 := n.toNat_lt
    have hpre : (Body.mk ns os ms ss).encode <+: r.rest :=
      encode_prefix_iff.mpr ⟨hpn, hpo, hpm, hps⟩
    refine ⟨⟨ns, os, ms, ss⟩, ⟨hnn ▸ hlt nn, ⟨hno ▸ hlt no, hoko⟩, ⟨hnm ▸ hlt nm, hokm⟩,
      ⟨hnv ▸ hlt nv, hoks⟩⟩, ?_, measured_sections hpos hpre hnn hno hnm hnv, ?_⟩
    · have hdrop : r.rest.drop (Body.mk ns os ms ss).encode.length = [] := by
        rw [Body.length_encode]
        exact hend
      rw [prefix_eq_append hpre, hdrop, List.append_nil]
    · rw [Body.length_encode]
      rfl
  · rintro ⟨b, hb, hrest, rfl, rfl⟩
    have hpre : b.encode <+: r.rest := hrest ▸ List.prefix_rfl
    obtain ⟨hpn, hpo, hpm, hps⟩ := encode_prefix_iff.mp hpre
    have hto {n : ℕ} (h : n < 2 ^ 32) : (UInt32.ofNat n).toNat = n := UInt32.toNat_ofNat_of_lt h
    refine ⟨UInt32.ofNat _, b.natives, ⟨hto hb.natives, hpn⟩, UInt32.ofNat _, b.others,
      ⟨hto hb.others.1, hb.others.2, hpo⟩, UInt32.ofNat _, b.methods,
      ⟨hto hb.methods.1, hb.methods.2, hpm⟩, UInt32.ofNat _, b.services,
      ⟨hto hb.services.1, hb.services.2, hps⟩, (), _, ⟨?_, rfl⟩, ?_, ?_⟩
    · change r.rest.drop (b.nativesBytes.length + b.othersBytes.length + b.methodsBytes.length +
        b.servicesBytes.length) = []
      rw [← b.length_encode, hrest, List.drop_length]
    · exact (measured_sections hpos hpre (hto hb.natives) (hto hb.others.1) (hto hb.methods.1)
        (hto hb.services.1)).symm
    · rw [b.length_encode]
      rfl

/-- `Sections.parse` accepts 58 bytes and an encoded body, and nothing else. -/
theorem sections_parse_ok_iff {data : Bytes} {sections : Sections} :
    Sections.parse data = .ok sections ↔
      ∃ (head : Bytes) (b : Body), head.length = offSections ∧ b.Fits ∧
        data = head ++ b.encode ∧ sections = b.sections := by
  unfold Sections.parse Reader.at'
  split_ifs with hle
  · have hpos : Reader.pos (⟨data.drop offSections, data.length, by simp⟩ : Reader .account) =
        offSections := by
      simp only [Reader.pos, List.length_drop]
      omega
    rw [except_bind_ok, Reader.eval_ok_iff]
    simp only [walk_ok_iff hpos]
    constructor
    · rintro ⟨_, b, hb, hrest, rfl, -⟩
      refine ⟨data.take offSections, b, by simpa using hle, hb, ?_, rfl⟩
      rw [← hrest]
      exact (List.take_append_drop _ _).symm
    · rintro ⟨head, b, hhead, hb, rfl, rfl⟩
      refine ⟨_, b, hb, ?_, rfl, rfl⟩
      rw [← hhead, List.drop_left]
  · simp only [except_bind_error, false_iff, reduceCtorEq]
    rintro ⟨head, b, hhead, -, rfl, -⟩
    rw [List.length_append] at hle
    omega

end BioDidRegistry
