import BioDidRegistry.Document.Format

/-!
# Reading a document back

`Document.decode` deserializes account data by the documented layout. It is the
inverse of `Document.encode`: every reader below is exact, so what it accepts is
the encoding of what it returns, and no two documents share their bytes.
-/

namespace BioDidRegistry

open BinaryFormat Cursor

namespace Reader

variable {α : Type} {s : Source}

/-- A borsh vector of what `p` reads. -/
def vector (p : Read s α) : Read s (List α) := do
  let n ← u32
  collect p n.toNat

theorem vector_reads {p : Read s α} {enc : α → Bytes} {ok : α → Prop} (h : Reads p enc ok) :
    Reads (vector p) (vec enc) fun as => as.length < 2 ^ 32 ∧ ∀ a ∈ as, ok a := by
  intro r as r'
  simp only [vector, u32_reads.bind_ok_iff, h.collect _ _ _ _, vec, u32Bytes, append_prefix_iff,
    cursor_rest, rest_skip, true_and, length_leBytes, List.length_append, advance_advance]
  constructor
  · rintro ⟨n, hn, ⟨hlen, hok⟩, hpre, rfl⟩
    have hlt : n.toNat < 2 ^ 32 := n.toNat_lt
    exact ⟨⟨hlen ▸ hlt, hok⟩, ⟨by rwa [hlen], hpre⟩, rfl⟩
  · rintro ⟨⟨hlt, hok⟩, ⟨hn, hpre⟩, rfl⟩
    have hto : (UInt32.ofNat as.length).toNat = as.length := UInt32.toNat_ofNat_of_lt hlt
    exact ⟨UInt32.ofNat as.length, by rwa [hto], ⟨hto.symm, hok⟩, hpre, rfl⟩

end Reader

def Method.read : Read .account Method := do
  let fragment ← Reader.lenPrefixed
  let methodType ← Reader.u8
  let flags ← Reader.u16
  let key ← Reader.lenPrefixed
  pure ⟨fragment, methodType, flags, key⟩

theorem Method.read_reads : Reads Method.read Method.encode Method.Fits := by
  intro r m r'
  simp only [Method.read, Reader.lenPrefixed_reads.bind_ok_iff, Reader.u8_reads.bind_ok_iff,
    Reader.u16_reads.bind_ok_iff, pure_ok_iff, Method.encode, u16Bytes, append_prefix_iff,
    Reader.cursor_rest, Reader.rest_skip, true_and, advance_advance, List.length_append]
  constructor
  · rintro ⟨fragment, ⟨hf, hpf⟩, t, ht, flags, hfl, key, ⟨hk, hpk⟩, rfl, rfl⟩
    exact ⟨⟨hf, hk⟩, ⟨⟨⟨hpf, ht⟩, hfl⟩, hpk⟩, rfl⟩
  · rintro ⟨⟨hf, hk⟩, ⟨⟨⟨hpf, ht⟩, hfl⟩, hpk⟩, rfl⟩
    exact ⟨_, ⟨hf, hpf⟩, _, ht, _, hfl, _, ⟨hk, hpk⟩, rfl, rfl⟩

def Service.read : Read .account Service := do
  let fragment ← Reader.lenPrefixed
  let serviceType ← Reader.lenPrefixed
  let endpoint ← Reader.lenPrefixed
  pure ⟨fragment, serviceType, endpoint⟩

theorem Service.read_reads : Reads Service.read Service.encode Service.Fits := by
  intro r svc r'
  simp only [Service.read, Reader.lenPrefixed_reads.bind_ok_iff, pure_ok_iff, Service.encode,
    append_prefix_iff, Reader.cursor_rest, Reader.rest_skip, advance_advance, List.length_append]
  constructor
  · rintro ⟨f, ⟨hf, hpf⟩, t, ⟨ht, hpt⟩, e, ⟨he, hpe⟩, rfl, rfl⟩
    exact ⟨⟨hf, ht, he⟩, ⟨⟨hpf, hpt⟩, hpe⟩, rfl⟩
  · rintro ⟨⟨hf, ht, he⟩, ⟨⟨hpf, hpt⟩, hpe⟩, rfl⟩
    exact ⟨_, ⟨hf, hpf⟩, _, ⟨ht, hpt⟩, _, ⟨he, hpe⟩, rfl, rfl⟩

def Body.read : Read .account Body := do
  let natives ← Reader.vector (Reader.array 32)
  let others ← Reader.vector Reader.lenPrefixed
  let methods ← Reader.vector Method.read
  let services ← Reader.vector Service.read
  pure ⟨natives, others, methods, services⟩

theorem Body.read_reads : Reads Body.read Body.encode Body.Fits := by
  intro r b r'
  simp only [Body.read, (Reader.vector_reads (Reader.array_reads 32)).bind_ok_iff,
    (Reader.vector_reads Reader.lenPrefixed_reads).bind_ok_iff,
    (Reader.vector_reads Method.read_reads).bind_ok_iff,
    (Reader.vector_reads Service.read_reads).bind_ok_iff, pure_ok_iff, Body.encode,
    Body.nativesBytes, Body.othersBytes, Body.methodsBytes, Body.servicesBytes,
    append_prefix_iff, Reader.cursor_rest, Reader.rest_skip, advance_advance, List.length_append]
  constructor
  · rintro ⟨ns, ⟨⟨hn, -⟩, hpn⟩, os, ⟨ho, hpo⟩, ms, ⟨hm, hpm⟩, ss, ⟨hs, hps⟩, rfl, rfl⟩
    exact ⟨⟨hn, ho, hm, hs⟩, ⟨⟨⟨hpn, hpo⟩, hpm⟩, hps⟩, rfl⟩
  · rintro ⟨⟨hn, ho, hm, hs⟩, ⟨⟨⟨hpn, hpo⟩, hpm⟩, hps⟩, rfl⟩
    exact ⟨_, ⟨⟨hn, fun _ _ => trivial⟩, hpn⟩, _, ⟨ho, hpo⟩, _, ⟨hm, hpm⟩, _, ⟨hs, hps⟩, rfl, rfl⟩

theorem Body.encode_injective {b b' : Body} (hb : b.Fits) (hb' : b'.Fits)
    (h : b.encode = b'.encode) : b = b' := by
  apply Body.read_reads.unique hb hb' (s := Reader.new .account b.encode)
  · exact List.prefix_rfl
  · rw [h]
    exact List.prefix_rfl

namespace Document

/-- Reads a whole account, which must start with the discriminator. -/
def read : Read .account Document := do
  let disc ← Reader.bytes 8
  if disc ≠ accountDiscriminator then throw (Fault.program .invalidAccountData)
  let version ← Reader.u64
  let bump ← Reader.u8
  let subject ← Reader.array 32
  let deactivated ← Reader.u8
  let updatedAt ← Reader.u64
  let body ← Body.read
  pure ⟨version, bump, subject, deactivated, updatedAt.toInt64, body⟩

/-- The document in account data, if the layout accounts for every byte. -/
def decode (data : Bytes) : Option Document :=
  match read (Reader.new .account data) with
  | .ok d r => if r.rest.isEmpty then some d else none
  | .error _ _ => none

/-- Counts and lengths are `u32` numbers. -/
def Fits (d : Document) : Prop := d.body.Fits

theorem read_reads : Reads read encode Fits := by
  intro r d r'
  have hdisc (f : Read .account Document) : (do
      let disc ← Reader.bytes 8
      if disc ≠ accountDiscriminator then throw (Fault.program .invalidAccountData)
      f) r = .ok d r' ↔ accountDiscriminator <+: r.rest ∧ f (advance 8 r) = .ok d r' := by
    simp only [(Reader.bytes_reads 8).bind_ok_iff, id_eq, Reader.cursor_rest]
    constructor
    · rintro ⟨bs, ⟨hlen, hpre⟩, h⟩
      split_ifs at h with hne
      · cases h
      · rw [ne_eq, not_not] at hne
        subst hne
        exact ⟨hpre, h⟩
    · rintro ⟨hpre, h⟩
      exact ⟨_, ⟨rfl, hpre⟩, by rw [if_neg (by simp)]; exact h⟩
  simp only [read, hdisc, Reader.u64_reads.bind_ok_iff, Reader.u8_reads.bind_ok_iff,
    (Reader.array_reads 32).bind_ok_iff, Body.read_reads.bind_ok_iff, pure_ok_iff, encode, head,
    u64Bytes, i64Bytes, append_prefix_iff, Reader.cursor_rest, Reader.rest_skip, true_and,
    advance_advance, List.length_append]
  constructor
  · rintro ⟨hp, v, hv, bump, hbump, subj, hsubj, de, hde, at', hat, b, ⟨hb, hpb⟩, rfl, rfl⟩
    refine ⟨hb, ⟨⟨⟨⟨⟨⟨hp, hv⟩, hbump⟩, hsubj⟩, hde⟩, ?_⟩, ?_⟩, ?_⟩
    · simpa [accountDiscriminator] using hat
    · simpa [accountDiscriminator] using hpb
    · simp [accountDiscriminator]
  · rintro ⟨hb, ⟨⟨⟨⟨⟨⟨hp, hv⟩, hbump⟩, hsubj⟩, hde⟩, hat⟩, hpb⟩, rfl⟩
    refine ⟨hp, _, hv, _, hbump, _, hsubj, _, hde, d.updatedAt.toUInt64, hat, _, ⟨hb, hpb⟩, ?_, ?_⟩
    · simp
    · simp [accountDiscriminator]

/-- `decode` is the inverse of `encode`. -/
theorem decode_eq_some_iff {data : Bytes} {d : Document} :
    decode data = some d ↔ d.Fits ∧ data = d.encode := by
  unfold decode
  constructor
  · intro h
    cases hrun : read (Reader.new .account data) with
    | error e r => simp [hrun] at h
    | ok d' r =>
      simp only [hrun] at h
      obtain ⟨hfits, hpre, rfl⟩ := (read_reads _ _ _).mp hrun
      split_ifs at h with hend
      cases h
      have hsplit := prefix_eq_append hpre
      rw [Reader.cursor_rest, Reader.rest_new] at hsplit
      have hrest : data.drop d.encode.length = [] := by simpa using hend
      exact ⟨hfits, by rw [hsplit, hrest, List.append_nil]⟩
  · rintro ⟨hfits, rfl⟩
    have hrun := read_reads.run hfits (s := Reader.new .account d.encode) List.prefix_rfl
    simp [hrun]

theorem decode_encode {d : Document} (h : d.Fits) : decode d.encode = some d :=
  decode_eq_some_iff.mpr ⟨h, rfl⟩

theorem encode_injective {d d' : Document} (h : d.Fits) (h' : d'.Fits)
    (he : d.encode = d'.encode) : d = d' := by
  have hd := decode_encode h
  rw [he, decode_encode h'] at hd
  exact (Option.some.inj hd).symm

end Document

end BioDidRegistry
