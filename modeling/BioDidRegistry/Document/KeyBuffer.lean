import BioDidRegistry.Document.Parsing

/-!
# Key buffers

A `KeyBuffer` account stages a method whose key arrives in chunks. It records the
method without its key, the bytes received so far, and zeros for those still to
come. `encode` is its layout, which the program's parser reads back.
-/

namespace BioDidRegistry

open BinaryFormat Cursor

/-- What a `KeyBuffer` account records. -/
structure KeyBuffer where
  didAccount : Address
  authority : Address
  bump : UInt8
  /-- The method on its way into the document. -/
  method : NewMethod
  /-- The key bytes received so far. -/
  received : Bytes
  received_le : received.length ≤ method.keyLen
  fragment_le : method.fragment.length ≤ maxFragmentLen
  keyLen_lt : method.keyLen < 2 ^ 32

/-- What the parsed header says of the data, however it came about. -/
theorem KeyBufferRef.bounds_of_parse {data : Bytes} {ref : KeyBufferRef}
    (h : KeyBufferRef.parse data = .ok ref) :
    data.length = keyBufferHeader + ref.keyLen ∧ ref.written ≤ ref.keyLen ∧ ref.keyLen < 2 ^ 32 ∧
      ref.fragment.length ≤ maxFragmentLen := by
  unfold KeyBufferRef.parse at h
  dsimp only at h
  split_ifs at h with hshort
  · cases h
  obtain ⟨r, -, heval⟩ := except_bind_ok_iff.mp h
  obtain ⟨r', hrun⟩ := Reader.eval_ok_iff.mp heval
  simp only [bind_ok_iff] at hrun
  obtain ⟨did, r₁, -, authority, r₂, -, bump, r₃, -, type, r₄, -, flags, r₅, -, keyLen, r₆, -,
    written, r₇, -, fragmentLen, r₈, -, fragment, r₉, -, hrun⟩ := hrun
  split_ifs at hrun with hfits
  · cases hrun
  · obtain ⟨bytes, r₁₀, hslice, hpure⟩ := bind_ok_iff.mp hrun
    obtain ⟨hslice, -⟩ := lift_ok_iff.mp hslice
    obtain ⟨rfl, -⟩ := pure_ok_iff.mp hpure
    unfold slice at hslice
    split_ifs at hslice
    cases hslice
    have hlt : keyLen.toNat < 2 ^ 32 := keyLen.toNat_lt
    rw [List.length_drop] at hfits
    simp only [List.length_take, List.length_drop]
    omega

namespace KeyBuffer

variable (kb : KeyBuffer)

/-- The fragment in its field of 32 bytes. -/
def fragmentField : Bytes :=
  kb.method.fragment ++ List.replicate (maxFragmentLen - kb.method.fragment.length) 0

def header : Bytes :=
  keyBufferDiscriminator ++ kb.didAccount.val ++ kb.authority.val ++ [kb.bump] ++
    [kb.method.methodType] ++ u16Bytes kb.method.flags ++ u32Bytes kb.method.keyLen ++
    u32Bytes kb.received.length ++ u32Bytes kb.method.fragment.length ++ kb.fragmentField

/-- The received bytes, and zeros for the others. -/
def keyField : Bytes :=
  kb.received ++ List.replicate (kb.method.keyLen - kb.received.length) 0

def encode : Bytes := kb.header ++ kb.keyField

@[simp] theorem length_fragmentField : kb.fragmentField.length = 32 := by
  have := kb.fragment_le
  simp only [maxFragmentLen] at this
  simp only [fragmentField, maxFragmentLen, List.length_append, List.length_replicate]
  omega

@[simp] theorem length_header : kb.header.length = keyBufferHeader := by
  simp [header, keyBufferDiscriminator, keyBufferHeader, kb.didAccount.length_eq,
    kb.authority.length_eq]

@[simp] theorem length_keyField : kb.keyField.length = kb.method.keyLen := by
  have := kb.received_le
  simp only [keyField, List.length_append, List.length_replicate]
  omega

theorem length_encode : kb.encode.length = keyBufferHeader + kb.method.keyLen := by
  simp [encode]

theorem take_discriminator : kb.encode.take 8 = keyBufferDiscriminator := by
  simp [encode, header, keyBufferDiscriminator]

/-- The method with the bytes received as its key. -/
def toMethod : Method :=
  ⟨kb.method.fragment, kb.method.methodType, kb.method.flags, kb.received⟩

def append (chunk : Bytes) (h : kb.received.length + chunk.length ≤ kb.method.keyLen) :
    KeyBuffer :=
  { kb with
    received := kb.received ++ chunk
    received_le := by simpa using h }

/-- A buffer that has received nothing. -/
def opened (didAccount authority : Address) (bump : UInt8) (method : NewMethod)
    (hfragment : method.fragment.length ≤ maxFragmentLen) (hkeyLen : method.keyLen < 2 ^ 32) :
    KeyBuffer where
  didAccount := didAccount
  authority := authority
  bump := bump
  method := method
  received := []
  received_le := Nat.zero_le _
  fragment_le := hfragment
  keyLen_lt := hkeyLen

/-- The header as the parser returns it. -/
def ref : KeyBufferRef where
  didAccount := kb.didAccount
  authority := kb.authority
  bump := kb.bump
  methodType := kb.method.methodType
  flags := kb.method.flags
  keyLen := kb.method.keyLen
  written := kb.received.length
  fragment := kb.method.fragment

theorem parse_encode : KeyBufferRef.parse kb.encode = .ok kb.ref := by
  have hheader : kb.encode.take keyBufferHeader = keyBufferDiscriminator ++
      (kb.didAccount.val ++ (kb.authority.val ++ ([kb.bump] ++ ([kb.method.methodType] ++
        (u16Bytes kb.method.flags ++ (u32Bytes kb.method.keyLen ++
          (u32Bytes kb.received.length ++ (u32Bytes kb.method.fragment.length ++
            kb.fragmentField)))))))) := by
    rw [encode, ← kb.length_header, List.take_left]
    simp only [header, List.append_assoc]
  have hkey : kb.encode.drop keyBufferHeader = kb.keyField := by
    rw [encode, ← kb.length_header, List.drop_left]
  have hlen : ¬kb.encode.length < keyBufferHeader := by
    rw [length_encode]
    omega
  have hfragmentLt : kb.method.fragment.length < 2 ^ 32 :=
    kb.fragment_le.trans_lt (by decide)
  have hword {n : ℕ} (h : n < 2 ^ 32) : (UInt32.ofNat n).toNat = n := UInt32.toNat_ofNat_of_lt h
  have hu32 {n : ℕ} (h : n < 2 ^ 32) : u32Bytes n = leBytes 4 (UInt32.ofNat n).toNat := by
    rw [hword h]
    rfl
  have hwritten := kb.received_le.trans_lt kb.keyLen_lt
  rw [hu32 kb.keyLen_lt, hu32 hwritten, hu32 hfragmentLt] at hheader
  obtain ⟨r, hat, hrest⟩ : ∃ r, Reader.at' .account (kb.encode.take keyBufferHeader)
      kbOffDidAccount = .ok r ∧ r.rest = kb.didAccount.val ++ (kb.authority.val ++ ([kb.bump] ++
        ([kb.method.methodType] ++ (leBytes 2 kb.method.flags.toNat ++
          (leBytes 4 (UInt32.ofNat kb.method.keyLen).toNat ++
            (leBytes 4 (UInt32.ofNat kb.received.length).toNat ++
              (leBytes 4 (UInt32.ofNat kb.method.fragment.length).toNat ++
                (kb.fragmentField ++ [])))))))) := by
    rw [hheader, List.append_nil]
    exact Reader.at'_append rfl
  obtain ⟨r₁, hrest, hdid⟩ := (Reader.array_reads 32).bind_append trivial hrest
  obtain ⟨r₂, hrest, hauthority⟩ := (Reader.array_reads 32).bind_append trivial hrest
  obtain ⟨r₃, hrest, hbump⟩ := Reader.u8_reads.bind_append trivial hrest
  obtain ⟨r₄, hrest, htype⟩ := Reader.u8_reads.bind_append trivial hrest
  obtain ⟨r₅, hrest, hflags⟩ := Reader.u16_reads.bind_append trivial hrest
  obtain ⟨r₆, hrest, hkeyLen⟩ := Reader.u32_reads.bind_append trivial hrest
  obtain ⟨r₇, hrest, hreceived⟩ := Reader.u32_reads.bind_append trivial hrest
  obtain ⟨r₈, hrest, hfragmentLen⟩ := Reader.u32_reads.bind_append trivial hrest
  obtain ⟨r₉, -, hfield⟩ := (Reader.array_reads 32).bind_append
    (a := ⟨kb.fragmentField, kb.length_fragmentField⟩) trivial hrest
  unfold KeyBufferRef.parse
  dsimp only
  rw [if_neg hlen, hat, hkey]
  simp only [except_bind_ok]
  rw [Reader.eval_ok_iff]
  refine ⟨r₉, ?_⟩
  rw [hdid, hauthority, hbump, htype, hflags, hkeyLen, hreceived, hfragmentLen, maxFragmentLen,
    hfield, hword kb.keyLen_lt, hword hwritten, hword hfragmentLt]
  have hcond : ¬(kb.keyField.length ≠ kb.method.keyLen ∨
      kb.method.keyLen < kb.received.length ∨ 32 < kb.method.fragment.length) := by
    have hle := kb.received_le
    have hfragment := kb.fragment_le
    simp only [maxFragmentLen] at hfragment
    simp only [length_keyField, ne_eq, not_true, false_or]
    omega
  have hslice : slice kb.fragmentField 0 kb.method.fragment.length = .ok kb.method.fragment := by
    unfold slice
    rw [if_pos ⟨Nat.zero_le _, by simp [fragmentField]⟩]
    simp [fragmentField]
  rw [if_neg hcond]
  exact Reader.lift_bind hslice _ r₉

theorem received_eq : kb.received = (kb.encode.drop keyBufferHeader).take kb.received.length := by
  rw [encode, ← kb.length_header, List.drop_left, keyField, List.take_left]

theorem encode_injective {kb kb' : KeyBuffer} (h : kb.encode = kb'.encode) : kb = kb' := by
  have href : kb.ref = kb'.ref := by
    have hparse := kb.parse_encode
    rw [h, kb'.parse_encode] at hparse
    exact (Except.ok.inj hparse).symm
  have hlen : kb.received.length = kb'.received.length := congrArg KeyBufferRef.written href
  have hreceived : kb.received = kb'.received := by
    rw [kb.received_eq, kb'.received_eq, h, hlen]
  obtain ⟨did, authority, bump, ⟨fragment, methodType, flags, keyLen⟩, received, _, _, _⟩ := kb
  obtain ⟨did', authority', bump', ⟨fragment', methodType', flags', keyLen'⟩, received', _, _, _⟩ :=
    kb'
  simp only [ref, KeyBufferRef.mk.injEq] at href
  obtain ⟨rfl, rfl, rfl, rfl, rfl, rfl, -, rfl⟩ := href
  subst hreceived
  rfl

end KeyBuffer

end BioDidRegistry
