import BioDidRegistry.Document.Parsing

/-!
# What a read leaves behind

A read that succeeds returns the value encoded at the cursor and moves past the encoding. A
read that fails should leave the cursor where it was. The reads of a length and a payload
fail half way: they take the length and then miss the payload, and the cursor stays behind
the length. `Torn` says of the bytes left when that is so, and all other reads keep the
promise.
-/

namespace BioDidRegistry

open BinaryFormat Cursor Reader

/-- A read of the cursor. Only arguments have strings. -/
inductive ReadOp : Source → Type
  | bytes {s : Source} (n : ℕ) : ReadOp s
  | array {s : Source} (n : ℕ) : ReadOp s
  | u8 {s : Source} : ReadOp s
  | u16 {s : Source} : ReadOp s
  | u32 {s : Source} : ReadOp s
  | u64 {s : Source} : ReadOp s
  | lenPrefixed {s : Source} : ReadOp s
  | str : ReadOp .args

namespace ReadOp

variable {s : Source}

def Value : ReadOp s → Type
  | bytes _ => Bytes
  | array n => Block n
  | u8 => UInt8
  | u16 => UInt16
  | u32 => UInt32
  | u64 => UInt64
  | lenPrefixed => Bytes
  | str => Bytes

def run : (op : ReadOp s) → Read s op.Value
  | bytes n => Reader.bytes n
  | array n => Reader.array n
  | u8 => Reader.u8
  | u16 => Reader.u16
  | u32 => Reader.u32
  | u64 => Reader.u64
  | lenPrefixed => Reader.lenPrefixed
  | str => Reader.str

def encode : (op : ReadOp s) → op.Value → Bytes
  | bytes _ => fun (bs : Bytes) => bs
  | array _ => Subtype.val
  | u8 => fun b => [b]
  | u16 => fun v => leBytes 2 (UInt16.toNat v)
  | u32 => fun v => leBytes 4 (UInt32.toNat v)
  | u64 => fun v => leBytes 8 (UInt64.toNat v)
  | lenPrefixed => lenPrefix
  | str => lenPrefix

def Accepts : (op : ReadOp s) → op.Value → Prop
  | bytes n => fun (bs : Bytes) => bs.length = n
  | lenPrefixed => fun (bs : Bytes) => bs.length < 2 ^ 32
  | str => fun (bs : Bytes) => bs.length < 2 ^ 32 ∧ validUtf8 bs = true
  | _ => fun _ => True

theorem reads (op : ReadOp s) : Reads op.run op.encode op.Accepts := by
  cases op with
  | bytes n => exact bytes_reads n
  | array n => exact array_reads n
  | u8 => exact u8_reads
  | u16 => exact u16_reads
  | u32 => exact u32_reads
  | u64 => exact u64_reads
  | lenPrefixed => exact lenPrefixed_reads
  | str => exact str_reads

/-- The cursor after the read, which it survives when it fails. -/
def after (op : ReadOp s) (r : Reader s) : Reader s :=
  match op.run r with
  | .ok _ r' => r'
  | .error _ r' => r'

end ReadOp

/-- The cursor after one read after the other, whatever became of them. -/
def afterReads {s : Source} (ops : List (ReadOp s)) (r : Reader s) : Reader s :=
  ops.foldl (fun r op => op.after r) r

/-- The bytes left are those of `data` from the offset on. -/
def Reader.Along {s : Source} (data : Bytes) (r : Reader s) : Prop :=
  r.pos + r.rest.length = data.length ∧ r.rest = data.drop r.pos

/-- The promise: a read that succeeds returns what is at the cursor of `data` and moves past
it, and one that fails has the error of the source and does not move. -/
structure ReadOp.Keeps {s : Source} (op : ReadOp s) (data : Bytes) (r : Reader s) : Prop where
  before : r.Along data
  returned : ∀ a r', op.run r = .ok a r' → (op.Accepts a ∧ op.encode a <+: data.drop r.pos) ∧
    r'.pos = r.pos + (op.encode a).length ∧ r'.Along data
  failed : ∀ e r', op.run r = .error e r' →
    e = .program s.error ∧ r'.pos = r.pos ∧ r'.rest = r.rest

/-- The bytes left begin with a length, and the payload does not follow or is no string. -/
def ReadOp.Torn {s : Source} : ReadOp s → Bytes → Prop
  | .lenPrefixed => fun rest =>
    4 ≤ rest.length ∧ rest.length < 4 + leValue (rest.take 4)
  | .str => fun rest => 4 ≤ rest.length ∧ (rest.length < 4 + leValue (rest.take 4) ∨
    validUtf8 ((rest.drop 4).take (leValue (rest.take 4))) = false)
  | _ => fun _ => False

instance {s : Source} (op : ReadOp s) (rest : Bytes) : Decidable (op.Torn rest) := by
  cases op <;> unfold ReadOp.Torn <;> infer_instance

namespace Reader

variable {s : Source} {data : Bytes} {r r' : Reader s} {e : Fault}

/-! ### Where the cursor is -/

theorem along_at' {offset : ℕ} (h : at' s data offset = .ok r) : r.pos = offset ∧ r.Along data := by
  unfold at' at h
  split_ifs at h with hle
  cases h
  have hpos : data.length - (data.drop offset).length = offset := by
    rw [List.length_drop]
    omega
  refine ⟨hpos, ?_, ?_⟩
  · change data.length - (data.drop offset).length + (data.drop offset).length = data.length
    rw [hpos, List.length_drop]
    omega
  · change data.drop offset = data.drop (data.length - (data.drop offset).length)
    rw [hpos]

theorem Along.advance {n : ℕ} (h : r.Along data) (hn : n ≤ r.rest.length) :
    (advance n r).Along data := by
  obtain ⟨hlen, hrest⟩ := h
  have hpos := pos_skip hn
  constructor
  · rw [hpos, rest_skip, List.length_drop]
    omega
  · rw [hpos, rest_skip, hrest, List.drop_drop]

/-! ### What a failed read leaves -/

theorem bytes_error {n : ℕ} (h : bytes n r = .error e r') : e = .program s.error ∧ r' = r := by
  unfold bytes at h
  split_ifs at h
  cases h
  exact ⟨rfl, rfl⟩

theorem array_error {n : ℕ} (h : array n r = .error e r') : e = .program s.error ∧ r' = r := by
  unfold array at h
  split_ifs at h
  cases h
  exact ⟨rfl, rfl⟩

theorem word_error {n : ℕ} {ω : Type} {f : Block n → ω}
    (h : ((array n : Read s (Block n)) >>= fun a => pure (f a)) r = .error e r') :
    e = .program s.error ∧ r' = r := by
  cases harray : (array n : Read s (Block n)) r with
  | ok a r₁ =>
    rw [bind_of_ok harray] at h
    cases h
  | error e₁ r₁ =>
    rw [bind_of_error harray] at h
    cases h
    exact array_error harray

theorem lenPrefixed_short (h : r.rest.length < 4) :
    lenPrefixed r = .error (.program s.error) r := by
  have harray : (array 4 : Read s (Block 4)) r = .error (.program s.error) r :=
    dif_neg (Nat.not_le.mpr h)
  exact bind_of_error (bind_of_error harray)

theorem lenPrefixed_eq (h : 4 ≤ r.rest.length) :
    lenPrefixed r = bytes (leValue (r.rest.take 4)) (advance 4 r) := by
  have hlen : (r.rest.take 4).length = 4 := by
    rw [List.length_take]
    omega
  have hlt : leValue (r.rest.take 4) < 2 ^ 32 := by
    have hvalue := leValue_lt (r.rest.take 4)
    rw [hlen] at hvalue
    exact hvalue
  have hto : (UInt32.ofNat (leValue (r.rest.take 4))).toNat = leValue (r.rest.take 4) :=
    UInt32.toNat_ofNat_of_lt hlt
  have henc : leBytes 4 (UInt32.ofNat (leValue (r.rest.take 4))).toNat = r.rest.take 4 := by
    have hback := leBytes_leValue (r.rest.take 4)
    rw [hlen] at hback
    rw [hto]
    exact hback
  have hrun := u32_reads.bind_run (s := r) (a := UInt32.ofNat (leValue (r.rest.take 4)))
    (f := fun n => bytes n.toNat) trivial (by rw [henc]; exact List.take_prefix _ _)
  rw [length_leBytes, hto] at hrun
  exact hrun

end Reader

namespace ReadOp

variable {s : Source} {data : Bytes} {r : Reader s} {op : ReadOp s}

theorem lenPrefixed_torn (h4 : 4 ≤ r.rest.length)
    (h : r.rest.length < 4 + leValue (r.rest.take 4)) :
    Reader.lenPrefixed r = .error (.program s.error) (advance 4 r) := by
  rw [lenPrefixed_eq h4]
  apply if_neg
  rw [rest_skip, List.length_drop]
  omega

theorem lenPrefixed_whole (h : 4 + leValue (r.rest.take 4) ≤ r.rest.length) :
    Reader.lenPrefixed r = .ok ((r.rest.drop 4).take (leValue (r.rest.take 4)))
      (advance (4 + leValue (r.rest.take 4)) r) := by
  have hle : leValue (r.rest.take 4) ≤ (advance 4 r).rest.length := by
    rw [rest_skip, List.length_drop]
    omega
  rw [lenPrefixed_eq (by omega), ← advance_advance]
  exact if_pos hle

theorem lenPrefixed_cases (r : Reader s) :
    Reader.lenPrefixed r = .error (.program s.error) r ∨
    (4 ≤ r.rest.length ∧ r.rest.length < 4 + leValue (r.rest.take 4)) ∨
    (4 ≤ r.rest.length ∧ Reader.lenPrefixed r =
      .ok ((r.rest.drop 4).take (leValue (r.rest.take 4)))
        (advance (4 + leValue (r.rest.take 4)) r)) := by
  by_cases h4 : r.rest.length < 4
  · exact Or.inl (lenPrefixed_short h4)
  · by_cases hshort : r.rest.length < 4 + leValue (r.rest.take 4)
    · exact Or.inr (Or.inl ⟨Nat.not_lt.mp h4, hshort⟩)
    · exact Or.inr (Or.inr ⟨Nat.not_lt.mp h4, lenPrefixed_whole (Nat.not_lt.mp hshort)⟩)

/-- A torn read fails behind the length, or behind the payload that is no string. -/
theorem run_torn (h : op.Torn r.rest) :
    ∃ n, 0 < n ∧ n ≤ r.rest.length ∧ op.run r = .error (.program s.error) (advance n r) := by
  cases op with
  | lenPrefixed =>
    obtain ⟨h4, hshort⟩ := h
    exact ⟨4, by omega, h4, lenPrefixed_torn h4 hshort⟩
  | str =>
    obtain ⟨h4, htorn⟩ := h
    by_cases hshort : r.rest.length < 4 + leValue (r.rest.take 4)
    · exact ⟨4, by omega, h4, bind_of_error (lenPrefixed_torn h4 hshort)⟩
    · have hbad := htorn.resolve_left hshort
      have hwhole := lenPrefixed_whole (Nat.not_lt.mp hshort)
      refine ⟨_, by omega, Nat.not_lt.mp hshort, ?_⟩
      change (Reader.lenPrefixed >>= _) r = _
      rw [bind_of_ok hwhole, hbad]
      rfl
  | bytes | array | u8 | u16 | u32 | u64 => exact h.elim

theorem error_of_run {e : Fault} {r' : Reader s} (htorn : ¬op.Torn r.rest)
    (h : op.run r = .error e r') : e = .program s.error ∧ r' = r := by
  cases op with
  | bytes n => exact bytes_error h
  | array n => exact array_error h
  | u8 | u16 | u32 | u64 => exact word_error h
  | lenPrefixed =>
    change Reader.lenPrefixed r = _ at h
    rcases lenPrefixed_cases r with hrun | htorn' | ⟨-, hrun⟩
    · rw [hrun] at h
      cases h
      exact ⟨rfl, rfl⟩
    · exact absurd htorn' htorn
    · rw [hrun] at h
      cases h
  | str =>
    change (Reader.lenPrefixed >>= _) r = _ at h
    rcases lenPrefixed_cases r with hrun | ⟨h4, hshort⟩ | ⟨h4, hrun⟩
    · rw [bind_of_error hrun] at h
      cases h
      exact ⟨rfl, rfl⟩
    · exact absurd ⟨h4, Or.inl hshort⟩ htorn
    · have hutf : validUtf8 ((r.rest.drop 4).take (leValue (r.rest.take 4))) = true := by
        by_contra hbad
        exact htorn ⟨h4, Or.inr (Bool.eq_false_iff.mpr hbad)⟩
      rw [bind_of_ok hrun, hutf] at h
      cases h

/-- The promise is kept at a read exactly if the read is not torn. -/
theorem keeps_iff (h : r.Along data) : op.Keeps data r ↔ ¬op.Torn r.rest := by
  constructor
  · intro hkeeps htorn
    obtain ⟨n, hn, hle, hrun⟩ := run_torn htorn
    obtain ⟨-, hpos, -⟩ := hkeeps.failed _ _ hrun
    rw [pos_skip hle] at hpos
    omega
  · intro htorn
    refine ⟨h, ?_, ?_⟩
    · intro a r' hrun
      obtain ⟨ha, hpre, rfl⟩ := (op.reads r a r').mp hrun
      refine ⟨⟨ha, ?_⟩, pos_skip_over hpre, h.advance hpre.length_le⟩
      rw [← h.2]
      exact hpre
    · intro e r' hrun
      obtain ⟨he, rfl⟩ := error_of_run htorn hrun
      exact ⟨he, rfl, rfl⟩

theorem along_after (h : r.Along data) : (op.after r).Along data := by
  unfold after
  cases hrun : op.run r with
  | ok a r' =>
    obtain ⟨-, hpre, rfl⟩ := (op.reads r a r').mp hrun
    exact h.advance hpre.length_le
  | error e r' =>
    by_cases htorn : op.Torn r.rest
    · obtain ⟨n, -, hle, hrun'⟩ := run_torn htorn
      cases hrun.symm.trans hrun'
      exact h.advance hle
    · obtain ⟨-, rfl⟩ := error_of_run htorn hrun
      exact h

end ReadOp

theorem along_afterReads {s : Source} {data : Bytes} {r : Reader s} (ops : List (ReadOp s))
    (h : r.Along data) : (afterReads ops r).Along data := by
  induction ops generalizing r with
  | nil => exact h
  | cons op ops ih => exact ih (ReadOp.along_after h)

/-- Every read of a sequence keeps the promise exactly if none of them is torn. -/
theorem reads_all_or_nothing {s : Source} {data : Bytes} {offset : ℕ} {r : Reader s}
    (hr : Reader.at' s data offset = .ok r) (ops : List (ReadOp s)) :
    (∀ (k : ℕ) op, ops[k]? = some op → op.Keeps data (afterReads (ops.take k) r)) ↔
      ∀ (k : ℕ) op, ops[k]? = some op → ¬op.Torn (afterReads (ops.take k) r).rest := by
  have hstart := (Reader.along_at' hr).2
  constructor
  · intro hall k op hop
    exact (ReadOp.keeps_iff (along_afterReads _ hstart)).mp (hall k op hop)
  · intro hnone k op hop
    exact (ReadOp.keeps_iff (along_afterReads _ hstart)).mpr (hnone k op hop)

namespace Sample

/-- A length of two with its payload, and a length without its payload. -/
def input : Bytes := [2, 0, 0, 0, 104, 105, 5, 0, 0, 0, 7]

end Sample

/-- A string and the byte after it. -/
theorem reads_all_or_nothing_sample :
    ReadOp.Keeps .str Sample.input (Reader.new .args Sample.input) ∧
      ReadOp.Keeps .u8 Sample.input (afterReads [.str] (Reader.new .args Sample.input)) := by
  have hstart : Reader.at' .args Sample.input 0 = .ok (Reader.new .args Sample.input) := rfl
  have hall := (reads_all_or_nothing hstart [.str, .u8]).mpr (by
    intro k op hop
    rcases k with _ | _ | k
    · cases hop
      decide +kernel
    · cases hop
      exact not_false
    · cases hop)
  exact ⟨hall 0 _ rfl, hall 1 _ rfl⟩

/-- The length is taken although its payload is not there. -/
theorem reads_leave_torn_cursor :
    ¬∀ (k : ℕ) op, [ReadOp.str, .lenPrefixed][k]? = some op → op.Keeps Sample.input
      (afterReads ([ReadOp.str, .lenPrefixed].take k) (Reader.new .args Sample.input)) := by
  intro hall
  have hrun : Reader.lenPrefixed (afterReads [.str] (Reader.new .args Sample.input)) =
      .error (.program .invalidInstructionData)
        (advance 10 (Reader.new .args Sample.input)) := rfl
  obtain ⟨-, hpos, -⟩ := (hall 1 .lenPrefixed rfl).failed _ _ hrun
  exact absurd hpos (by decide)

end BioDidRegistry
