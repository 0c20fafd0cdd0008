import BioDidRegistry.Foundation.LittleEndian
import BioDidRegistry.Program.Memory

/-!
# The bounds-checked cursor

The cursor consumes its input from the front. Its state survives a failed read,
so a composite read that fails half way leaves the cursor where the last
successful part put it. Every read is exact in the sense of `Reads`: it accepts
the encoding of the value it returns and consumes nothing else.
-/

namespace BioDidRegistry

open BinaryFormat Cursor

/-- The kind of input a reader walks, which decides the error of a short read. -/
inductive Source
  | account
  | args
  deriving DecidableEq

def Source.error : Source → ProgramError
  | account => .invalidAccountData
  | args => .invalidInstructionData

/-- A forward-only cursor. `rest` is never longer than the input was. -/
structure Reader (s : Source) where
  rest : Bytes
  len : ℕ
  rest_le : rest.length ≤ len

/-- A computation on a cursor. -/
abbrev Read (s : Source) := EStateM Fault (Reader s)

/-- `core::str::from_utf8(bytes).is_ok()`, the well-formed sequences of Unicode. -/
def validUtf8 : Bytes → Bool
  | [] => true
  | a :: rest =>
    if a < 0x80 then validUtf8 rest
    else match rest with
      | [] => false
      | b :: rest =>
        if 0xC2 ≤ a && a ≤ 0xDF then cont b && validUtf8 rest
        else match rest with
          | [] => false
          | c :: rest =>
            if 0xE0 ≤ a && a ≤ 0xEF then
              (if a = 0xE0 then 0xA0 ≤ b && b ≤ 0xBF
                else if a = 0xED then 0x80 ≤ b && b ≤ 0x9F
                else cont b) && cont c && validUtf8 rest
            else match rest with
              | [] => false
              | d :: rest =>
                (0xF0 ≤ a && a ≤ 0xF4) &&
                  (if a = 0xF0 then 0x90 ≤ b && b ≤ 0xBF
                    else if a = 0xF4 then 0x80 ≤ b && b ≤ 0x8F
                    else cont b) && cont c && cont d && validUtf8 rest
where
  /-- A continuation byte. -/
  cont (b : UInt8) : Bool := 0x80 ≤ b && b ≤ 0xBF

namespace Reader

variable {s : Source}

theorem ext {r r' : Reader s} (hrest : r.rest = r'.rest) (hlen : r.len = r'.len) : r = r' := by
  cases r
  cases r'
  simp_all

def new (s : Source) (data : Bytes) : Reader s := ⟨data, data.length, le_rfl⟩

/-- A cursor `offset` bytes into `data`. -/
def at' (s : Source) (data : Bytes) (offset : ℕ) : Except Fault (Reader s) :=
  if offset ≤ data.length then .ok ⟨data.drop offset, data.length, by simp⟩
  else .error (.program s.error)

theorem at'_append {a b : Bytes} {n : ℕ} (h : n = a.length) :
    ∃ r, at' s (a ++ b) n = .ok r ∧ r.rest = b := by
  subst h
  exact ⟨_, if_pos (by simp), List.drop_left⟩

def skip (n : ℕ) (r : Reader s) : Reader s :=
  ⟨r.rest.drop n, r.len, (by simp : (r.rest.drop n).length ≤ r.rest.length).trans r.rest_le⟩

instance : Cursor (Reader s) UInt8 where
  rest := Reader.rest
  advance := skip
  rest_advance _ _ := rfl
  advance_zero _ := rfl
  advance_advance m n r := ext (by simp [skip]) rfl

@[simp] theorem cursor_rest (r : Reader s) : Cursor.rest r = r.rest := rfl

@[simp] theorem rest_skip (n : ℕ) (r : Reader s) : (advance n r).rest = r.rest.drop n := rfl

@[simp] theorem len_skip (n : ℕ) (r : Reader s) : (advance n r).len = r.len := rfl

@[simp] theorem rest_new (data : Bytes) : (new s data).rest = data := rfl

/-- How far the cursor is from the start of the input. -/
def offset : Read s ℕ := fun r => .ok (r.len - r.rest.length) r

def bytes (n : ℕ) : Read s Bytes := fun r =>
  if n ≤ r.rest.length then .ok (r.rest.take n) (r.skip n) else .error (.program s.error) r

def array (n : ℕ) : Read s (Block n) := fun r =>
  if h : n ≤ r.rest.length then .ok ⟨r.rest.take n, by simp [h]⟩ (r.skip n)
  else .error (.program s.error) r

def u8 : Read s UInt8 := do
  let a ← array 1
  pure (a.val.headD 0)

def u16 : Read s UInt16 := do
  let a ← array 2
  pure (UInt16.ofNat (leValue a.val))

def u32 : Read s UInt32 := do
  let a ← array 4
  pure (UInt32.ofNat (leValue a.val))

def u64 : Read s UInt64 := do
  let a ← array 8
  pure (UInt64.ofNat (leValue a.val))

/-- A borsh `Vec<u8>` or the payload of a `String`. -/
def lenPrefixed : Read s Bytes := do
  let len ← u32
  bytes len.toNat

/-- Checks that the input ends here. -/
def finish : Read s Unit := fun r =>
  if r.rest.isEmpty then .ok () r else .error (.program s.error) r

/-- A borsh `String`, whose payload must be valid UTF-8. -/
def str : Read .args Bytes := do
  let bytes ← lenPrefixed
  if validUtf8 bytes then pure bytes
  else throw (.program .invalidInstructionData)

/-- What `p` returns on a cursor, which is then dropped. -/
def eval {α : Type} (p : Read s α) (r : Reader s) : Except Fault α :=
  match p r with
  | .ok a _ => .ok a
  | .error e _ => .error e

theorem eval_ok_iff {α : Type} {p : Read s α} {r : Reader s} {a : α} :
    eval p r = .ok a ↔ ∃ r', p r = .ok a r' := by
  unfold eval
  cases p r with
  | ok b r' => simp
  | error e r' => simp

/-! ### Every read is exact -/

/-- A `u32` length and then that many bytes. -/
def lenPrefix (bs : Bytes) : Bytes := leBytes 4 bs.length ++ bs

@[simp] theorem length_lenPrefix (bs : Bytes) : (lenPrefix bs).length = 4 + bs.length := by
  simp [lenPrefix]

theorem bytes_reads (n : ℕ) : Reads (bytes n : Read s Bytes) id fun bs => bs.length = n := by
  intro r bs r'
  simp only [bytes, id_eq, cursor_rest]
  split_ifs with h
  · simp only [EStateM.Result.ok.injEq]
    constructor
    · rintro ⟨rfl, rfl⟩
      have hlen : (r.rest.take n).length = n := by simp [h]
      refine ⟨hlen, List.take_prefix _ _, ?_⟩
      rw [hlen]
      rfl
    · rintro ⟨rfl, hpre, rfl⟩
      exact ⟨(List.prefix_iff_eq_take.mp hpre).symm, rfl⟩
  · simp only [false_iff]
    rintro ⟨rfl, hpre, -⟩
    exact h hpre.length_le

theorem array_reads (n : ℕ) : Reads (array n : Read s (Block n)) Subtype.val fun _ => True := by
  intro r b r'
  simp only [array, true_and, cursor_rest]
  split_ifs with h
  · simp only [EStateM.Result.ok.injEq]
    constructor
    · rintro ⟨rfl, rfl⟩
      refine ⟨List.take_prefix _ _, ?_⟩
      simp only [List.length_take, Nat.min_eq_left h]
      rfl
    · rintro ⟨hpre, rfl⟩
      have htake : r.rest.take n = b.val := by
        conv_lhs => rw [← b.length_eq]
        exact (List.prefix_iff_eq_take.mp hpre).symm
      refine ⟨Subtype.ext htake, ?_⟩
      rw [b.length_eq]
      rfl
  · simp only [false_iff]
    rintro ⟨hpre, -⟩
    exact h (b.length_eq ▸ hpre.length_le)

theorem u8_reads : Reads (u8 : Read s UInt8) (fun b => [b]) fun _ => True := by
  apply (array_reads 1).map
  · intro b _
    exact ⟨⟨[b], rfl⟩, trivial, rfl, rfl⟩
  · rintro ⟨bs, hbs⟩ -
    obtain ⟨b, rfl⟩ := List.length_eq_one_iff.mp hbs
    exact ⟨trivial, rfl⟩

theorem word_reads {n : ℕ} {ω : Type} {ofNat : ℕ → ω} {toNat : ω → ℕ}
    (hlt : ∀ v, toNat v < 256 ^ n) (hof : ∀ v, ofNat (toNat v) = v)
    (hto : ∀ k < 256 ^ n, toNat (ofNat k) = k) :
    Reads ((array n : Read s (Block n)) >>= fun a => pure (ofNat (leValue a.val)))
      (fun v => leBytes n (toNat v)) fun _ => True := by
  apply (array_reads n).map
  · intro v _
    refine ⟨⟨leBytes n (toNat v), by simp⟩, trivial, ?_, rfl⟩
    rw [leValue_leBytes_of_lt (hlt v), hof]
  · rintro ⟨bs, hbs⟩ -
    subst hbs
    exact ⟨trivial, by rw [hto _ (leValue_lt bs), leBytes_leValue]⟩

theorem u16_reads : Reads (u16 : Read s UInt16) (fun v => leBytes 2 v.toNat) fun _ => True :=
  word_reads (fun v => by simpa using v.toNat_lt) (fun _ => UInt16.ofNat_toNat)
    fun _ h => UInt16.toNat_ofNat_of_lt (by simpa using h)

theorem u32_reads : Reads (u32 : Read s UInt32) (fun v => leBytes 4 v.toNat) fun _ => True :=
  word_reads (fun v => by simpa using v.toNat_lt) (fun _ => UInt32.ofNat_toNat)
    fun _ h => UInt32.toNat_ofNat_of_lt (by simpa using h)

theorem u64_reads : Reads (u64 : Read s UInt64) (fun v => leBytes 8 v.toNat) fun _ => True :=
  word_reads (fun v => by simpa using v.toNat_lt) (fun _ => UInt64.ofNat_toNat)
    fun _ h => UInt64.toNat_ofNat_of_lt (by simpa using h)

theorem lenPrefixed_reads :
    Reads (lenPrefixed : Read s Bytes) lenPrefix fun bs => bs.length < 2 ^ 32 := by
  intro r bs r'
  simp only [lenPrefixed, u32_reads.bind_ok_iff, bytes_reads _ _ _ _, lenPrefix,
    append_prefix_iff, cursor_rest, id_eq, true_and, length_leBytes, List.length_append,
    rest_skip, advance_advance]
  constructor
  · rintro ⟨v, hv, hlen, hpre, rfl⟩
    have hlt : v.toNat < 2 ^ 32 := v.toNat_lt
    exact ⟨by omega, ⟨by rwa [hlen], hpre⟩, rfl⟩
  · rintro ⟨hlt, ⟨hlen, hpre⟩, rfl⟩
    have hv : (UInt32.ofNat bs.length).toNat = bs.length := by
      rw [UInt32.toNat_ofNat']
      exact Nat.mod_eq_of_lt hlt
    refine ⟨UInt32.ofNat bs.length, by rwa [hv], hv.symm, hpre, rfl⟩

theorem str_reads :
    Reads str lenPrefix fun bs => bs.length < 2 ^ 32 ∧ validUtf8 bs = true := by
  intro r bs r'
  simp only [str, lenPrefixed_reads.bind_ok_iff]
  constructor
  · rintro ⟨cs, ⟨hlen, hpre⟩, h⟩
    split_ifs at h with hutf
    · obtain ⟨rfl, rfl⟩ := pure_ok_iff.mp h
      exact ⟨⟨hlen, hutf⟩, hpre, rfl⟩
    · cases h
  · rintro ⟨⟨hlen, hutf⟩, hpre, rfl⟩
    exact ⟨bs, ⟨hlen, hpre⟩, by rw [if_pos hutf]; rfl⟩

theorem finish_ok_iff {r r' : Reader s} {u : Unit} :
    finish r = .ok u r' ↔ r.rest = [] ∧ r' = r := by
  unfold finish
  cases h : r.rest <;> simp [eq_comm]

end Reader

end BioDidRegistry
