import BioDidRegistry.Program.OffsetReads
import BioDidRegistry.Properties.Reads

/-!
# Reads at an offset agree with the reader

A caller of an earlier release parses with an offset, and may decide by what it has read
what to read next. Whatever it does, it gets the values and the errors it would get from
one reader. Only the position after a failed read differs: the offset stays where that
read began, while the reader may have taken the length of a payload that is not there.
-/

namespace BioDidRegistry

open BinaryFormat Cursor Interaction

/-- The reads an earlier release offers for each kind of input. -/
inductive OffsetRead : Source → Type
  | readU32 : OffsetRead .account
  | readBytes (len : ℕ) : OffsetRead .account
  | readLenPrefixed : OffsetRead .account
  | ixReadBytes (len : ℕ) : OffsetRead .args
  | ixReadU32 : OffsetRead .args
  | ixReadU16 : OffsetRead .args
  | ixReadU8 : OffsetRead .args
  | ixReadLenPrefixed : OffsetRead .args
  | ixReadStr : OffsetRead .args
  | ixFinish : OffsetRead .args

namespace OffsetRead

variable {s : Source}

def Value : OffsetRead s → Type
  | readU32 | ixReadU32 => UInt32
  | ixReadU16 => UInt16
  | ixReadU8 => UInt8
  | readBytes _ | ixReadBytes _ | readLenPrefixed | ixReadLenPrefixed | ixReadStr => Bytes
  | ixFinish => Unit

def onOffset (data : Bytes) : (op : OffsetRead s) → EStateM Fault ℕ op.Value
  | readU32 => BioDidRegistry.readU32 data
  | readBytes len => BioDidRegistry.readBytes len data
  | readLenPrefixed => BioDidRegistry.readLenPrefixed data
  | ixReadBytes len => BioDidRegistry.ixReadBytes len data
  | ixReadU32 => BioDidRegistry.ixReadU32 data
  | ixReadU16 => BioDidRegistry.ixReadU16 data
  | ixReadU8 => BioDidRegistry.ixReadU8 data
  | ixReadLenPrefixed => BioDidRegistry.ixReadLenPrefixed data
  | ixReadStr => BioDidRegistry.ixReadStr data
  | ixFinish => do BioDidRegistry.ixFinish data (← get)

def onReader : (op : OffsetRead s) → Read s op.Value
  | readU32 | ixReadU32 => Reader.u32
  | ixReadU16 => Reader.u16
  | ixReadU8 => Reader.u8
  | readBytes len | ixReadBytes len => Reader.bytes len
  | readLenPrefixed | ixReadLenPrefixed => Reader.lenPrefixed
  | ixReadStr => Reader.str
  | ixFinish => Reader.finish

end OffsetRead

variable {s : Source} {data : Bytes} {off : ℕ} {r r' : Reader s}

def StandsAt (data : Bytes) (off : ℕ) (r : Reader s) : Prop := Reader.at' s data off = .ok r

/-- What a failure leaves: the offset is where the failed read began, and the reader is there
too unless the read was torn. -/
def FailedAt (data : Bytes) (off : ℕ) (r' : Reader s) : Prop :=
  ∃ r : Reader s, StandsAt data off r ∧
    (r' = r ∨ ∃ op : ReadOp s, op.Torn r.rest ∧ r' = op.after r)

namespace StandsAt

theorem pos_eq (h : StandsAt data off r) : r.pos = off := (Reader.along_at' h).1

theorem failedAt (h : StandsAt data off r) : FailedAt data off r := ⟨r, h, Or.inl rfl⟩

theorem advance {n : ℕ} (h : StandsAt data off r) (hn : n ≤ r.rest.length) :
    StandsAt data (off + n) (advance n r) := by
  unfold StandsAt Reader.at' at h
  split_ifs at h with hle
  cases h
  have hle' : off + n ≤ data.length := by
    change n ≤ (data.drop off).length at hn
    rw [List.length_drop] at hn
    omega
  refine (if_pos hle').trans (congrArg Except.ok (Reader.ext ?_ rfl))
  exact (List.drop_drop ..).symm

theorem readAtOffset_ok {α : Type} {p : Read s α} {a : α} (h : StandsAt data off r)
    (hrun : p r = .ok a r') : readAtOffset p data off = .ok a r'.pos := by
  have heval : Reader.eval (do let a ← p; let off ← Reader.offset; pure (a, off)) r =
      .ok (a, r'.pos) := by
    unfold Reader.eval
    rw [bind_of_ok hrun]
    rfl
  change EStateM.bind (liftM (Reader.at' s data off)) _ off = _
  rw [h]
  change EStateM.bind (liftM (Reader.eval _ r)) _ off = _
  rw [heval]
  rfl

theorem readAtOffset_error {α : Type} {p : Read s α} {e : Fault} (h : StandsAt data off r)
    (hrun : p r = .error e r') : readAtOffset p data off = .error e off := by
  have heval : Reader.eval (do let a ← p; let off ← Reader.offset; pure (a, off)) r =
      .error e := by
    unfold Reader.eval
    rw [bind_of_error hrun]
  change EStateM.bind (liftM (Reader.at' s data off)) _ off = _
  rw [h]
  change EStateM.bind (liftM (Reader.eval _ r)) _ off = _
  rw [heval]
  rfl

end StandsAt

theorem readAtOffset_alike (op : ReadOp s) (h : StandsAt data off r) :
    Alike (StandsAt data) (FailedAt data) (readAtOffset op.run data off) (op.run r) := by
  cases hrun : op.run r with
  | ok a r' =>
    rw [h.readAtOffset_ok hrun]
    obtain ⟨-, hpre, rfl⟩ := (op.reads r a r').mp hrun
    rw [Reader.pos_skip_over hpre, h.pos_eq]
    exact .ok (h.advance hpre.length_le)
  | error e r' =>
    rw [h.readAtOffset_error hrun]
    refine .error ⟨r, h, ?_⟩
    by_cases htorn : op.Torn r.rest
    · refine Or.inr ⟨op, htorn, ?_⟩
      unfold ReadOp.after
      rw [hrun]
    · exact Or.inl (ReadOp.error_of_run htorn hrun).2

theorem OffsetRead.alike (op : OffsetRead s) (h : StandsAt data off r) :
    Alike (StandsAt data) (FailedAt data) (op.onOffset data off) (op.onReader r) := by
  cases op with
  | readU32 | ixReadU32 => exact readAtOffset_alike .u32 h
  | ixReadU16 => exact readAtOffset_alike .u16 h
  | ixReadU8 => exact readAtOffset_alike .u8 h
  | readBytes len | ixReadBytes len => exact readAtOffset_alike (.bytes len) h
  | readLenPrefixed | ixReadLenPrefixed => exact readAtOffset_alike .lenPrefixed h
  | ixReadStr => exact readAtOffset_alike .str h
  | ixFinish =>
    have hfinish : BioDidRegistry.ixFinish data off = Reader.eval Reader.finish r := by
      unfold BioDidRegistry.ixFinish
      rw [h]
      rfl
    change Alike _ _ ((liftM (BioDidRegistry.ixFinish data off) : EStateM Fault ℕ Unit) off)
      (Reader.finish r)
    rw [hfinish]
    by_cases hempty : r.rest.isEmpty
    · have hok : Reader.finish r = .ok () r := if_pos hempty
      rw [Reader.eval, hok]
      exact .ok h
    · have herror : Reader.finish r = .error (.program Source.args.error) r := if_neg hempty
      rw [Reader.eval, herror]
      exact .error h.failedAt

/-- Past the end of the data every read fails and the offset stays. -/
theorem OffsetRead.past_end (op : OffsetRead s) (h : data.length < off) :
    op.onOffset data off = .error (.program s.error) off := by
  have hat : Reader.at' s data off = .error (.program s.error) := if_neg (Nat.not_le.mpr h)
  have hread {α : Type} (p : Read s α) :
      readAtOffset p data off = .error (.program s.error) off := by
    change EStateM.bind (liftM (Reader.at' s data off)) _ off = _
    rw [hat]
    rfl
  cases op with
  | readU32 | ixReadU32 | ixReadU16 | ixReadU8 | readBytes | ixReadBytes | readLenPrefixed
    | ixReadLenPrefixed | ixReadStr => exact hread _
  | ixFinish =>
    have hfinish : BioDidRegistry.ixFinish data off = .error (.program Source.args.error) := by
      unfold BioDidRegistry.ixFinish
      rw [hat]
      rfl
    change (liftM (BioDidRegistry.ixFinish data off) : EStateM Fault ℕ Unit) off = _
    rw [hfinish]
    rfl

/-- A parser that reads at an offset of an earlier release. -/
abbrev OffsetParser (s : Source) (α : Type) := Program (OffsetRead s) OffsetRead.Value Fault α

/-- Every parser that reads at an offset returns the value or the error it returns with one
reader. After a value both stand at the same byte. After an error the offset is where the
failed read began, and so is the reader unless that read was torn. An offset past the end
makes the first read fail. -/
theorem offset_reads_agree {α : Type} (p : OffsetParser s α) (data : Bytes) (off : ℕ) :
    (∀ r : Reader s, Reader.at' s data off = .ok r →
      Alike (StandsAt data) (FailedAt data) (p.run (OffsetRead.onOffset data) off)
        (p.run OffsetRead.onReader r)) ∧
    (data.length < off → ∀ op next, p = .ask op next →
      p.run (OffsetRead.onOffset data) off = .error (.program s.error) off) := by
  constructor
  · intro r hr
    exact p.run_alike (fun op _ _ h => op.alike h) (fun _ _ h => h.failedAt) hr
  · rintro hpast op next rfl
    exact bind_of_error (op.past_end hpast)

namespace Sample

/-- A parser that is told by the first byte how many to read. -/
def counted : OffsetParser .args Bytes :=
  .ask .ixReadU8 fun (n : UInt8) => .ask (.ixReadBytes n.toNat) fun (bytes : Bytes) =>
    .ask .ixFinish fun _ => .done bytes

end Sample

/-- Two bytes after their number, and nothing but their number. -/
theorem offset_reads_agree_sample :
    Sample.counted.run (OffsetRead.onOffset [2, 104, 105]) 0 = .ok [104, 105] 3 ∧
      Alike (StandsAt [2, 104, 105]) (FailedAt [2, 104, 105]) (.ok [104, 105] 3)
        (Sample.counted.run OffsetRead.onReader (Reader.new .args [2, 104, 105])) ∧
      Sample.counted.run (OffsetRead.onOffset [2]) 0 =
        .error (.program .invalidInstructionData) 1 :=
  ⟨rfl, (offset_reads_agree Sample.counted [2, 104, 105] 0).1 _ rfl, rfl⟩

end BioDidRegistry
