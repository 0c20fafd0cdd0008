import BioDidRegistry.Foundation.Interaction
import BioDidRegistry.Program.Reader

/-!
# Reads at an offset

Earlier releases pass the data with a mutable offset to a function for each kind of read.
The offset is the state here, and it is assigned only after the read succeeded.
-/

namespace BioDidRegistry

open BinaryFormat

/-- What these functions share: a reader at the offset, one read, and then the offset of
the reader. -/
def readAtOffset {s : Source} {α : Type} (p : Read s α) (data : Bytes) : EStateM Fault ℕ α := do
  let off ← get
  let r ← Reader.at' s data off
  let (value, off) ← Reader.eval (do
    let value ← p
    let off ← Reader.offset
    pure (value, off)) r
  set off
  pure value

/-! ### Account data -/

def readU32 (data : Bytes) : EStateM Fault ℕ UInt32 :=
  readAtOffset (Reader.u32 : Read .account UInt32) data

def readBytes (len : ℕ) (data : Bytes) : EStateM Fault ℕ Bytes :=
  readAtOffset (Reader.bytes len : Read .account Bytes) data

/-- A borsh `String` or `Vec<u8>`. -/
def readLenPrefixed (data : Bytes) : EStateM Fault ℕ Bytes :=
  readAtOffset (Reader.lenPrefixed : Read .account Bytes) data

/-! ### Instruction arguments -/

def ixReadBytes (len : ℕ) (data : Bytes) : EStateM Fault ℕ Bytes :=
  readAtOffset (Reader.bytes len : Read .args Bytes) data

def ixReadU32 (data : Bytes) : EStateM Fault ℕ UInt32 :=
  readAtOffset (Reader.u32 : Read .args UInt32) data

def ixReadU16 (data : Bytes) : EStateM Fault ℕ UInt16 :=
  readAtOffset (Reader.u16 : Read .args UInt16) data

def ixReadU8 (data : Bytes) : EStateM Fault ℕ UInt8 :=
  readAtOffset (Reader.u8 : Read .args UInt8) data

def ixReadLenPrefixed (data : Bytes) : EStateM Fault ℕ Bytes :=
  readAtOffset (Reader.lenPrefixed : Read .args Bytes) data

/-- A borsh `String`, which must be valid UTF-8. -/
def ixReadStr (data : Bytes) : EStateM Fault ℕ Bytes := readAtOffset Reader.str data

/-- The arguments end where the last field ends. -/
def ixFinish (data : Bytes) (off : ℕ) : Except Fault Unit := do
  let r ← Reader.at' .args data off
  Reader.eval Reader.finish r

end BioDidRegistry
