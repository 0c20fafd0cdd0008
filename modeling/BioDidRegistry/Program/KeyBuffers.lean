import BioDidRegistry.Program.Updates

/-!
# Key buffers

A key that does not fit in one transaction is staged in a buffer bound to the
signing authority and one DID account. Chunks arrive in order, and a complete
buffer is appended to the document by the rules of a direct addition.
-/

namespace BioDidRegistry

open BinaryFormat

variable (P : Platform) (sv : Sysvars)

namespace CreateKeyBuffer

/-- The borsh args are `fragment: String, method_type: u8, flags: u16, key_len: u32`. -/
def parse : Read .args NewMethod := do
  let fragment ← Reader.str
  let methodType ← Reader.u8
  let flags ← Reader.u16
  let keyLen ← Reader.u32
  Reader.finish
  ensure (expectedKeyLen methodType).isSome .invalidInstructionData
  pure ⟨fragment, methodType, flags, keyLen.toNat⟩

/-- The header of a new buffer, written field by field over `data`. -/
def writeHeader (data : Bytes) (didAccount authority : Address) (bump : UInt8) (m : NewMethod) :
    Except Fault Bytes := do
  let data ← writeAt data 0 keyBufferDiscriminator
  let data ← writeAt data kbOffDidAccount didAccount.val
  let data ← writeAt data kbOffAuthority authority.val
  let data ← writeAt data kbOffBump [bump]
  let data ← writeAt data kbOffMethodType [m.methodType]
  let data ← writeAt data kbOffFlags (u16Bytes m.flags)
  let data ← writeAt data kbOffKeyLen (u32Bytes m.keyLen)
  let data ← writeAt data kbOffWritten (u32Bytes 0)
  let data ← writeAt data kbOffFragmentLen (u32Bytes m.fragment.length)
  writeAt data kbOffFragment m.fragment

def process (accounts : List AccountView) (args : Bytes) : Exec Unit :=
  match accounts with
  | payer :: authority :: didAccount :: keyBuffer :: system :: rest => do
    let L ← Exec.ledger
    checkPayer payer
    checkAuthoritySigner authority
    checkSystemProgram system
    let _ ← loadDidAccount P L didAccount
    ensure keyBuffer.isWritable .immutable
    let m ← Reader.eval parse (Reader.new .args args)
    let doc ← DidView.parse (L didAccount.address).data
    authorize P L doc authority.address rest.head?
    doc.checkNewMethod m
    let seeds := [keyBufferSeed, didAccount.address.val, authority.address.val]
    let (pda, bump) ← findPda P seeds
    ensure (keyBuffer.address == pda) .invalidSeeds
    -- One buffer per authority and DID at a time.
    ensure ((L keyBuffer.address).owner == systemProgram &&
      (L keyBuffer.address).data.length == 0) .accountAlreadyInitialized
    let space ← addUsize keyBufferHeader m.keyLen
    let rentMin ← rentMinimumBalance P sv space
    createProgramAccount P payer keyBuffer rentMin space seeds bump
    let data ← Exec.borrow keyBuffer
    ensure (data.length == space) .accountDataTooSmall
    let data ← writeHeader data didAccount.address authority.address bump m
    Exec.store keyBuffer data
  | _ => throw (.program .notEnoughAccountKeys)

end CreateKeyBuffer

namespace WriteKeyBuffer

/-- The borsh arguments are `offset: u32` and `chunk: Vec<u8>`. -/
def parse : Read .args (ℕ × Bytes) := do
  let offset ← Reader.u32
  let chunk ← Reader.lenPrefixed
  Reader.finish
  pure (offset.toNat, chunk)

/-- The chunk must continue exactly where the previous one ended. -/
def writeChunk (data : Bytes) (written keyLen : ℕ) (a : ℕ × Bytes) : Except Fault Bytes := do
  require (!a.2.isEmpty && a.1 == written) .invalidKeyChunk
  let last ← checkedAdd a.1 a.2.length
  require (last ≤ keyLen) .invalidKeyChunk
  let pos ← addUsize kbOffKey a.1
  let data ← writeAt data pos a.2
  writeAt data kbOffWritten (u32Bytes last)

def process (accounts : List AccountView) (args : Bytes) : Exec Unit :=
  match accounts with
  | authority :: keyBuffer :: _ => do
    let L ← Exec.ledger
    checkAuthoritySigner authority
    let (written, keyLen) ← checkKeyBuffer P L keyBuffer authority.address none
    let a ← Reader.eval parse (Reader.new .args args)
    let data ← Exec.borrow keyBuffer
    let data ← writeChunk data written keyLen a
    Exec.store keyBuffer data
  | _ => throw (.program .notEnoughAccountKeys)

end WriteKeyBuffer

namespace AddVerificationMethodFromBuffer

/-- The staged method and the layout it goes into, after the rules of a direct
addition, evaluated against the DID's state now. -/
def check (L : Ledger) (authority didAccount keyBuffer : AccountView)
    (controller : Option AccountView) : Except Fault (NewMethod × Sections) := do
  let buf := (L keyBuffer.address).data
  let kb ← KeyBufferRef.parse buf
  require (kb.written == kb.keyLen) .keyBufferIncomplete
  ensure (expectedKeyLen kb.methodType).isSome .invalidInstructionData
  let m : NewMethod := ⟨kb.fragment, kb.methodType, kb.flags, kb.keyLen⟩
  let doc ← DidView.parse (L didAccount.address).data
  authorize P L doc authority.address controller
  doc.checkNewMethod m
  let key ← kb.key buf
  checkNewKey P.isCurvePoint m key authority.address
  pure (m, doc.sections)

def commit (payer didAccount keyBuffer : AccountView) (m : NewMethod) (s : Sections) :
    Exec UInt64 := do
  let entryLen ← vmSpace m.fragment.length m.keyLen
  let newLen ← addUsize s.endPos entryLen
  grow P sv didAccount payer newLen
  let now ← orFault sv.clock
  let data ← Exec.borrow didAccount
  -- The document is borrowed mutably while the key is read from the buffer.
  ensure (didAccount.address != keyBuffer.address) .accountBorrowFailed
  let buf ← Exec.borrow keyBuffer
  let last ← addUsize kbOffKey m.keyLen
  let key ← slice buf kbOffKey last
  let data ← insertVm data s m key
  storeTouched didAccount data now

def process (accounts : List AccountView) (args : Bytes) : Exec Unit :=
  match accounts with
  | payer :: authority :: didAccount :: keyBuffer :: system :: rest => do
    let L ← Exec.ledger
    Reader.eval Reader.finish (Reader.new .args args)
    checkPayer payer
    checkAuthoritySigner authority
    checkSystemProgram system
    let subject ← verifyDidAccount P L didAccount
    verifyKeyBuffer P L keyBuffer authority.address (some didAccount.address)
    let (m, s) ← check P L authority didAccount keyBuffer rest.head?
    let newVersion ← commit P sv payer didAccount keyBuffer m s
    closeTo P keyBuffer payer
    emit didModified didAccount.address subject newVersion
  | _ => throw (.program .notEnoughAccountKeys)

end AddVerificationMethodFromBuffer

namespace CloseKeyBuffer

def process (accounts : List AccountView) (args : Bytes) : Exec Unit :=
  match accounts with
  | payer :: authority :: keyBuffer :: _ => do
    let L ← Exec.ledger
    Reader.eval Reader.finish (Reader.new .args args)
    checkPayer payer
    checkAuthoritySigner authority
    verifyKeyBuffer P L keyBuffer authority.address none
    closeTo P keyBuffer payer
  | _ => throw (.program .notEnoughAccountKeys)

end CloseKeyBuffer

end BioDidRegistry
