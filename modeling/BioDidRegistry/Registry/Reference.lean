import BioDidRegistry.Registry.Balances
import BioDidRegistry.Registry.Requests

/-!
# A platform to run on

`Platform.ofAddresses` answers as the documentation says, whatever the program addresses
are and whichever bytes are curve points. Any list of calls is a run on any platform.
`Sample` has the addresses of two subjects and a ledger on which one account can pay.
-/

namespace BioDidRegistry

open BinaryFormat Transition

instance (L : Ledger) (src dst : AccountView) (n : ℕ) : Decidable (CanPay L src dst n) :=
  decidable_of_iff (src.isSigner = true ∧ src.isWritable = true ∧ dst.isWritable = true ∧
      (L src.address).data = [] ∧ (n = 0 ∨ (L src.address).owner = systemProgram) ∧
      n ≤ (L src.address).lamports)
    ⟨fun ⟨h1, h2, h3, h4, h5, h6⟩ => ⟨h1, h2, h3, h4, h5, h6⟩,
      fun ⟨h1, h2, h3, h4, h5, h6⟩ => ⟨h1, h2, h3, h4, h5, h6⟩⟩

/-- The runtime goes to `L` when `p` holds and refuses otherwise. -/
def grant (p : Prop) [Decidable p] (L : Ledger) : Except ProgramError Ledger :=
  if p then .ok L else .error (.other 0)

theorem grant_ok_iff {p : Prop} [Decidable p] {L L' : Ledger} :
    grant p L = .ok L' ↔ p ∧ L' = L := by
  unfold grant
  split_ifs with h <;> simp [h, eq_comm]

/-- The documented platform, given the program addresses and the curve points. -/
def Platform.ofAddresses (find : List Bytes → Option (Address × UInt8))
    (isCurvePoint : Bytes → Bool) : Platform where
  deriveAddress seeds bump :=
    match find seeds with
    | some (a, b) => if b = bump then a else systemProgram
    | none => systemProgram
  deriveProgramAddress := find
  isCurvePoint := isCurvePoint
  transfer src dst n L :=
    let paid := L.pay src.address dst.address n
    grant (CanPay L src dst n ∧ (paid dst.address).lamports < 2 ^ 64) paid
  createAccount src dst n space owner _ _ L :=
    grant (CanPay L src dst n ∧ src.address ≠ dst.address ∧ space ≤ maxPermittedDataIncrease ∧
        L dst.address = ⟨0, [], systemProgram⟩)
      (((L.pay src.address dst.address n).store dst.address
        (List.replicate space 0)).setOwner dst.address owner)
  allocate dst space _ _ L :=
    grant (dst.isWritable = true ∧ space ≤ maxPermittedDataIncrease ∧ (L dst.address).data = [] ∧
        (L dst.address).owner = systemProgram) (L.store dst.address (List.replicate space 0))
  assign dst owner _ _ L := grant (dst.isWritable = true) (L.setOwner dst.address owner)
  resize account n L :=
    grant (n ≤ (L account.address).data.length + maxPermittedDataIncrease)
      (L.store account.address (resizeWith 0 (L account.address).data n))
  close account L := .ok (L.modify account.address fun _ => ⟨0, [], systemProgram⟩)
  scaleRent _ _ := none

theorem Platform.ofAddresses_lawful (find : List Bytes → Option (Address × UInt8))
    (isCurvePoint : Bytes → Bool) : (Platform.ofAddresses find isCurvePoint).Lawful where
  derive_found h := by
    change find _ = _ at h
    simp [ofAddresses, h]
  transfer_ok_iff := grant_ok_iff.trans and_assoc
  createAccount_ok_iff _ := grant_ok_iff
  allocate_ok_iff _ := grant_ok_iff
  assign_ok_iff _ _ _ := grant_ok_iff
  resize_ok_iff := grant_ok_iff
  close_eq := rfl

/-! ### Calls in a row -/

section Calls

variable (P : Platform)

def afterAll (calls : List Call) (L : Ledger) : Ledger :=
  calls.foldl (fun L c => after P c L) L

/-- What becomes of a call. -/
def Call.turn (c : Call) (L : Ledger) : Turn :=
  match invoke P c L with
  | .ok _ => .accepted c
  | .error _ => .refused c

def turnsOf : List Call → Ledger → List Turn
  | [], _ => []
  | c :: calls, L => c.turn P L :: turnsOf calls (after P c L)

variable {P} {L : Ledger} {c : Call}

theorem Step.of_call (c : Call) (L : Ledger) : Step P L (c.turn P L) (after P c L) := by
  unfold Call.turn after
  cases hc : invoke P c L with
  | ok r => exact .accepted hc
  | error e => exact .refused hc

/-- Every list of calls is a run, whatever becomes of them. -/
theorem run_of_calls (calls : List Call) (L : Ledger) :
    Run (Step P) L (turnsOf P calls L) (afterAll P calls L) := by
  induction calls generalizing L with
  | nil => exact .start
  | cons c calls ih =>
    have hfirst : Run (Step P) L ([] ++ [c.turn P L]) (after P c L) :=
      Run.start.snoc (Step.of_call c L)
    exact hfirst.trans (ih _)

theorem mem_of_turnsOf {calls : List Call} (h : .accepted c ∈ turnsOf P calls L) : c ∈ calls := by
  induction calls generalizing L with
  | nil => cases h
  | cons c' calls ih =>
    rcases List.mem_cons.mp h with h | h
    · unfold Call.turn at h
      split at h <;> cases h
      exact List.mem_cons_self ..
    · exact List.mem_cons_of_mem _ (ih h)

theorem outside_notMem_turnsOf (calls : List Call) : Turn.outside ∉ turnsOf P calls L := by
  induction calls generalizing L with
  | nil => exact List.not_mem_nil
  | cons c calls ih =>
    have hturn : Turn.outside ≠ c.turn P L := by
      unfold Call.turn
      split <;> simp
    exact List.not_mem_cons_of_ne_of_not_mem hturn ih

theorem invoke_after (h : (invoke P c L).toOption.isSome = true) :
    ∃ log, invoke P c L = .ok (after P c L, log) := by
  unfold after
  cases hc : invoke P c L with
  | ok r => exact ⟨r.2, rfl⟩
  | error e =>
    rw [hc] at h
    cases h

end Calls

/-! ### A sample -/

namespace Sample

def address (byte : UInt8) : Address := ⟨List.replicate 32 byte, List.length_replicate⟩

def payer : Address := address 6

/-- A key subject, which is on the curve. -/
def subject : Address := address 1

/-- Another, which `subject` may name as its controller. -/
def controller : Address := address 3

def did : Address :=
  ⟨[96, 253, 249, 183, 172, 33, 160, 27, 77, 150, 81, 207, 96, 8, 198, 73, 200, 114, 179, 70, 30,
    220, 108, 235, 39, 14, 191, 167, 138, 131, 219, 102], rfl⟩

def controllerDid : Address :=
  ⟨[251, 28, 197, 219, 67, 130, 144, 15, 97, 254, 111, 19, 157, 1, 237, 170, 187, 116, 169, 167,
    136, 130, 185, 100, 162, 27, 93, 166, 252, 248, 219, 112], rfl⟩

def buffer : Address :=
  ⟨[226, 83, 37, 107, 199, 180, 87, 145, 201, 151, 189, 32, 200, 52, 210, 7, 63, 196, 184, 97, 59,
    125, 210, 162, 196, 55, 232, 27, 100, 219, 98, 236], rfl⟩

/-- The program addresses the sample needs, with their bumps. -/
def find (seeds : List Bytes) : Option (Address × UInt8) :=
  if seeds = [didSeed, subject.val] then some (did, 255)
  else if seeds = [didSeed, controller.val] then some (controllerDid, 255)
  else if seeds = [keyBufferSeed, did.val, subject.val] then some (buffer, 252)
  else none

def platform : Platform :=
  Platform.ofAddresses find fun bs => bs == subject.val || bs == controller.val

def ledger : Ledger :=
  Function.update (fun _ => ⟨0, [], systemProgram⟩) payer ⟨10 ^ 9, [], systemProgram⟩

/-- 3480 lamports for each byte and year, for two years. -/
def sysvars : Sysvars where
  rent n := .ok ⟨((u64Bytes 3480 ++ twoF64Le ++ [50]) ++ List.replicate n 0).take n, by
    simp [u64Bytes, twoF64Le]
    omega⟩
  clock := .ok 1700000000

theorem platform_lawful : platform.Lawful := Platform.ofAddresses_lawful _ _

theorem ledger_fresh : Fresh ledger := by
  intro a
  have howner : (ledger a).owner = systemProgram := by
    unfold ledger
    rw [Function.update_apply]
    split_ifs <;> rfl
  rw [howner]
  exact programId_ne_systemProgram.symm

def send (i : Option Instruction) : Call :=
  (i.getD (Instruction.new .initializeDid [])).call sysvars

def creation : Call := send (Client.initializeDid platform payer subject)

/-- Opens the buffer of `subject` for an X25519 key. -/
def opening : Call :=
  send (Client.createKeyBuffer platform payer subject subject [97] vmTypeX25519
    vmFlagKeyAgreement 32)

/-- The first 20 bytes of a key. -/
def writing : Call := send (Client.writeKeyBuffer platform subject subject 0 (List.replicate 20 9))

/-- The other 12. -/
def completion : Call :=
  send (Client.writeKeyBuffer platform subject subject 20 (List.replicate 12 9))

def finishing : Call := send (Client.addVerificationMethodFromBuffer platform payer subject subject)

/-- Adds a protected method of `subject` itself. -/
def protection : Call :=
  send (Client.addVerificationMethod platform payer subject subject [112] vmTypeEd25519
    vmFlagsDefault subject.val)

def document : Document := Document.initial 255 subject subject 1700000000

/-- The document with the method of `protection`. -/
def protectedDocument : Document :=
  let m : Method := ⟨[112], vmTypeEd25519, vmFlagsDefault, subject.val⟩
  document.updated (.addVm m) { document.body with methods := document.body.methods ++ [m] }
    1700000000

def deactivation : Call := send (Client.deactivate platform payer subject subject)

theorem keyed {c : Call}
    (h : ∀ view ∈ c.accounts, view.isSigner = true → view.address ∉ [did, controllerDid, buffer]) :
    c.Keyed platform := by
  intro view hview hsigner seeds bump hfind
  apply h view hview hsigner
  change find seeds = _ at hfind
  unfold find at hfind
  split_ifs at hfind
  · simp [(Prod.mk.inj (Option.some.inj hfind)).1]
  · simp [(Prod.mk.inj (Option.some.inj hfind)).1]
  · simp [(Prod.mk.inj (Option.some.inj hfind)).1]

end Sample

end BioDidRegistry
