import BioDidRegistry.Document.Decode
import BioDidRegistry.Document.Edits
import BioDidRegistry.Program.Faults

/-!
# Accounts that hold a document

`IsDid P L a d` says that the account at `a` is the `DidAccount` of `d`. The
program accepts an account as a DID exactly when there is such a `d`, and what it
then asks of the account it asks of `d`.
-/

namespace BioDidRegistry

open BinaryFormat Verdict Cursor

theorem exists_split_at (n : ℕ) (xs : Bytes) (h : n ≤ xs.length) :
    ∃ a b, xs = a ++ b ∧ a.length = n :=
  ⟨xs.take n, xs.drop n, (List.take_append_drop n xs).symm, by simp [h]⟩

theorem index_append {a c : Bytes} {x : UInt8} {pos : ℕ} (hpos : pos = a.length) :
    index (a ++ [x] ++ c) pos = .ok x := by
  unfold index
  subst hpos
  simp

/-- 58 bytes with the discriminator are the head of a document. -/
theorem Document.exists_head {head : Bytes} (hlen : head.length = offSections)
    (hdisc : head.take 8 = accountDiscriminator) (body : Body) :
    ∃ d : Document, d.head = head ∧ d.body = body := by
  obtain ⟨h₁, r₁, rfl, hh₁⟩ := exists_split_at 8 head (by rw [hlen]; decide)
  rw [← hh₁, List.take_left] at hdisc
  subst hdisc
  simp only [List.length_append, hh₁, offSections] at hlen
  obtain ⟨v, r₂, rfl, hv⟩ := exists_split_at 8 r₁ (by omega)
  simp only [List.length_append] at hlen
  obtain ⟨bump, r₃, rfl, hbump⟩ := exists_split_at 1 r₂ (by omega)
  simp only [List.length_append] at hlen
  obtain ⟨subject, r₄, rfl, hsubject⟩ := exists_split_at 32 r₃ (by omega)
  simp only [List.length_append] at hlen
  obtain ⟨gone, time, rfl, hgone⟩ := exists_split_at 1 r₄ (by omega)
  simp only [List.length_append] at hlen
  obtain ⟨bump, rfl⟩ := List.length_eq_one_iff.mp hbump
  obtain ⟨gone, rfl⟩ := List.length_eq_one_iff.mp hgone
  have hword {bs : Bytes} (h : bs.length = 8) : u64Bytes (UInt64.ofNat (leValue bs)) = bs := by
    have hlt := leValue_lt bs
    rw [h] at hlt
    rw [u64Bytes, UInt64.toNat_ofNat', Nat.mod_eq_of_lt (by simpa using hlt), ← h,
      leBytes_leValue]
  have htime : i64Bytes (UInt64.ofNat (leValue time)).toInt64 = time := by
    calc i64Bytes (UInt64.ofNat (leValue time)).toInt64
        = u64Bytes (UInt64.ofNat (leValue time)) := by simp only [i64Bytes, u64Bytes,
          UInt64.toUInt64_toInt64]
      _ = time := hword (by simp only [List.length_cons, List.length_nil] at hlen; omega)
  refine ⟨⟨UInt64.ofNat (leValue v), bump, ⟨subject, hsubject⟩, gone,
    (UInt64.ofNat (leValue time)).toInt64, body⟩, ?_, rfl⟩
  simp only [Document.head, hword hv, htime, List.append_assoc]

theorem DidView.Shows.isDeactivated_eq {v : DidView} {d : Document} (h : v.Shows d.head d.body) :
    v.isDeactivated = .ok (d.deactivated != 0) := by
  have hdata : v.data = (accountDiscriminator ++ u64Bytes d.version ++ [d.bump] ++ d.subject.val) ++
      [d.deactivated] ++ (i64Bytes d.updatedAt ++ d.body.encode) := by
    simp only [h.data_eq, Document.head, List.append_assoc]
  unfold DidView.isDeactivated
  rw [hdata, index_append (by simp [accountDiscriminator, d.subject.length_eq, offDeactivated])]
  rfl

/-- The account at `a` is the `DidAccount` of `d`. -/
structure IsDid (P : Platform) (L : Ledger) (a : Address) (d : Document) : Prop where
  owner : (L a).owner = programId
  data_eq : (L a).data = d.encode
  fits : d.body.Fits
  address : P.deriveAddress [didSeed, d.subject.val] d.bump = a

variable {P : Platform} {L : Ledger}

theorem Document.read_bump_subject (d : Document) (rest : Bytes) :
    (Reader.at' .account (d.head ++ rest) offBump >>= Reader.eval (do
      let bump ← Reader.u8
      let subject ← Reader.array 32
      pure (bump, subject))) = .ok (d.bump, d.subject) := by
  have hsplit : d.head ++ rest = (accountDiscriminator ++ u64Bytes d.version) ++
      ([d.bump] ++ (d.subject.val ++ ([d.deactivated] ++ i64Bytes d.updatedAt ++ rest))) := by
    simp only [Document.head, List.append_assoc]
  have hlen : offBump = (accountDiscriminator ++ u64Bytes d.version).length := by
    simp [accountDiscriminator, offBump]
  obtain ⟨r, hat, hrest⟩ := Reader.at'_append (s := .account) (b := [d.bump] ++
    (d.subject.val ++ ([d.deactivated] ++ i64Bytes d.updatedAt ++ rest))) hlen
  rw [hsplit, hat, except_bind_ok, Reader.eval_ok_iff]
  simp only [Reader.u8_reads.bind_ok_iff, (Reader.array_reads 32).bind_ok_iff, pure_ok_iff,
    Reader.cursor_rest, Reader.rest_skip, hrest]
  refine ⟨_, d.bump, ⟨trivial, List.prefix_append _ _⟩, d.subject, ⟨trivial, ?_⟩, rfl, rfl⟩
  rw [List.drop_left]
  exact List.prefix_append _ _

/-- What `loadDidAccount` accepts. -/
theorem loadDidAccount_eq (did : AccountView) (d : Document) (rest : Bytes)
    (hdata : (L did.address).data = d.head ++ rest) (hlen : 16 ≤ rest.length) :
    loadDidAccount P L did = (do
      ensure ((L did.address).owner == programId) .invalidAccountOwner
      ensure (did.address == P.deriveAddress [didSeed, d.subject.val] d.bump) .invalidSeeds
      pure d.subject) := by
  have hcond : (decide (baseSpace ≤ (d.head ++ rest).length) &&
      (d.head ++ rest).take 8 == accountDiscriminator) = true := by
    rw [d.take_head]
    simp [offSections, baseSpace]
    omega
  unfold loadDidAccount
  refine bind_congr_ok fun _ _ => ?_
  have hread := d.read_bump_subject rest
  rw [hdata]
  dsimp only
  rw [hcond, ensure_true, except_bind_ok]
  rw [except_bind_ok_iff] at hread
  obtain ⟨r, hat, heval⟩ := hread
  rw [hat, except_bind_ok, heval]
  rfl

namespace IsDid

variable {a : Address} {d : Document} (h : IsDid P L a d)

include h

theorem shows_of_parse {v : DidView} (hv : DidView.parse (L a).data = .ok v) :
    v.Shows d.head d.body where
  length_head := d.length_head
  fits := h.fits
  data_eq := by rw [DidView.parse_ok_iff.mp hv, h.data_eq, Document.encode]

theorem exists_view : ∃ v, DidView.parse (L a).data = .ok v ∧ v.Shows d.head d.body := by
  obtain ⟨v, hv, hshows⟩ := DidView.exists_parse d.length_head h.fits
  rw [h.data_eq]
  exact ⟨v, hv, hshows⟩

theorem loadDidAccount {did : AccountView} (ha : did.address = a) :
    BioDidRegistry.loadDidAccount P L did = .ok d.subject := by
  have hdata : (L did.address).data = d.head ++ d.body.encode := by rw [ha, h.data_eq]; rfl
  rw [loadDidAccount_eq did d _ hdata d.body.counts_le, ha, h.owner, h.address]
  simp

theorem take_data : (L a).data.take 8 = accountDiscriminator := by
  rw [h.data_eq]
  exact d.take_head d.body.encode

theorem unique {d' : Document} (h' : IsDid P L a d') : d = d' :=
  Document.encode_injective h.fits h'.fits (h.data_eq.symm.trans h'.data_eq)

end IsDid

/-- What the program loads begins as a document. -/
theorem take_of_load {did : AccountView} {s : Address} (h : loadDidAccount P L did = .ok s) :
    (L did.address).owner = programId ∧ (L did.address).data.take 8 = accountDiscriminator := by
  unfold loadDidAccount at h
  simp only [except_bind_ok_iff, ensure_eq_ok, Bool.and_eq_true, beq_iff_eq] at h
  obtain ⟨-, howner, -, ⟨-, hdisc⟩, -⟩ := h
  exact ⟨howner, hdisc⟩

theorem isDid_of_load {did : AccountView} {s : Address} {v : DidView}
    (hload : loadDidAccount P L did = .ok s)
    (hparse : DidView.parse (L did.address).data = .ok v) :
    ∃ d, IsDid P L did.address d ∧ s = d.subject ∧ v.Shows d.head d.body := by
  obtain ⟨head, b, hshows⟩ := v.exists_shows
  have hdata : (L did.address).data = head ++ b.encode :=
    (DidView.parse_ok_iff.mp hparse).symm.trans hshows.data_eq
  have hdisc : head.take 8 = accountDiscriminator := by
    have hcond := (take_of_load hload).2
    rwa [hdata, List.take_append_of_le_length (by rw [hshows.length_head]; decide)] at hcond
  obtain ⟨d, rfl, rfl⟩ := Document.exists_head hshows.length_head hdisc b
  rw [loadDidAccount_eq did d _ hdata d.body.counts_le] at hload
  simp only [except_bind_ok_iff, ensure_eq_ok, beq_iff_eq, except_pure, Except.ok.injEq] at hload
  obtain ⟨-, howner, -, haddress, hs⟩ := hload
  exact ⟨d, ⟨howner, hdata, hshows.fits, haddress.symm⟩, hs.symm, hshows⟩

/-! ### Authority -/

/-- `signer` may update the DID of `d`: as one of its authorities, or as an authority
of the DID whose account is named after the instruction's own and whose subject is
among the native controllers of `d`. -/
def Authorized (P : Platform) (L : Ledger) (d : Document) (signer : Address)
    (controller : Option AccountView) : Prop :=
  d.deactivated = 0 ∧ (d.body.isAuthority signer = true ∨
    ∃ c p, controller = some c ∧ IsDid P L c.address p ∧ p.subject ∈ d.body.natives ∧
      p.deactivated = 0 ∧ p.body.isAuthority signer = true)

/-- The account named after the instruction's own, if any, is that of `parent`. -/
def NamedBy (P : Platform) (L : Ledger) : Option AccountView → Option Document → Prop
  | none, none => True
  | some c, some p => IsDid P L c.address p
  | _, _ => False

variable {v : DidView} {d : Document} {signer : Address} {controller : Option AccountView}

/-- The authority check, asked of the document. -/
theorem authorize_eq (h : v.Shows d.head d.body) : authorize P L v signer controller = (do
    require (d.deactivated == 0) .didDeactivated
    if d.body.isAuthority signer then pure ()
    else match controller with
      | none => throw DidError.unauthorized.fault
      | some c =>
        let subject ← loadDidAccount P L c
        require (decide (subject ∈ d.body.natives)) .unauthorized
        let parent ← DidView.parse (L c.address).data
        let gone ← parent.isDeactivated
        require (!gone && parent.isAuthority signer) .unauthorized) := by
  unfold authorize
  rw [h.isDeactivated_eq, except_bind_ok, bne, Bool.not_not, h.isAuthority_eq]
  cases controller with
  | none => rfl
  | some c => simp only [h.isNativeController_eq, except_bind_ok]

/-- The controller's part of the check, for an account that holds `p`. -/
theorem controller_eq {c : AccountView} {p : Document} (hp : IsDid P L c.address p)
    (natives : List Address) : (do
      let subject ← loadDidAccount P L c
      require (decide (subject ∈ natives)) .unauthorized
      let parent ← DidView.parse (L c.address).data
      let gone ← parent.isDeactivated
      require (!gone && parent.isAuthority signer) .unauthorized) =
      require (decide (p.subject ∈ natives) && p.deactivated == 0 && p.body.isAuthority signer)
        .unauthorized := by
  obtain ⟨v, hv, hshows⟩ := hp.exists_view
  rw [hp.loadDidAccount rfl, except_bind_ok, hv]
  simp only [except_bind_ok, hshows.isDeactivated_eq, hshows.isAuthority_eq, require_require, bne,
    Bool.not_not, Bool.and_assoc]

/-- The program's authority check follows the model's. -/
theorem authorize_agrees (h : v.Shows d.head d.body) {parent : Option Document}
    (hparent : NamedBy P L controller parent) :
    Agrees DidError.fault (fun _ _ => True) (authorize P L v signer controller)
      (d.authorize signer parent) := by
  rw [authorize_eq h]
  unfold Document.authorize
  refine agrees_require rfl fun _ => ?_
  by_cases hauth : d.body.isAuthority signer = true
  · rw [if_pos hauth, if_pos hauth]
    exact .ok trivial
  · rw [if_neg hauth, if_neg hauth]
    cases controller with
    | none =>
      cases parent with
      | none => exact .error _
      | some p => exact hparent.elim
    | some c =>
      cases parent with
      | none => exact hparent.elim
      | some p =>
        dsimp only
        rw [controller_eq hparent]
        exact agrees_require_last rfl

theorem total_of_agrees {α β : Type} {R : α → β → Prop} {x : Except Fault α} {y : Except DidError β}
    (h : Agrees DidError.fault R x y) : Total x := by
  cases h with
  | ok => exact .ok _
  | error e => exact .program _

theorem isDeactivated_total (v : DidView) : Total v.isDeactivated := by
  have hlen : offDeactivated < v.data.length := by
    obtain ⟨head, b, hshows⟩ := v.exists_shows
    rw [hshows.length_data]
    simp only [offDeactivated, offSections]
    omega
  unfold DidView.isDeactivated index
  rw [List.getElem?_eq_getElem hlen]
  exact .ok _

theorem authorize_total (h : v.Shows d.head d.body) :
    Total (authorize P L v signer controller) := by
  rw [authorize_eq h]
  refine .bind (.require _ _) fun _ _ => .ite (.ok ()) ?_
  cases controller with
  | none => exact .program _
  | some c =>
    refine .bind (loadDidAccount_total P L c) fun subject _ => .bind (.require _ _) fun _ _ => ?_
    refine .bind (DidView.parse_total _) fun parent _ => .bind (isDeactivated_total parent) ?_
    exact fun gone _ => .require _ _

theorem authorize_ok_iff (h : v.Shows d.head d.body) {u : Unit} :
    authorize P L v signer controller = .ok u ↔ Authorized P L d signer controller := by
  rw [authorize_eq h]
  simp only [except_bind_ok_iff, require_eq_ok, beq_iff_eq]
  constructor
  · rintro ⟨-, hd, hrest⟩
    refine ⟨hd, ?_⟩
    split_ifs at hrest with hauth
    · exact Or.inl hauth
    · right
      cases controller with
      | none => cases hrest
      | some c =>
        have hrun := hrest
        simp only [except_bind_ok_iff] at hrun
        obtain ⟨s, hload, -, -, parent, hparse, -⟩ := hrun
        obtain ⟨p, hp, -, -⟩ := isDid_of_load hload hparse
        dsimp only at hrest
        rw [controller_eq hp, require_eq_ok] at hrest
        simp only [Bool.and_eq_true, decide_eq_true_eq, beq_iff_eq] at hrest
        exact ⟨c, p, rfl, hp, hrest.1.1, hrest.1.2, hrest.2⟩
  · rintro ⟨hd, hauth⟩
    refine ⟨(), hd, ?_⟩
    split_ifs with hdirect
    · rfl
    · rcases hauth with hauth | ⟨c, p, rfl, hp, hmem, hlive, hkey⟩
      · exact absurd hauth hdirect
      · dsimp only
        rw [controller_eq hp, require_eq_ok]
        simp [hmem, hlive, hkey]

end BioDidRegistry
