import BioDidRegistry.Properties.Refinement
import BioDidRegistry.Registry.Builders

/-!
# What the registry holds

Without the accounts, their bytes and their lamports the registry is a document for every
subject, and an upload for every subject and authority that have one under way.
`Holdings.react` is what a request does to them. `Stands` says which ledgers stand for which
holdings, and every effect leads from a ledger to one that stands for the holdings after it.
-/

namespace BioDidRegistry

open BinaryFormat Transition

variable {P : Platform} {L L' : Ledger}

/-! ### The model -/

/-- A method on its way into a document, with the key bytes that came so far. -/
structure Pending where
  method : NewMethod
  received : Bytes
  deriving DecidableEq

def Pending.toMethod (u : Pending) : Method :=
  ⟨u.method.fragment, u.method.methodType, u.method.flags, u.received⟩

/-- The documents by their subjects, and the uploads by subject and authority. -/
structure Holdings where
  documents : World
  uploads : Address × Address → Option Pending

namespace Holdings

def empty : Holdings := ⟨fun _ => none, fun _ => none⟩

/-- The document is what its subject has from now on. -/
def record (w : Holdings) (d : Document) : Holdings :=
  { w with documents := Function.update w.documents d.subject (some d) }

/-- The upload is what `authority` has under way for `subject` from now on. -/
def stage (w : Holdings) (subject authority : Address) (upload : Option Pending) : Holdings :=
  { w with uploads := Function.update w.uploads (subject, authority) upload }

@[simp] theorem record_self (w : Holdings) (d : Document) :
    (w.record d).documents d.subject = some d := Function.update_self ..

theorem record_of_ne (w : Holdings) (d : Document) {s : Address} (hs : s ≠ d.subject) :
    (w.record d).documents s = w.documents s := Function.update_of_ne hs ..

@[simp] theorem stage_self (w : Holdings) (subject authority : Address) (upload : Option Pending) :
    (w.stage subject authority upload).uploads (subject, authority) = upload :=
  Function.update_self ..

theorem stage_of_ne (w : Holdings) (subject : Address) {s authority key : Address}
    (upload : Option Pending) (hkey : authority ≠ key) :
    (w.stage subject authority upload).uploads (s, key) = w.uploads (s, key) :=
  Function.update_of_ne (fun hslot => hkey (Prod.mk.inj hslot).2.symm) ..

section React

variable (P : Platform) (w : Holdings)

def found (subject key : Address) (now : Int64) : Option Holdings := do
  guard (w.documents subject).isNone
  let (_, bump) ← P.deriveProgramAddress [didSeed, subject.val]
  pure (w.record (.initial bump subject key now))

/-- The document of `subject` after an update by `authority`, which may act through `via`. -/
def edited (authority subject : Address) (via : Option Address) (op : Op) (now : Int64) :
    Option Document := do
  let d ← w.documents subject
  (d.apply P.isCurvePoint authority (via.bind w.documents) op now).toOption

/-- What a request does to the holdings, if it is to be granted. -/
def react (b : Builder) (via : Option Address) (now : Int64) : Option Holdings :=
  match b with
  | .initializeDid _ subject => do
    guard (P.isCurvePoint subject.val)
    w.found P subject subject now
  | .initializeOwned _ authority nonce => do
    let subject ← Client.ownedSubject P authority nonce
    w.found P subject authority now
  | .update _ authority subject op => do
    let d ← w.edited P authority subject via op now
    pure (w.record d)
  | .createKeyBuffer _ authority subject fragment methodType flags keyLen => do
    let d ← w.documents subject
    let method : NewMethod := ⟨fragment, methodType, flags, keyLen.toNat⟩
    (d.authorize authority (via.bind w.documents)).toOption
    (d.body.admits method).toOption
    guard (w.uploads (subject, authority)).isNone
    pure (w.stage subject authority (some ⟨method, []⟩))
  | .writeKeyBuffer authority subject offset chunk => do
    let u ← w.uploads (subject, authority)
    guard (chunk ≠ [] ∧ offset.toNat = u.received.length ∧
      u.received.length + chunk.length ≤ u.method.keyLen)
    pure (w.stage subject authority (some { u with received := u.received ++ chunk }))
  | .addVerificationMethodFromBuffer _ authority subject => do
    let u ← w.uploads (subject, authority)
    guard (u.received.length = u.method.keyLen)
    let d ← w.edited P authority subject via (.addVm u.toMethod) now
    pure ((w.record d).stage subject authority none)
  | .closeKeyBuffer _ authority subject => do
    let _ ← w.uploads (subject, authority)
    pure (w.stage subject authority none)

end React

/-! ### Granted requests -/

section Granted

variable {w w' : Holdings} {payer authority subject : Address} {via : Option Address}
  {now : Int64}

theorem found_eq_some_iff {key : Address} : w.found P subject key now = some w' ↔
    w.documents subject = none ∧ ∃ a bump,
      P.deriveProgramAddress [didSeed, subject.val] = some (a, bump) ∧
        w.record (.initial bump subject key now) = w' := by
  simp [found, Option.bind_eq_some_iff]

theorem edited_eq_some_iff {op : Op} {d' : Document} :
    w.edited P authority subject via op now = some d' ↔ ∃ d, w.documents subject = some d ∧
      d.apply P.isCurvePoint authority (via.bind w.documents) op now = .ok d' := by
  simp [edited, Option.bind_eq_some_iff, except_toOption_eq_some_iff]

theorem react_initializeDid : w.react P (.initializeDid payer subject) via now = some w' ↔
    P.isCurvePoint subject.val = true ∧ w.found P subject subject now = some w' := by
  simp [react, Option.bind_eq_some_iff]

theorem react_initializeOwned {nonce : UInt64} :
    w.react P (.initializeOwned payer authority nonce) via now = some w' ↔
      ∃ subject, Client.ownedSubject P authority nonce = some subject ∧
        w.found P subject authority now = some w' := by
  simp [react, Option.bind_eq_some_iff]

theorem react_update {op : Op} :
    w.react P (.update payer authority subject op) via now = some w' ↔
      ∃ d, w.edited P authority subject via op now = some d ∧ w.record d = w' := by
  simp [react, Option.bind_eq_some_iff]

theorem react_createKeyBuffer {fragment : Bytes} {methodType : UInt8} {flags : UInt16}
    {keyLen : UInt32} : w.react P (.createKeyBuffer payer authority subject fragment methodType
        flags keyLen) via now = some w' ↔
      ∃ d, w.documents subject = some d ∧ d.authorize authority (via.bind w.documents) = .ok () ∧
        d.body.admits ⟨fragment, methodType, flags, keyLen.toNat⟩ = .ok () ∧
        w.uploads (subject, authority) = none ∧
        w.stage subject authority (some ⟨⟨fragment, methodType, flags, keyLen.toNat⟩, []⟩) =
          w' := by
  simp [react, Option.bind_eq_some_iff, except_toOption_eq_some_iff, Unique.exists_iff]

theorem react_writeKeyBuffer {offset : UInt32} {chunk : Bytes} :
    w.react P (.writeKeyBuffer authority subject offset chunk) via now = some w' ↔
      ∃ u, w.uploads (subject, authority) = some u ∧ (chunk ≠ [] ∧
        offset.toNat = u.received.length ∧ u.received.length + chunk.length ≤ u.method.keyLen) ∧
        w.stage subject authority (some { u with received := u.received ++ chunk }) = w' := by
  simp [react, Option.bind_eq_some_iff]

theorem react_finish :
    w.react P (.addVerificationMethodFromBuffer payer authority subject) via now = some w' ↔
      ∃ u, w.uploads (subject, authority) = some u ∧ u.received.length = u.method.keyLen ∧
        ∃ d, w.edited P authority subject via (.addVm u.toMethod) now = some d ∧
          (w.record d).stage subject authority none = w' := by
  simp [react, Option.bind_eq_some_iff]

theorem react_closeKeyBuffer :
    w.react P (.closeKeyBuffer payer authority subject) via now = some w' ↔
      ∃ u, w.uploads (subject, authority) = some u ∧ w.stage subject authority none = w' := by
  simp [react, Option.bind_eq_some_iff]

end Granted

end Holdings

/-- A request that is granted, with the controller it goes through and the time. -/
abbrev Grant := Builder × Option Address × Int64

/-- A step of the model grants a request or does nothing. -/
inductive Holdings.Step (P : Platform) : Holdings → Option Grant → Holdings → Prop
  | granted {w w' : Holdings} {b : Builder} {via : Option Address} {now : Int64}
      (reacts : w.react P b via now = some w') : Holdings.Step P w (some (b, via, now)) w'
  | idle {w : Holdings} : Holdings.Step P w none w

/-! ### What a ledger stands for -/

/-- The upload a key buffer stages. -/
def KeyBuffer.pending (kb : KeyBuffer) : Pending := ⟨kb.method, kb.received⟩

/-- The account at `a` is the DID of `s`. -/
def Ledger.SubjectAt (P : Platform) (L : Ledger) (a s : Address) : Prop :=
  ∃ d, Registered P L a d ∧ d.subject = s

/-- Some key buffer of `key` for the DID of `s` holds the upload. -/
def Ledger.Uploading (P : Platform) (L : Ledger) (s key : Address) (u : Pending) : Prop :=
  ∃ a kb, Staged P L a kb ∧ kb.authority = key ∧ kb.pending = u ∧ L.SubjectAt P kb.didAccount s

/-- The holdings are the documents and the uploads of the ledger, and no others. -/
structure Stands (P : Platform) (L : Ledger) (w : Holdings) : Prop where
  documents : Matches P L w.documents
  uploads : ∀ s key u, w.uploads (s, key) = some u ↔ L.Uploading P s key u

namespace Ledger.SubjectAt

variable {a b s s' : Address}

theorem unique (h : L.SubjectAt P a s) (h' : L.SubjectAt P a s') : s = s' := by
  obtain ⟨d, hd, rfl⟩ := h
  obtain ⟨d', hd', rfl⟩ := h'
  rw [hd.toIsDid.unique hd'.toIsDid]

theorem address_unique (h : L.SubjectAt P a s) (h' : L.SubjectAt P b s) : a = b := by
  obtain ⟨d, hd, rfl⟩ := h
  obtain ⟨d', hd', hsubject⟩ := h'
  exact hd.address_unique hd' hsubject.symm

end Ledger.SubjectAt

theorem Sound.staged (hS : Sound P L) {a : Address} {kb : KeyBuffer} (hkb : IsBuffer P L a kb) :
    Staged P L a kb := by
  rcases hS a hkb.owner with ⟨d, hd⟩ | ⟨kb', hkb'⟩
  · exact absurd hkb hd.toIsDid.not_isBuffer
  · rw [hkb.unique hkb'.toIsBuffer]
    exact hkb'

theorem Sound.subjectAt (hS : Sound P L) {a : Address} {d : Document} (hd : IsDid P L a d) :
    L.SubjectAt P a d.subject :=
  ⟨d, hS.registered hd, rfl⟩

/-! ### Changes to one upload -/

/-- The DIDs of `L'` have the subjects they had in `L`. -/
def SameSubjects (P : Platform) (L L' : Ledger) : Prop :=
  ∀ a s, (∃ d, IsDid P L a d) → (L'.SubjectAt P a s ↔ L.SubjectAt P a s)

section Uploads

variable {f : Address × Address → Option Pending}
  (hf : ∀ s key u, f (s, key) = some u ↔ L.Uploading P s key u) (hsubjects : SameSubjects P L L')

include hf hsubjects

theorem uploading_same (hstaged : ∀ a kb, Staged P L' a kb ↔ Staged P L a kb) (s key : Address)
    (u : Pending) : f (s, key) = some u ↔ L'.Uploading P s key u := by
  rw [hf]
  constructor
  · rintro ⟨a, kb, hkb, hkey, hu, hs⟩
    exact ⟨a, kb, (hstaged a kb).mpr hkb, hkey, hu, (hsubjects _ s hkb.did).mpr hs⟩
  · rintro ⟨a, kb, hkb, hkey, hu, hs⟩
    have hold := (hstaged a kb).mp hkb
    exact ⟨a, kb, hold, hkey, hu, (hsubjects _ s hold.did).mp hs⟩

/-- What is at the address of one upload changes, and no other key buffer. -/
theorem uploading_update {did key a s : Address} {bump : UInt8} {staged : Option KeyBuffer}
    (hs : L.SubjectAt P did s)
    (hfound : P.deriveProgramAddress [keyBufferSeed, did.val, key.val] = some (a, bump))
    (hbefore : ∀ kb, Staged P L a kb → kb.didAccount = did ∧ kb.authority = key)
    (hafter : ∀ kb, Staged P L' a kb ↔ staged = some kb)
    (hstaged : ∀ kb ∈ staged, kb.didAccount = did ∧ kb.authority = key)
    (hother : ∀ b kb, b ≠ a → (Staged P L' b kb ↔ Staged P L b kb)) (s' key' : Address)
    (u : Pending) : Function.update f (s, key) (staged.map KeyBuffer.pending) (s', key') = some u ↔
      L'.Uploading P s' key' u := by
  have hdid : ∃ d, IsDid P L did d := by
    obtain ⟨d, hd, -⟩ := hs
    exact ⟨d, hd.toIsDid⟩
  have hs' : L'.SubjectAt P did s := (hsubjects did s hdid).mpr hs
  by_cases hslot : (s', key') = (s, key)
  · obtain ⟨rfl, rfl⟩ := Prod.mk.inj hslot
    rw [Function.update_self, Option.map_eq_some_iff]
    constructor
    · rintro ⟨kb, hkb, hu⟩
      obtain ⟨hkbdid, hkbkey⟩ := hstaged kb hkb
      exact ⟨a, kb, (hafter kb).mpr hkb, hkbkey, hu, hkbdid ▸ hs'⟩
    · rintro ⟨b, kb, hkb, hkbkey, hu, hkbdid⟩
      have hfound' := hkb.found
      rw [hkbdid.address_unique hs', hkbkey, hfound] at hfound'
      obtain rfl : a = b := congrArg Prod.fst (Option.some.inj hfound')
      exact ⟨kb, (hafter kb).mp hkb, hu⟩
  · rw [Function.update_of_ne hslot, hf]
    constructor
    · rintro ⟨b, kb, hkb, hkbkey, hu, hkbdid⟩
      have hb : b ≠ a := by
        rintro rfl
        obtain ⟨hd, hk⟩ := hbefore kb hkb
        exact hslot (Prod.ext ((hd ▸ hkbdid).unique hs) (hkbkey.symm.trans hk))
      exact ⟨b, kb, (hother b kb hb).mpr hkb, hkbkey, hu, (hsubjects _ s' hkb.did).mpr hkbdid⟩
    · rintro ⟨b, kb, hkb, hkbkey, hu, hkbdid⟩
      have hb : b ≠ a := by
        rintro rfl
        obtain ⟨hd, hk⟩ := hstaged kb ((hafter kb).mp hkb)
        exact hslot (Prod.ext ((hd ▸ hkbdid).unique hs') (hkbkey.symm.trans hk))
      have hold := (hother b kb hb).mp hkb
      exact ⟨b, kb, hold, hkbkey, hu, (hsubjects _ s' hold.did).mp hkbdid⟩

end Uploads

/-! ### Effects -/

namespace Performs

variable {c : Call} {e : Effect} {log : List Bytes}

theorem sameSubjects (h : Performs P c L e L' log) (hS : Sound P L) : SameSubjects P L L' := by
  rintro a s ⟨d, hd⟩
  obtain ⟨d', hd', hsubject, -⟩ := h.persists (hS.registered hd)
  have hold := hS.subjectAt hd
  have hnew : L'.SubjectAt P a d.subject := ⟨d', hd', hsubject⟩
  constructor
  · intro hs
    rwa [hs.unique hnew]
  · intro hs
    rwa [hs.unique hold]

/-- An account the effect does not touch is the same key buffer as before. -/
theorem staged_iff_of_untouched (h : Performs P c L e L' log) (hS : Sound P L)
    (hS' : Sound P L') {a : Address} {kb : KeyBuffer} (ha : a ∉ e.touched) :
    Staged P L' a kb ↔ Staged P L a kb := by
  have hsame := h.frame ha
  exact ⟨fun hkb => hS.staged (hkb.toIsBuffer.of_same ⟨hsame.1.symm, hsame.2.symm⟩),
    fun hkb => hS'.staged (hkb.toIsBuffer.of_same hsame)⟩

/-- A DID is no key buffer, before the effect or after it. -/
theorem staged_iff_of_did (h : Performs P c L e L' log) {a : Address} {d : Document}
    (hd : Registered P L a d) (kb : KeyBuffer) : Staged P L' a kb ↔ Staged P L a kb := by
  obtain ⟨d', hd', -⟩ := h.persists hd
  exact ⟨fun hkb => absurd hkb.toIsBuffer hd'.toIsDid.not_isBuffer,
    fun hkb => absurd hkb.toIsBuffer hd.toIsDid.not_isBuffer⟩

end Performs

namespace Stands

variable {c : Call} {e : Effect} {log : List Bytes} {s : Address} {w : Holdings}

theorem on_create {a : Address} {d : Document} (hw : Stands P L w) (hP : P.Lawful) (hS : Sound P L)
    (h : Performs P c L (.create a d) L' log) : Stands P L' (w.record d) := by
  have hS' : Sound P L' := h.sound hP hS
  obtain ⟨hvacant, hd, -⟩ := h.created hP
  constructor
  · refine hw.documents.replace hd (fun d₀ hd₀ => ?_) fun b d₀ hb => ?_
    · exact absurd rfl (hd₀.toIsDid.owner_ne hvacant)
    · exact h.registered_iff_of_untouched (mt List.mem_singleton.mp hb)
  · refine uploading_same hw.uploads (h.sameSubjects hS) fun b kb => ?_
    by_cases hb : b = a
    · subst hb
      exact ⟨fun hkb => absurd hkb.toIsBuffer hd.toIsDid.not_isBuffer,
        fun hkb => absurd rfl (hkb.toIsBuffer.owner_ne hvacant)⟩
    · exact h.staged_iff_of_untouched hS hS' (mt List.mem_singleton.mp hb)

theorem on_update {a : Address} {d d' : Document} {op : Op} (hw : Stands P L w) (hP : P.Lawful)
    (hS : Sound P L) (h : Performs P c L (.update a d op d') L' log) :
    Stands P L' (w.record d') := by
  have hS' : Sound P L' := h.sound hP hS
  obtain ⟨key, body, hamended⟩ := h.amended (Or.inl rfl)
  obtain ⟨now, -, hd'⟩ := hamended.updated
  constructor
  · refine hw.documents.replace hamended.after (fun d₀ hd₀ => ?_) fun b d₀ hb => ?_
    · rw [hd₀.toIsDid.unique hamended.before.toIsDid, hd']
      rfl
    · exact h.registered_iff_of_untouched (mt List.mem_singleton.mp hb)
  · refine uploading_same hw.uploads (h.sameSubjects hS) fun b kb => ?_
    by_cases hb : b = a
    · subst hb
      exact h.staged_iff_of_did hamended.before kb
    · exact h.staged_iff_of_untouched hS hS' (mt List.mem_singleton.mp hb)

/-- A key buffer comes or goes, and no DID. -/
theorem documents_of_buffer {a : Address} (hw : Stands P L w) (h : Performs P c L e L' log)
    (htouched : e.touched = [a]) (hbefore : ∀ d, ¬Registered P L a d)
    (hafter : ∀ d, ¬Registered P L' a d) : Matches P L' w.documents := by
  refine hw.documents.congr fun b d => ?_
  by_cases hb : b = a
  · subst hb
    exact iff_of_false (hafter d) (hbefore d)
  · exact h.registered_iff_of_untouched (by simpa [htouched] using hb)

/-- The upload of one key buffer changes, whatever becomes of DIDs. -/
theorem uploads_of_buffer {a : Address} {bump : UInt8} (kb : KeyBuffer) (staged : Option KeyBuffer)
    (hw : Stands P L w) (hP : P.Lawful) (hS : Sound P L) (h : Performs P c L e L' log)
    (hs : L.SubjectAt P kb.didAccount s)
    (hfound : P.deriveProgramAddress [keyBufferSeed, kb.didAccount.val, kb.authority.val] =
      some (a, bump))
    (hbefore : ∀ kb', Staged P L a kb' → kb' = kb)
    (hafter : ∀ kb', Staged P L' a kb' ↔ staged = some kb')
    (hstaged : ∀ kb' ∈ staged, kb'.didAccount = kb.didAccount ∧ kb'.authority = kb.authority)
    (hothers : ∀ b ∈ e.touched, b ≠ a → ∃ d, Registered P L b d) (s' key' : Address) (u : Pending) :
    Function.update w.uploads (s, kb.authority) (staged.map KeyBuffer.pending) (s', key') = some u ↔
      L'.Uploading P s' key' u := by
  have hS' : Sound P L' := h.sound hP hS
  refine uploading_update hw.uploads (h.sameSubjects hS) hs hfound (fun kb' hkb' => ?_) hafter
    hstaged (fun b kb' hb => ?_) s' key' u
  · rw [hbefore kb' hkb']
    exact ⟨rfl, rfl⟩
  · by_cases htouched : b ∈ e.touched
    · obtain ⟨d, hd⟩ := hothers b htouched hb
      exact h.staged_iff_of_did hd kb'
    · exact h.staged_iff_of_untouched hS hS' htouched

theorem on_openBuffer {a : Address} {kb : KeyBuffer} (hw : Stands P L w) (hP : P.Lawful)
    (hS : Sound P L) (h : Performs P c L (.openBuffer a kb) L' log)
    (hs : L.SubjectAt P kb.didAccount s) :
    Stands P L' (w.stage s kb.authority (some kb.pending)) := by
  obtain ⟨hvacant, hkb, -, hfound, -⟩ := h.opened hP
  have hstaged : Staged P L' a kb := (h.sound hP hS).staged hkb
  constructor
  · refine hw.documents_of_buffer h rfl (fun d hd => ?_) fun d hd => hd.toIsDid.not_isBuffer hkb
    exact hd.toIsDid.owner_ne hvacant rfl
  · refine hw.uploads_of_buffer kb (some kb) hP hS h hs hfound (fun kb' hkb' => ?_)
      (fun kb' => ⟨fun hkb' => ?_, fun hkb' => ?_⟩) (fun kb' hkb' => ?_) fun b hb hne => ?_
    · exact absurd rfl (hkb'.toIsBuffer.owner_ne hvacant)
    · rw [hkb'.toIsBuffer.unique hkb]
    · obtain rfl := Option.some.inj hkb'
      exact hstaged
    · obtain rfl := Option.some.inj hkb'
      exact ⟨rfl, rfl⟩
    · exact absurd (List.mem_singleton.mp hb) hne

theorem on_writeBuffer {a : Address} {kb kb' : KeyBuffer} {chunk : Bytes} (hw : Stands P L w)
    (hP : P.Lawful) (hS : Sound P L) (h : Performs P c L (.writeBuffer a kb kb' chunk) L' log)
    (hs : L.SubjectAt P kb.didAccount s) :
    Stands P L' (w.stage s kb'.authority (some kb'.pending)) := by
  obtain ⟨hold, hkb', -, hfits, rfl⟩ := h.written
  have hnew : Staged P L' a (kb.append chunk hfits) := (h.sound hP hS).staged hkb'
  constructor
  · exact hw.documents_of_buffer h rfl (fun d hd => hd.toIsDid.not_isBuffer hold.toIsBuffer)
      fun d hd => hd.toIsDid.not_isBuffer hkb'
  · refine hw.uploads_of_buffer kb (some (kb.append chunk hfits)) hP hS h hs hold.found
      (fun kb₁ hkb₁ => ?_) (fun kb₁ => ⟨fun hkb₁ => ?_, fun hkb₁ => ?_⟩) (fun kb₁ hkb₁ => ?_)
      fun b hb hne => ?_
    · exact hkb₁.toIsBuffer.unique hold.toIsBuffer
    · rw [hkb₁.toIsBuffer.unique hkb']
    · obtain rfl := Option.some.inj hkb₁
      exact hnew
    · obtain rfl := Option.some.inj hkb₁
      exact ⟨rfl, rfl⟩
    · exact absurd (List.mem_singleton.mp hb) hne

theorem not_staged_of_empty {a : Address} (ha : L' a = ⟨0, [], systemProgram⟩) (kb : KeyBuffer) :
    ¬Staged P L' a kb := by
  intro hkb
  exact hkb.toIsBuffer.owner_ne (by rw [ha]) rfl

theorem on_finish {did a : Address} {d d' : Document} {kb : KeyBuffer} (hw : Stands P L w)
    (hP : P.Lawful) (hS : Sound P L) (h : Performs P c L (.finish did d d' a kb) L' log)
    (hs : L.SubjectAt P kb.didAccount s) :
    Stands P L' ((w.record d').stage s kb.authority none) := by
  obtain ⟨key, body, hamended⟩ := h.amended (Or.inr ⟨a, kb, rfl, rfl⟩)
  obtain ⟨now, -, hd'⟩ := hamended.updated
  obtain ⟨hkb, -, hempty⟩ := h.gone (Or.inl ⟨did, d, d', rfl⟩)
  constructor
  · refine hw.documents.replace hamended.after (fun d₀ hd₀ => ?_) fun b d₀ hb => ?_
    · rw [hd₀.toIsDid.unique hamended.before.toIsDid, hd']
      rfl
    · by_cases hbuffer : b = a
      · subst hbuffer
        refine iff_of_false (fun hd => ?_) fun hd => hd.toIsDid.not_isBuffer hkb.toIsBuffer
        exact hd.toIsDid.owner_ne (by rw [hempty]) rfl
      · exact h.registered_iff_of_untouched (by simp [Effect.touched, hb, hbuffer])
  · refine hw.uploads_of_buffer kb none hP hS h hs hkb.found
      (fun kb' hkb' => hkb'.toIsBuffer.unique hkb.toIsBuffer)
      (fun kb' => iff_of_false (not_staged_of_empty hempty kb') (Option.some_ne_none kb').symm)
      (fun kb' hkb' => absurd hkb' (Option.not_mem_none kb')) fun b hb hne => ?_
    rcases List.mem_pair.mp hb with rfl | rfl
    · exact ⟨d, hamended.before⟩
    · exact absurd rfl hne

theorem on_closeBuffer {a : Address} {kb : KeyBuffer} (hw : Stands P L w) (hP : P.Lawful)
    (hS : Sound P L) (h : Performs P c L (.closeBuffer a kb) L' log)
    (hs : L.SubjectAt P kb.didAccount s) : Stands P L' (w.stage s kb.authority none) := by
  obtain ⟨hkb, -, hempty⟩ := h.gone (Or.inr rfl)
  constructor
  · refine hw.documents_of_buffer h rfl (fun d hd => hd.toIsDid.not_isBuffer hkb.toIsBuffer)
      fun d hd => ?_
    exact hd.toIsDid.owner_ne (by rw [hempty]) rfl
  · refine hw.uploads_of_buffer kb none hP hS h hs hkb.found
      (fun kb' hkb' => hkb'.toIsBuffer.unique hkb.toIsBuffer)
      (fun kb' => iff_of_false (not_staged_of_empty hempty kb') (Option.some_ne_none kb').symm)
      (fun kb' hkb' => absurd hkb' (Option.not_mem_none kb')) fun b hb hne => ?_
    exact absurd (List.mem_singleton.mp hb) hne

/-- A step that is no effect changes nothing the registry holds. -/
theorem quiet (hw : Stands P L w) (hS : Sound P L) (hquiet : Quiet L L') : Stands P L' w := by
  have hS' : Sound P L' := hquiet.sound hS
  refine ⟨hw.documents.quiet hquiet, uploading_same hw.uploads (fun a s _ => ?_) fun a kb => ?_⟩
  · simp only [Ledger.SubjectAt, hquiet.registered_iff]
  · exact ⟨fun hkb => hS.staged (hquiet.isBuffer_iff.mp hkb.toIsBuffer),
      fun hkb => hS'.staged (hquiet.isBuffer_iff.mpr hkb.toIsBuffer)⟩

end Stands

end BioDidRegistry
