import BioDidRegistry.Properties.TypedAccounts
import BioDidRegistry.Registry.Reference

/-!
# In-place editing refines the model

The model keeps a document for every subject and edits its lists. The program moves
bytes inside accounts. `Uses` is the program at work for its clients, `World.Step` the
model, and both report the outcome of every request in their labels. Every run of the
program is a run of the model with the same outcomes, at the end of which each account
is the encoding of its document.
-/

namespace BioDidRegistry

open Transition

variable {P : Platform} {L L' L₀ : Ledger}

/-! ### The model -/

/-- The documents by their subjects. -/
abbrev World := Address → Option Document

instance (op : Op) : Decidable op.KnownType := by
  cases op <;> unfold Op.KnownType <;> infer_instance

/-- What the model does with a request: a method type it does not know is refused first,
then the rules decide. -/
def World.react (isCurvePoint : Bytes → Bool) (w : World) (r : Request) (d : Document)
    (now : Int64) : Except Fault Document :=
  if r.op.KnownType then
    match d.apply isCurvePoint r.authority (r.via.bind w) r.op now with
    | .ok d' => .ok d'
    | .error e => .error e.fault
  else .error (.program .invalidInstructionData)

/-- One thing that happens to the DIDs, with what was reported. -/
inductive Use
  | create (subject key : Address) (now : Int64)
  | accepted (r : Request) (now : Int64)
  | refused (r : Request) (e : Fault)
  | idle

/-- A step of the model. -/
inductive World.Step (P : Platform) : World → Use → World → Prop
  | create {w : World} {subject key : Address} {now : Int64} {a : Address} {bump : UInt8}
      (found : P.deriveProgramAddress [didSeed, subject.val] = some (a, bump))
      (unused : w subject = none) :
      World.Step P w (.create subject key now)
        (Function.update w subject (some (Document.initial bump subject key now)))
  | accepted {w : World} {r : Request} {now : Int64} {d d' : Document}
      (known : w r.subject = some d) (reacts : w.react P.isCurvePoint r d now = .ok d') :
      World.Step P w (.accepted r now) (Function.update w r.subject (some d'))
  | refused {w : World} {r : Request} {now : Int64} {d : Document} {e : Fault}
      (known : w r.subject = some d) (reacts : w.react P.isCurvePoint r d now = .error e) :
      World.Step P w (.refused r e) w
  | idle {w : World} : World.Step P w .idle w

/-! ### The program -/

def Ledger.HasSubject (P : Platform) (L : Ledger) (s : Address) : Prop :=
  ∃ a d, L.DidAt P a d ∧ d.subject = s

/-- The request comes from a client, for an existing DID and through no controller or that
of an existing DID, with arguments that can be encoded, a clock, and a payer who can
afford the length the document will take. -/
structure Request.Sent (P : Platform) (L : Ledger) (r : Request) (sv : Sysvars) (i : Instruction)
    (now : Int64) : Prop where
  built : r.instruction P = some i
  encodable : r.op.Encodable
  subject : L.HasSubject P r.subject
  via : ∀ s ∈ r.via, L.HasSubject P s
  clock : sv.clock = .ok now
  funds : ∀ a d body, L.DidAt P a d → d.subject = r.subject →
    d.body.apply P.isCurvePoint r.authority d.subject r.op = .ok body →
    d.body.encode.length ≠ body.encode.length →
    Affords P sv L r.payer a (offSections + body.encode.length)

/-- A step of the program: a DID is created, a request is answered, or something else
happens that leaves the accounts of the program alone. -/
inductive Uses (P : Platform) : Ledger → Use → Ledger → Prop
  | create {L L' : Ledger} {c : Call} {subject key : Address} {now : Int64} {log : List Bytes}
      (founds : c.Founds P subject key) (clock : c.sysvars.clock = .ok now)
      (done : invoke P c L = .ok (L', log)) : Uses P L (.create subject key now) L'
  | accepted {L L' : Ledger} {r : Request} {sv : Sysvars} {i : Instruction} {now : Int64}
      {log : List Bytes} (sent : r.Sent P L sv i now)
      (done : invoke P (i.call sv) L = .ok (L', log)) : Uses P L (.accepted r now) L'
  | refused {L : Ledger} {r : Request} {sv : Sysvars} {i : Instruction} {now : Int64} {e : Fault}
      (sent : r.Sent P L sv i now) (done : invoke P (i.call sv) L = .error e) :
      Uses P L (.refused r e) L
  | idle {L L' : Ledger} (h : Quiet L L') : Uses P L .idle L'

/-! ### The relation between them -/

/-- The world holds the documents of the ledger's DIDs and no others. -/
def Matches (P : Platform) (L : Ledger) (w : World) : Prop :=
  ∀ s d, w s = some d ↔ ∃ a, Registered P L a d ∧ d.subject = s

theorem Registered.address_unique {a b : Address} {d d' : Document} (hd : Registered P L a d)
    (hd' : Registered P L' b d') (h : d.subject = d'.subject) : a = b := by
  have hfound := hd.found
  rw [h, hd'.found] at hfound
  exact (congrArg Prod.fst (Option.some.inj hfound)).symm

namespace Matches

variable {w : World} {a : Address} {d d' : Document}

/-- One account becomes the DID of `d'`, and no other comes to be or ceases to be one. -/
theorem replace (h : Matches P L w) (hd' : Registered P L' a d')
    (hsame : ∀ d, Registered P L a d → d.subject = d'.subject)
    (hother : ∀ b d, b ≠ a → (Registered P L' b d ↔ Registered P L b d)) :
    Matches P L' (Function.update w d'.subject (some d')) := by
  intro s d
  by_cases hs : s = d'.subject
  · subst hs
    rw [Function.update_self]
    constructor
    · rintro ⟨⟩
      exact ⟨a, hd', rfl⟩
    · rintro ⟨b, hd, hsubject⟩
      obtain rfl := hd.address_unique hd' hsubject
      rw [hd.toIsDid.unique hd'.toIsDid]
  · rw [Function.update_of_ne hs, h s d]
    constructor
    · rintro ⟨b, hd, rfl⟩
      have hb : b ≠ a := by
        rintro rfl
        exact hs (hsame d hd)
      exact ⟨b, (hother b d hb).mpr hd, rfl⟩
    · rintro ⟨b, hd, rfl⟩
      have hb : b ≠ a := by
        rintro rfl
        exact hs (congrArg Document.subject (hd.toIsDid.unique hd'.toIsDid))
      exact ⟨b, (hother b d hb).mp hd, rfl⟩

theorem insert (h : Matches P L w) (hd' : Registered P L' a d')
    (hsame : ∀ d, Registered P L a d → d.subject = d'.subject)
    (hother : ∀ b, b ≠ a → (L' b).data = (L b).data ∧ (L' b).owner = (L b).owner) :
    Matches P L' (Function.update w d'.subject (some d')) := by
  have hother' (b : Address) (hb : b ≠ a) :
      (L b).data = (L' b).data ∧ (L b).owner = (L' b).owner :=
    ⟨(hother b hb).1.symm, (hother b hb).2.symm⟩
  exact h.replace hd' hsame fun b d hb =>
    ⟨fun hd => hd.of_same (hother' b hb), fun hd => hd.of_same (hother b hb)⟩

theorem congr (h : Matches P L w) (hsame : ∀ a d, Registered P L' a d ↔ Registered P L a d) :
    Matches P L' w := by
  intro s d
  simp only [h s d, hsame]

theorem quiet (h : Matches P L w) (hquiet : Quiet L L') : Matches P L' w :=
  h.congr fun _ _ => hquiet.registered_iff

theorem eq_some (h : Matches P L w) (hd : Registered P L a d) : w d.subject = some d :=
  (h _ _).mpr ⟨a, hd, rfl⟩

end Matches

/-! ### Creation -/

theorem Performs.creates {c : Call} {e : Effect} {log : List Bytes} {subject key : Address}
    {now : Int64} (h : Performs P c L e L' log) (hfounds : c.Founds P subject key)
    (hclock : c.sysvars.clock = .ok now) : ∃ a bump,
      e = .create a (Document.initial bump subject key now) := by
  cases h with
  | create founds pays target found vacant rent funds clock =>
    obtain ⟨rfl, rfl⟩ := founds.unique hfounds
    cases clock.symm.trans hclock
    exact ⟨_, _, rfl⟩
  | update ix args signed pays target isDid authorized applied clock settled =>
    rename_i op body now' L₁
    have hix := hfounds.ix_cases
    rw [ix] at hix
    cases op <;> simp [Op.ix] at hix
  | openBuffer ix | writeBuffer ix | finish ix | closeBuffer ix =>
    have hix := hfounds.ix_cases
    simp [ix] at hix

theorem Matches.create {w : World} {c : Call} {log : List Bytes} {subject key : Address}
    {now : Int64} (hP : P.Lawful) (hS : Sound P L) (hw : Matches P L w)
    (hfounds : c.Founds P subject key) (hclock : c.sysvars.clock = .ok now)
    (hc : invoke P c L = .ok (L', log)) :
    ∃ w', World.Step P w (.create subject key now) w' ∧ Sound P L' ∧ Matches P L' w' := by
  obtain ⟨e, h⟩ := exists_performs hP hS hc
  obtain ⟨a, bump, rfl⟩ := h.creates hfounds hclock
  obtain ⟨hvacant, hd, -⟩ := h.created hP
  have hunused : w subject = none := by
    by_contra hused
    obtain ⟨d, hd₀⟩ := Option.ne_none_iff_exists'.mp hused
    obtain ⟨b, hb, hsubject⟩ := (hw _ _).mp hd₀
    obtain rfl := hb.address_unique hd hsubject
    exact hb.toIsDid.owner_ne hvacant rfl
  refine ⟨_, .create hd.found hunused, h.sound hP hS,
    hw.insert hd (fun d₀ hd₀ => ?_) fun b hb => ?_⟩
  · exact absurd rfl (hd₀.toIsDid.owner_ne hvacant)
  · exact h.frame (mt List.mem_singleton.mp hb)

/-! ### Requests -/

section Request

variable {w : World} {r : Request} {sv : Sysvars} {i : Instruction} {now : Int64}

theorem Request.Sent.names (hS : Sound P L) (hw : Matches P L w) (h : r.Sent P L sv i now) :
    ∃ a d controller, Registered P L a d ∧ w r.subject = some d ∧
      r.Names P L i a d controller (r.via.bind w) := by
  have hregistered {s : Address} (hs : L.HasSubject P s) :
      ∃ a d, Registered P L a d ∧ d.subject = s := by
    obtain ⟨a, d, hd, rfl⟩ := hs
    obtain ⟨d₀, hd₀⟩ := hS.exists_registered hd.1
    have hsame : d = d₀ := Option.some.inj (hd.2.1.symm.trans hd₀.toIsDid.decode)
    exact ⟨a, d, hsame ▸ hd₀, rfl⟩
  have hclient {a : Address} {d : Document} (hd : Registered P L a d) :
      Client.didAccount P d.subject = some a := by
    rw [Client.didAccount, hd.found]
    rfl
  obtain ⟨a, d, hd, hsubject⟩ := hregistered h.subject
  have hvia : ∀ s ∈ r.via, (Client.didAccount P s).isSome = true := by
    intro s hs
    obtain ⟨b, p, hp, rfl⟩ := hregistered (h.via s hs)
    rw [hclient hp]
    rfl
  have hbuilt := h.built
  rw [Request.instruction_eq (hsubject ▸ hclient hd) hvia] at hbuilt
  refine ⟨a, d, r.viaView P, hd, hsubject ▸ hw.eq_some hd, ⟨(Option.some.inj hbuilt).symm,
    h.encodable, hd.toIsDid, hsubject, hd.wellFormed⟩, ?_⟩
  cases hcontroller : r.via with
  | none =>
    rw [Request.viaView, hcontroller]
    trivial
  | some s =>
    obtain ⟨b, p, hp, rfl⟩ := hregistered (h.via s hcontroller)
    rw [Request.viaView, hcontroller, Option.bind_some, Option.bind_some, hclient hp,
      hw.eq_some hp]
    exact hp.toIsDid

/-- The program answers a request as the model reacts to it. -/
theorem Request.Sent.answers (hP : P.Lawful) (hS : Sound P L) (hw : Matches P L w)
    (h : r.Sent P L sv i now) : ∃ a d, Registered P L a d ∧ w r.subject = some d ∧
      d.subject = r.subject ∧ (∀ e, w.react P.isCurvePoint r d now = .error e →
        invoke P (i.call sv) L = .error e) ∧
      ∀ d', w.react P.isCurvePoint r d now = .ok d' → ∃ L' log,
        invoke P (i.call sv) L = .ok (L', log) ∧ Registered P L' a d' ∧ d'.subject = d.subject ∧
          ∀ b, b ≠ a → (L' b).data = (L b).data ∧ (L' b).owner = (L b).owner := by
  obtain ⟨a, d, controller, hd, hworld, hnames⟩ := h.names hS hw
  refine ⟨a, d, hd, hworld, hnames.subject, fun e hreact => ?_, fun d' hreact => ?_⟩
  · unfold World.react at hreact
    split_ifs at hreact with hknown
    · split at hreact
      · cases hreact
      · rename_i e' hmodel
        cases hreact
        exact hnames.refused hP hknown (Document.refused_of_apply hmodel)
    · cases hreact
      exact hnames.unknown hknown
  · unfold World.react at hreact
    split_ifs at hreact with hknown
    split at hreact
    · rename_i d'' hmodel
      cases hreact
      simp only [Document.apply, except_bind_ok_iff, except_pure, Except.ok.injEq] at hmodel
      obtain ⟨_, hauth, body, happly, rfl⟩ := hmodel
      have hauthorized := Authorized.of_model hd.toIsDid hnames.named hauth
      obtain ⟨L₁, hsettled⟩ := hnames.exists_resettles happly
        (h.funds a d body hd.didAt hnames.subject happly) now
      refine ⟨_, _, hnames.accepted hP hknown hauthorized happly h.clock hsettled, ?_, rfl,
        fun b hb => ?_⟩
      · exact hd.of_updated hauthorized happly
          (by rw [Ledger.store_owner, hsettled.owner, hd.owner]) (Ledger.store_data ..)
      · rw [Ledger.store_of_ne _ _ hb]
        exact ⟨hsettled.data b, hsettled.owner b⟩
    · cases hreact

end Request

/-! ### Runs -/

/-- The ledger the program maintains, and the world it stands for. -/
def Refines (P : Platform) (L : Ledger) (w : World) : Prop :=
  Sound P L ∧ Matches P L w

/-- The model answers every step of the program in kind. -/
theorem Uses.refines {w : World} {use : Use} (hP : P.Lawful) (hR : Refines P L w)
    (h : Uses P L use L') : ∃ w', World.Step P w use w' ∧ Refines P L' w' := by
  obtain ⟨hS, hw⟩ := hR
  cases h with
  | create founds clock done => exact hw.create hP hS founds clock done
  | accepted sent done =>
    obtain ⟨a, d, hd, hknown, hsubject, hrefused, haccepted⟩ := sent.answers hP hS hw
    rename_i r sv i now log
    cases hreact : w.react P.isCurvePoint r d now with
    | error e => exact absurd (done.symm.trans (hrefused e hreact)) (by simp)
    | ok d' =>
      obtain ⟨L₁, log₁, hdone, hd', hsubject', hother⟩ := haccepted d' hreact
      cases done.symm.trans hdone
      obtain ⟨e, hperforms⟩ := exists_performs hP hS done
      refine ⟨_, .accepted hknown hreact, hperforms.sound hP hS, ?_⟩
      have hinsert := hw.insert hd' (fun d₀ hd₀ => ?_) hother
      · rwa [hsubject', hsubject] at hinsert
      · rw [hsubject', hd₀.toIsDid.unique hd.toIsDid]
  | refused sent done =>
    obtain ⟨a, d, hd, hknown, hsubject, hrefused, haccepted⟩ := sent.answers hP hS hw
    rename_i r sv i now e
    cases hreact : w.react P.isCurvePoint r d now with
    | error e' =>
      cases done.symm.trans (hrefused e' hreact)
      exact ⟨w, .refused hknown hreact, hS, hw⟩
    | ok d' =>
      obtain ⟨L₁, log₁, hdone, -⟩ := haccepted d' hreact
      exact absurd (done.symm.trans hdone) (by simp)
  | idle h => exact ⟨w, .idle, h.sound hS, hw.quiet h⟩

theorem Fresh.refines (h₀ : Fresh L₀) : Refines P L₀ fun _ => none := by
  refine ⟨h₀.sound, fun s d => ⟨nofun, ?_⟩⟩
  rintro ⟨a, hd, -⟩
  exact absurd hd.owner (h₀ a)

/-- Every run of the program is a run of the model with the same outcomes, and leaves in
the accounts the encodings of the model's documents. -/
theorem editing_refines_the_model {uses : List Use} (hP : P.Lawful) (h₀ : Fresh L₀)
    (hrun : Run (Uses P) L₀ uses L) :
    ∃ w, Run (World.Step P) (fun _ => none) uses w ∧ ∀ s d,
      w s = some d ↔ ∃ a, L.DidAt P a d ∧ (L a).data = d.encode ∧ d.subject = s := by
  obtain ⟨w, hmodel, hS, hw⟩ : ∃ w, Run (World.Step P) (fun _ => none) uses w ∧ Refines P L w :=
    hrun.simulation (fun _ _ _ _ hR hstep => hstep.refines hP hR) h₀.refines
  refine ⟨w, hmodel, fun s d => (hw s d).trans ?_⟩
  constructor
  · rintro ⟨a, hd, hsubject⟩
    exact ⟨a, hd.didAt, hd.data_eq, hsubject⟩
  · rintro ⟨a, hd, -, hsubject⟩
    obtain ⟨d₀, hd₀⟩ := hS.exists_registered hd.1
    have hsame : d = d₀ := Option.some.inj (hd.2.1.symm.trans hd₀.toIsDid.decode)
    exact ⟨a, hsame ▸ hd₀, hsubject⟩

def Sample.addition : Request where
  payer := payer
  authority := subject
  subject := subject
  via := none
  op := .addService ⟨[115], [116], [117]⟩

theorem Sample.addition_sent (i : Instruction) (hi : addition.instruction platform = some i) :
    addition.Sent platform (after platform creation ledger) sysvars i 1700000000 where
  built := hi
  encodable := ⟨⟨by decide, by decide⟩, ⟨by decide, by decide⟩, ⟨by decide, by decide⟩⟩
  subject := ⟨did, document, by decide +kernel, rfl⟩
  via := by simp [addition]
  clock := rfl
  funds := by
    intro a d body hd hsubject happly hlen
    have hdid : (after platform creation ledger).DidAt platform did document := by decide +kernel
    have ha : did = a := by
      have hfound := hd.2.2.2
      rw [hsubject] at hfound
      exact congrArg Prod.fst (Option.some.inj hfound)
    subst ha
    obtain rfl : document = d := Option.some.inj (hdid.2.1.symm.trans hd.2.1)
    obtain rfl : { document.body with services := [⟨[115], [116], [117]⟩] } = body :=
      Except.ok.inj (Eq.trans (by decide +kernel) happly)
    exact ⟨⟨(128 + 139) * 6960, by decide +kernel, by decide +kernel⟩, by decide +kernel,
      by decide +kernel, by decide +kernel⟩

/-- A DID is created and given a service. -/
theorem editing_refines_the_model_sample :
    ∃ uses L w, Run (Uses Sample.platform) Sample.ledger uses L ∧ uses.length = 2 ∧
      Run (World.Step Sample.platform) (fun _ => none) uses w := by
  obtain ⟨log, hcreated⟩ := invoke_after (P := Sample.platform) (L := Sample.ledger)
    (c := Sample.creation) (by decide +kernel)
  have hfounds : Sample.creation.Founds Sample.platform Sample.subject Sample.subject :=
    Or.inl ⟨by decide, by decide, rfl, by decide⟩
  let i := (Sample.addition.instruction Sample.platform).getD (Instruction.new .addService [])
  have hi : Sample.addition.instruction Sample.platform = some i := by decide
  obtain ⟨log', hadded⟩ := invoke_after (P := Sample.platform) (c := i.call Sample.sysvars)
    (L := after Sample.platform Sample.creation Sample.ledger) (by decide +kernel)
  have hcreation : Run (Uses Sample.platform) Sample.ledger ([] ++ [_]) _ :=
    Run.start.snoc (.create hfounds rfl hcreated)
  have hrun := hcreation.snoc (.accepted (Sample.addition_sent i hi) hadded)
  obtain ⟨w, hw, -⟩ := editing_refines_the_model Sample.platform_lawful Sample.ledger_fresh hrun
  exact ⟨_, _, w, hrun, rfl, hw⟩

end BioDidRegistry
