import BioDidRegistry.Registry.Effects

/-!
# Requests

A request is an update as a client sends it, with the accounts in the order the
program reads them. The program understands every request on an existing DID: it
finds the instruction, its arguments and its accounts.
-/

namespace BioDidRegistry

open BinaryFormat Reader

/-- One update of a DID, on behalf of `authority`, with the registry account of `via`
appended when it is set. -/
structure Request where
  payer : Address
  authority : Address
  subject : Address
  via : Option Address
  op : Op

namespace Request

variable (P : Platform) (r : Request)

def base : Option Instruction :=
  match r.op with
  | .addVm m => Client.addVerificationMethod P r.payer r.authority r.subject m.fragment
      m.methodType m.flags m.key
  | .removeVm fragment =>
    Client.removeVerificationMethod P r.payer r.authority r.subject fragment
  | .setFlags fragment flags =>
    Client.setVerificationMethodFlags P r.authority r.subject fragment flags
  | .addService svc => Client.addService P r.payer r.authority r.subject svc.fragment
      svc.serviceType svc.endpoint
  | .updateService svc => Client.updateService P r.payer r.authority r.subject svc.fragment
      svc.serviceType svc.endpoint
  | .removeService fragment =>
    Client.removeService P r.payer r.authority r.subject fragment
  | .setControllers natives others =>
    Client.setControllers P r.payer r.authority r.subject natives others
  | .deactivate => Client.deactivate P r.payer r.authority r.subject

def instruction : Option Instruction := do
  let i ← r.base P
  match r.via with
  | none => pure i
  | some controller => Client.viaController P controller i

/-- The accounts of the instruction's own, when the DID's account is `did`. -/
def accounts (did : Address) : List AccountView :=
  match r.op with
  | .setFlags _ _ => [.readonly r.authority true, .writable did false]
  | _ => [.writable r.payer true, .readonly r.authority true, .writable did false,
      .readonly systemProgram false]

/-- The update as the program loads it. -/
def update (did : Address) (controller : Option AccountView) : Update where
  authority := .readonly r.authority true
  didAccount := .writable did false
  controller := controller
  subject := r.subject
  payer := match r.op with
    | .setFlags _ _ => .readonly r.authority true
    | _ => .writable r.payer true

variable {P r}

theorem foldl_raw {γ : Type} (f : γ → Bytes) (xs : List γ) (i : Instruction) :
    xs.foldl (fun i x => i.raw (f x)) i = i.raw (xs.flatMap f) := by
  induction xs generalizing i with
  | nil => simp [Instruction.raw]
  | cons x xs ih =>
    rw [List.foldl_cons, ih]
    simp [Instruction.raw]

theorem base_eq {did : Address} (hdid : Client.didAccount P r.subject = some did) :
    r.base P = some ⟨programId, r.accounts did, r.op.ix.discriminator ++ r.op.args⟩ := by
  have hupdate : Client.updateAccounts P r.payer r.authority r.subject = some
      [.writable r.payer true, .readonly r.authority true, .writable did false,
        .readonly systemProgram false] := by
    rw [Client.updateAccounts, hdid]
    rfl
  have hstr (i : Instruction) (bs : Bytes) : i.str bs = i.raw (lenPrefix bs) := by
    simp [Instruction.str, Instruction.bytes, Instruction.raw, lenPrefix, u32Bytes]
  have hbytes (i : Instruction) (bs : Bytes) : i.bytes bs = i.raw (lenPrefix bs) := hstr i bs
  obtain ⟨payer, authority, subject, via, op⟩ := r
  cases op with
  | setControllers natives others =>
    simp only [base, Client.setControllers, hupdate, Option.bind_eq_bind, Option.bind_some,
      hstr, foldl_raw]
    simp [Instruction.raw, Instruction.new, accounts, Op.args, Op.ix, vec]
  | setFlags fragment flags =>
    simp only [base, Client.setVerificationMethodFlags, hdid, Option.bind_eq_bind,
      Option.bind_some, hstr]
    simp [Instruction.raw, Instruction.new, accounts, Op.args, Op.ix]
  | addVm m =>
    simp only [base, Client.addVerificationMethod, hupdate, Option.bind_eq_bind,
      Option.bind_some, hstr, hbytes]
    simp [Instruction.raw, Instruction.new, accounts, Op.args, Op.ix, Method.encode]
  | removeVm fragment =>
    simp only [base, Client.removeVerificationMethod, hupdate, Option.bind_eq_bind,
      Option.bind_some, hstr]
    simp [Instruction.raw, Instruction.new, accounts, Op.args, Op.ix]
  | addService svc =>
    simp only [base, Client.addService, hupdate, Option.bind_eq_bind, Option.bind_some, hstr]
    simp [Instruction.raw, Instruction.new, accounts, Op.args, Op.ix, Service.encode]
  | updateService svc =>
    simp only [base, Client.updateService, hupdate, Option.bind_eq_bind, Option.bind_some, hstr]
    simp [Instruction.raw, Instruction.new, accounts, Op.args, Op.ix, Service.encode]
  | removeService fragment =>
    simp only [base, Client.removeService, hupdate, Option.bind_eq_bind, Option.bind_some, hstr]
    simp [Instruction.raw, Instruction.new, accounts, Op.args, Op.ix]
  | deactivate =>
    simp only [base, Client.deactivate, hupdate, Option.bind_eq_bind, Option.bind_some]
    simp [Instruction.new, accounts, Op.args, Op.ix]

def viaView (P : Platform) (r : Request) : Option AccountView :=
  r.via.bind fun s => (Client.didAccount P s).map fun a => .readonly a false

theorem instruction_eq {did : Address} (hdid : Client.didAccount P r.subject = some did)
    (hvia : ∀ s ∈ r.via, (Client.didAccount P s).isSome = true) :
    r.instruction P = some ⟨programId, r.accounts did ++ (r.viaView P).toList,
      r.op.ix.discriminator ++ r.op.args⟩ := by
  unfold instruction viaView
  rw [base_eq hdid]
  cases hcontroller : r.via with
  | none => simp
  | some s =>
    obtain ⟨a, ha⟩ := Option.isSome_iff_exists.mp (hvia s hcontroller)
    simp [Client.viaController, ha]

end Request

def Instruction.call (i : Instruction) (sv : Sysvars) : Call := ⟨i.accounts, i.data, sv⟩

theorem Call.ix_of_data {c : Call} {ix : Ix} {args : Bytes}
    (h : c.data = ix.discriminator ++ args) : c.ix = some ix ∧ c.args = args := by
  have hlen := ix.length_discriminator
  have htake : c.data.take 8 = ix.discriminator := by rw [h, ← hlen, List.take_left]
  have hshort : ¬c.data.length < 8 := by
    rw [h, List.length_append, hlen]
    omega
  refine ⟨?_, ?_⟩
  · rw [Call.ix, if_neg hshort, htake, Ix.ofDiscriminator_discriminator]
  · rw [Call.args, h, ← hlen, List.drop_left]

/-- An instruction whose data starts with a discriminator is the work of its handler. -/
theorem Instruction.invoke_eq {P : Platform} {sv : Sysvars} {L : Ledger} {i : Instruction} {ix : Ix}
    {args : Bytes} (h : i.data = ix.discriminator ++ args) :
    invoke P (i.call sv) L = outcome (handler P sv ix i.accounts args ⟨L, []⟩) := by
  obtain ⟨hix, hargs⟩ := Call.ix_of_data (c := i.call sv) h
  rw [BioDidRegistry.invoke_eq, hix, hargs]
  rfl

theorem Instruction.invoke_ok {P : Platform} {sv : Sysvars} {L L' : Ledger} {i : Instruction}
    {ix : Ix} {args : Bytes} {log : List Bytes} (h : i.data = ix.discriminator ++ args)
    (hrun : handler P sv ix i.accounts args ⟨L, []⟩ = .ok () ⟨L', log⟩) :
    invoke P (i.call sv) L = .ok (L', log) := by
  rw [Instruction.invoke_eq h, hrun, outcome]

theorem Instruction.invoke_error {P : Platform} {sv : Sysvars} {L : Ledger} {i : Instruction}
    {ix : Ix} {args : Bytes} {e : Fault} {m : Machine} (h : i.data = ix.discriminator ++ args)
    (hrun : handler P sv ix i.accounts args ⟨L, []⟩ = .error e m) :
    invoke P (i.call sv) L = .error e := by
  rw [Instruction.invoke_eq h, hrun, outcome]

/-! ### Updates -/

section Updates

variable {P : Platform} {L L' : Ledger} {c : Call} {op : Op} {u : Update} {d : Document}
  {log : List Bytes}

/-- A call that carries an update and whose accounts load is that update on them. -/
theorem Call.invoke_update (hix : c.ix = some op.ix) (hargs : c.args = op.args)
    (hload : op.ix.load P L c.accounts = .ok u) :
    invoke P c L = outcome (Op.run P c.sysvars u op.args op.ix ⟨L, []⟩) := by
  rw [BioDidRegistry.invoke_eq, hix, hargs]
  change outcome (handler P c.sysvars op.ix c.accounts op.args ⟨L, []⟩) = _
  rw [handler_update_eq op.isUpdate_ix]
  change outcome ((liftM (op.ix.load P L c.accounts) >>= fun u =>
    Op.run P c.sysvars u op.args op.ix) ⟨L, []⟩) = _
  rw [hload]
  rfl

/-- An authorized update goes through when the rules, the clock and the rent let it. -/
theorem Call.update_ok_iff (hP : P.Lawful) (hix : c.ix = some op.ix) (hargs : c.args = op.args)
    (hload : op.ix.load P L c.accounts = .ok u) (hop : op.Encodable) (hknown : op.KnownType)
    (hd : Registered P L u.didAccount.address d) (hsubject : u.subject = d.subject)
    (hauth : Authorized P L d u.authority.address u.controller) :
    invoke P c L = .ok (L', log) ↔ ∃ body now L₁,
      d.body.apply P.isCurvePoint u.authority.address d.subject op = .ok body ∧
      c.sysvars.clock = .ok now ∧
      Resettles P c.sysvars L u.didAccount u.payer d.encode.length
        (d.updated op body now).encode.length L₁ ∧
      L' = L₁.store u.didAccount.address (d.updated op body now).encode ∧
      log = [eventBytes op.event u.didAccount.address d.subject (saturatingSucc d.version)] := by
  have hrenders : Renders P c.sysvars u d op op.event ⟨L, []⟩
      (Op.run P c.sysvars u op.args op.ix) :=
    Op.run_renders hP hop hknown hd.toIsDid hd.wellFormed.length_lt hsubject
  have hrun : invoke P c L = .ok (L', log) ↔
      Op.run P c.sysvars u op.args op.ix ⟨L, []⟩ = .ok () ⟨L', log⟩ := by
    rw [Call.invoke_update hix hargs hload, outcome_ok_iff]
  rw [hrun, hrenders.ok_iff]
  constructor
  · rintro ⟨-, body, happly, v, m₁, ⟨now, L₁, hclock, hsettled, rfl, rfl⟩, hm⟩
    cases hm
    rw [hsubject]
    exact ⟨body, now, L₁, happly, hclock, hsettled, rfl, rfl⟩
  · rintro ⟨body, now, L₁, happly, hclock, hsettled, rfl, rfl⟩
    refine ⟨hauth, body, happly, _, _, ⟨now, L₁, hclock, hsettled, rfl, rfl⟩, ?_⟩
    rw [hsubject]
    rfl

end Updates

theorem Request.load_ok {P : Platform} {L : Ledger} {r : Request} {did : Address} {d : Document}
    (hd : IsDid P L did d) (hsubject : d.subject = r.subject) (rest : List AccountView) :
    r.op.ix.load P L (r.accounts did ++ rest) = .ok (r.update did rest.head?) := by
  have hload : loadDidAccount P L (.writable did false) = .ok r.subject := by
    rw [hd.loadDidAccount rfl, hsubject]
  have htry : Update.tryFrom P L (.writable r.payer true :: .readonly r.authority true ::
      .writable did false :: .readonly systemProgram false :: rest) =
      .ok ⟨⟨.readonly r.authority true, .writable did false, rest.head?, r.subject⟩,
        .writable r.payer true⟩ :=
    Update.tryFrom_ok_iff.mpr ⟨_, rest, rfl, rfl, rfl, rfl, rfl, rfl, hload, rfl⟩
  have htarget : SetVerificationMethodFlags.target P L (.readonly r.authority true ::
      .writable did false :: rest) =
      .ok ⟨.readonly r.authority true, .writable did false, rest.head?, r.subject⟩ :=
    SetVerificationMethodFlags.target_ok_iff.mpr ⟨rest, rfl, rfl, rfl, hload, rfl⟩
  obtain ⟨payer, authority, subject, via, op⟩ := r
  cases op with
  | setFlags fragment flags => exact except_bind_ok_iff.mpr ⟨_, htarget, rfl⟩
  | addVm | removeVm | addService | updateService | removeService | setControllers
  | deactivate => exact htry

/-! ### What the program answers -/

/-- The controller account of the request is that of `parent`, and there is none without
a controller. -/
theorem Authorized.of_model {P : Platform} {L : Ledger} {a signer : Address} {d : Document}
    {controller : Option AccountView} {parent : Option Document} (hd : IsDid P L a d)
    (hparent : NamedBy P L controller parent) (h : d.authorize signer parent = .ok ()) :
    Authorized P L d signer controller := by
  obtain ⟨v, -, hshows⟩ := hd.exists_view
  obtain ⟨u, hok, -⟩ := (h ▸ authorize_agrees hshows hparent).ok_of
  exact (authorize_ok_iff hshows).mp hok

namespace Request

variable {P : Platform} {sv : Sysvars} {L : Ledger} {r : Request} {did : Address} {d : Document}
  {controller : Option AccountView} {parent : Option Document} {i : Instruction}

/-- The instruction `i` is that of the request on the DID `d` at `did`, with `controller`
after its own accounts. -/
structure Asks (P : Platform) (L : Ledger) (r : Request) (i : Instruction) (did : Address)
    (d : Document) (controller : Option AccountView) : Prop where
  sent : i = ⟨programId, r.accounts did ++ controller.toList, r.op.ix.discriminator ++ r.op.args⟩
  encodable : r.op.Encodable
  isDid : IsDid P L did d
  subject : d.subject = r.subject
  wellFormed : d.WellFormed

/-- A request whose controller account is that of `parent`. -/
structure Names (P : Platform) (L : Ledger) (r : Request) (i : Instruction) (did : Address)
    (d : Document) (controller : Option AccountView) (parent : Option Document) : Prop
    extends Asks P L r i did d controller where
  named : NamedBy P L controller parent

namespace Asks

variable (h : Asks P L r i did d controller)

include h

/-- The rent can be settled when the payer affords the new length, or it is the old one. -/
theorem exists_resettles {body : Body}
    (happly : d.body.apply P.isCurvePoint r.authority d.subject r.op = .ok body)
    (hfunds : d.body.encode.length ≠ body.encode.length →
      Affords P sv L r.payer did (offSections + body.encode.length)) (now : Int64) :
    ∃ L₁, Resettles P sv L (.writable did false) (r.update did controller).payer
      d.encode.length (d.updated r.op body now).encode.length L₁ := by
  rw [Document.length_updated, Document.length_encode]
  by_cases hlen : d.body.encode.length = body.encode.length
  · exact ⟨L, Or.inl ⟨by rw [hlen], rfl⟩⟩
  · have hpayer : (r.update did controller).payer = .writable r.payer true := by
      obtain ⟨payer, authority, subject, via, op⟩ := r
      cases op with
      | setFlags fragment flags => exact absurd (Body.length_setFlags happly).symm hlen
      | addVm | removeVm | addService | updateService | removeService | setControllers
      | deactivate => rfl
    rw [hpayer]
    obtain ⟨L₁, hsettled⟩ : ∃ L₁, Settles P sv L (.writable did false) (.writable r.payer true)
      (offSections + body.encode.length) L₁ :=
      Affords.exists_settles (hfunds hlen) h.isDid.owner rfl rfl rfl
    exact ⟨L₁, Or.inr ⟨by omega, hsettled⟩⟩

theorem invoke_eq : invoke P (i.call sv) L =
    outcome (Op.run P sv (r.update did controller) r.op.args r.op.ix ⟨L, []⟩) := by
  have hload : r.op.ix.load P L i.accounts = .ok (r.update did controller) := by
    have hown := load_ok h.isDid h.subject controller.toList
    rw [Option.head?_toList] at hown
    rw [h.sent]
    exact hown
  obtain ⟨hix, hargs⟩ := Call.ix_of_data (c := i.call sv) (show i.data = _ by rw [h.sent])
  exact Call.invoke_update hix hargs hload

theorem unknown (hknown : ¬r.op.KnownType) :
    invoke P (i.call sv) L = .error (.program .invalidInstructionData) := by
  rw [h.invoke_eq]
  have hencodable := h.encodable
  cases hop : r.op with
  | addVm m =>
    rw [hop] at hencodable hknown
    have hrun : Op.run P sv (r.update did controller) (Op.addVm m).args (Op.addVm m).ix ⟨L, []⟩ =
        .error (.program .invalidInstructionData) ⟨L, []⟩ :=
      updateDocument_error (AddVerificationMethod.parse_unknown hencodable hknown)
    rw [hrun, outcome]
  | removeVm | setFlags | addService | updateService | removeService | setControllers
  | deactivate =>
    rw [hop] at hknown
    exact absurd trivial hknown

variable (hP : P.Lawful) (hknown : r.op.KnownType)

include hP hknown

theorem renders (sv : Sysvars) : Renders P sv (r.update did controller) d r.op r.op.event ⟨L, []⟩
    (Op.run P sv (r.update did controller) r.op.args r.op.ix) :=
  Op.run_renders hP h.encodable hknown h.isDid h.wellFormed.length_lt h.subject.symm

theorem accepted {body : Body} {now : Int64} {L₁ : Ledger}
    (hauth : Authorized P L d r.authority controller)
    (happly : d.body.apply P.isCurvePoint r.authority d.subject r.op = .ok body)
    (hclock : sv.clock = .ok now)
    (hsettled : Resettles P sv L (.writable did false) (r.update did controller).payer
      d.encode.length (d.updated r.op body now).encode.length L₁) :
    invoke P (i.call sv) L = .ok (L₁.store did (d.updated r.op body now).encode,
      [eventBytes r.op.event did r.subject (saturatingSucc d.version)]) := by
  have hrun := ((h.renders hP hknown sv).ok_iff _).mpr
    ⟨hauth, body, happly, _, _,
      ⟨now, L₁, hclock, hsettled, rfl, rfl⟩, rfl⟩
  rw [h.invoke_eq, hrun]
  rfl

end Asks

theorem Names.refused (h : Names P L r i did d controller parent) (hP : P.Lawful)
    (hknown : r.op.KnownType) {e : DidError} (hmodel : (do
      d.authorize r.authority parent
      d.body.apply P.isCurvePoint r.authority d.subject r.op) = .error e) :
    invoke P (i.call sv) L = .error e.fault := by
  have hrun := (h.renders hP hknown sv).refused parent e h.named hmodel
  rw [h.invoke_eq, hrun, outcome]

end Request

end BioDidRegistry
