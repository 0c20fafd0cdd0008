import BioDidRegistry.Document.Decode
import BioDidRegistry.Document.Edits
import BioDidRegistry.Document.Parsing
import BioDidRegistry.Document.WellFormed
import BioDidRegistry.Program.Client
import BioDidRegistry.Program.Faults

/-!
# The arguments of an update

Each update has one encoding of its arguments, and each handler's parser accepts
exactly the encodings of its own update. So what a handler was asked to do can be
read off its argument bytes, and any well-formed request is understood.
-/

namespace BioDidRegistry

open BinaryFormat Cursor Outcome

namespace Reader

variable {s : Source} {α γ : Type}

theorem finish_run {r : Reader s} (h : r.rest = []) : finish r = .ok () r :=
  finish_ok_iff.mpr ⟨h, rfl⟩

theorem eval_finish_ok_iff {data : Bytes} {u : Unit} :
    eval finish (new s data) = .ok u ↔ data = [] := by
  simp only [eval_ok_iff, finish_ok_iff, exists_and_left, exists_eq, and_true, rest_new]

theorem pos_of_rest_nil {r : Reader s} (h : r.rest = []) : r.pos = r.len := by
  simp [pos, h]

theorem liftM_bind (x : Except Fault α) (f : α → Except Fault γ) :
    (liftM (x >>= f) : Read s γ) = (liftM x >>= fun a => liftM (f a)) := by
  funext r
  cases x <;> rfl

/-- A parser that reads `a`, ends, and then decides without reading more. -/
theorem eval_whole_ok_iff {p : Read s α} {enc : α → Bytes} {ok : α → Prop} (h : Reads p enc ok)
    {x : α → Except Fault γ} {data : Bytes} {c : γ} :
    eval (p >>= fun a => finish >>= fun _ => liftM (x a)) (new s data) = .ok c ↔
      ∃ a, data = enc a ∧ ok a ∧ x a = .ok c := by
  simp only [eval_ok_iff, h.bind_ok_iff]
  constructor
  · rintro ⟨r', a, ⟨ha, hpre⟩, hrun⟩
    obtain ⟨_, r₁, hfinish, hx⟩ := bind_ok_iff.mp hrun
    obtain ⟨hrest, rfl⟩ := finish_ok_iff.mp hfinish
    refine ⟨a, ?_, ha, (lift_ok_iff.mp hx).1⟩
    calc data = enc a ++ data.drop (enc a).length := prefix_eq_append hpre
      _ = enc a := by
        rw [show data.drop (enc a).length = [] from hrest, List.append_nil]
  · rintro ⟨a, rfl, ha, hx⟩
    refine ⟨advance (enc a).length (new s (enc a)), a, ⟨ha, List.prefix_rfl⟩, ?_⟩
    rw [bind_of_ok (finish_run List.drop_length)]
    exact lift_ok_iff.mpr ⟨hx, rfl⟩

/-- What such a parser says of an encoding. -/
theorem eval_whole {p : Read s α} {enc : α → Bytes} {ok : α → Prop} (h : Reads p enc ok)
    (x : α → Except Fault γ) {a : α} (ha : ok a) :
    eval (p >>= fun a => finish >>= fun _ => liftM (x a)) (new s (enc a)) = x a := by
  have hrun : (p >>= fun a => finish >>= fun _ => liftM (x a)) (new s (enc a)) =
      (liftM (x a) : Read s γ) (advance (enc a).length (new s (enc a))) := by
    rw [h.bind_run ha List.prefix_rfl, bind_of_ok (finish_run List.drop_length)]
  unfold eval
  rw [hrun]
  cases x a <;> rfl

/-- A borsh `String` argument. -/
def IsStr (bs : Bytes) : Prop := bs.length < 2 ^ 32 ∧ validUtf8 bs = true

instance (bs : Bytes) : Decidable (IsStr bs) := inferInstanceAs (Decidable (_ ∧ _))

end Reader

/-- A fragment is ASCII. -/
theorem validUtf8_of_ascii {bs : Bytes} (h : ∀ b ∈ bs, b < 0x80) : validUtf8 bs = true := by
  induction bs with
  | nil => rfl
  | cons b rest ih =>
    obtain ⟨hb, hrest⟩ := List.forall_mem_cons.mp h
    unfold validUtf8
    rw [if_pos hb]
    exact ih hrest

theorem IsFragment.isStr {fragment : Bytes} (h : IsFragment fragment) : Reader.IsStr fragment := by
  obtain ⟨⟨-, hlen⟩, hchars⟩ := h
  refine ⟨by omega, validUtf8_of_ascii fun b hb => ?_⟩
  have hchar := hchars b hb
  simp only [UInt8.le_iff_toNat_le, ← UInt8.toNat_inj, UInt8.lt_iff_toNat_lt] at hchar ⊢
  simp only [UInt8.reduceToNat] at hchar ⊢
  omega

open Reader

namespace Op

def ix : Op → Ix
  | addVm _ => .addVerificationMethod
  | removeVm _ => .removeVerificationMethod
  | setFlags _ _ => .setVerificationMethodFlags
  | addService _ => .addService
  | updateService _ => .updateService
  | removeService _ => .removeService
  | setControllers _ _ => .setControllers
  | deactivate => .deactivate

def args : Op → Bytes
  | addVm m => m.encode
  | removeVm fragment => lenPrefix fragment
  | setFlags fragment flags => lenPrefix fragment ++ u16Bytes flags
  | addService svc => svc.encode
  | updateService svc => svc.encode
  | removeService fragment => lenPrefix fragment
  | setControllers natives others => vec Subtype.val natives ++ vec lenPrefix others
  | deactivate => []

end Op

/-- The texts of a service are strings. -/
def Service.IsText (svc : Service) : Prop :=
  IsStr svc.fragment ∧ IsStr svc.serviceType ∧ IsStr svc.endpoint

/-- The arguments have borsh encodings: texts are strings, and lengths are `u32`. -/
def Op.Encodable : Op → Prop
  | addVm m => IsStr m.fragment ∧ m.key.length < 2 ^ 32
  | removeVm fragment => IsStr fragment
  | setFlags fragment _ => IsStr fragment
  | addService svc => svc.IsText
  | updateService svc => svc.IsText
  | removeService fragment => IsStr fragment
  | setControllers natives others =>
    natives.length < 2 ^ 32 ∧ others.length < 2 ^ 32 ∧ ∀ o ∈ others, IsStr o
  | deactivate => True

/-- The method type of a new method is one the program knows. -/
def Op.KnownType : Op → Prop
  | addVm m => (expectedKeyLen m.methodType).isSome = true
  | _ => True

theorem Service.IsText.fits {svc : Service} (h : svc.IsText) : svc.Fits :=
  ⟨h.1.1, h.2.1.1, h.2.2.1⟩

/-! ### The parsers are exact -/

namespace AddVerificationMethod

def readMethod : Read .args Method := do
  let fragment ← str
  let methodType ← u8
  let flags ← u16
  let key ← lenPrefixed
  pure ⟨fragment, methodType, flags, key⟩

theorem readMethod_reads : Reads readMethod Method.encode fun m => (Op.addVm m).Encodable := by
  intro r m r'
  simp only [readMethod, str_reads.bind_ok_iff, u8_reads.bind_ok_iff, u16_reads.bind_ok_iff,
    lenPrefixed_reads.bind_ok_iff, pure_ok_iff, Method.encode, u16Bytes, append_prefix_iff,
    cursor_rest, rest_skip, true_and, advance_advance, List.length_append]
  constructor
  · rintro ⟨fragment, ⟨hf, hpf⟩, t, ht, flags, hfl, key, ⟨hk, hpk⟩, rfl, rfl⟩
    exact ⟨⟨hf, hk⟩, ⟨⟨⟨hpf, ht⟩, hfl⟩, hpk⟩, rfl⟩
  · rintro ⟨⟨hf, hk⟩, ⟨⟨⟨hpf, ht⟩, hfl⟩, hpk⟩, rfl⟩
    exact ⟨_, ⟨hf, hpf⟩, _, ht, _, hfl, _, ⟨hk, hpk⟩, rfl, rfl⟩

theorem parse_eq : parse = (readMethod >>= fun m => finish >>= fun _ =>
    liftM (ensure (expectedKeyLen m.methodType).isSome .invalidInstructionData >>= fun _ =>
      Except.ok (m.toNew, m.key))) := by
  simp only [parse, readMethod, bind_assoc, pure_bind, liftM_bind, Method.toNew]
  rfl

theorem parse_ok_iff {args : Bytes} {a : NewMethod × Bytes} :
    eval parse (new .args args) = .ok a ↔ ∃ m : Method, args = (Op.addVm m).args ∧
      (Op.addVm m).Encodable ∧ (Op.addVm m).KnownType ∧ a = (m.toNew, m.key) := by
  rw [parse_eq, eval_whole_ok_iff readMethod_reads]
  simp only [except_bind_ok_iff, ensure_eq_ok, Except.ok.injEq, exists_const, Op.args,
    Op.KnownType, eq_comm (a := a)]

theorem parse_unknown {m : Method} (hm : (Op.addVm m).Encodable) (h : ¬(Op.addVm m).KnownType) :
    eval parse (new .args (Op.addVm m).args) = .error (.program .invalidInstructionData) := by
  have hsome : (expectedKeyLen m.methodType).isSome = false := by simpa [Op.KnownType] using h
  rw [parse_eq, Op.args, eval_whole readMethod_reads _ hm, hsome]
  rfl

end AddVerificationMethod

theorem parseFragment_ok_iff {args fragment : Bytes} :
    eval parseFragment (new .args args) = .ok fragment ↔
      args = lenPrefix fragment ∧ IsStr fragment := by
  have hparse : parseFragment = (str >>= fun fragment => finish >>= fun _ =>
      liftM (Except.ok fragment : Except Fault Bytes)) := rfl
  rw [hparse, eval_whole_ok_iff str_reads]
  constructor
  · rintro ⟨_, hargs, hok, hc⟩
    cases hc
    exact ⟨hargs, hok⟩
  · rintro ⟨hargs, hok⟩
    exact ⟨fragment, hargs, hok, rfl⟩

namespace SetVerificationMethodFlags

def readFlags : Read .args (Bytes × UInt16) := do
  let fragment ← str
  let flags ← u16
  pure (fragment, flags)

theorem readFlags_reads : Reads readFlags (fun a => (Op.setFlags a.1 a.2).args)
    fun a => (Op.setFlags a.1 a.2).Encodable := by
  intro r a r'
  simp only [readFlags, str_reads.bind_ok_iff, u16_reads.bind_ok_iff, pure_ok_iff, Op.args,
    u16Bytes, append_prefix_iff, cursor_rest, rest_skip, true_and, advance_advance,
    List.length_append]
  constructor
  · rintro ⟨fragment, ⟨hf, hpf⟩, flags, hfl, rfl, rfl⟩
    exact ⟨hf, ⟨hpf, hfl⟩, rfl⟩
  · rintro ⟨hf, ⟨hpf, hfl⟩, rfl⟩
    exact ⟨_, ⟨hf, hpf⟩, _, hfl, rfl, rfl⟩

theorem parse_ok_iff {args : Bytes} {a : Bytes × UInt16} :
    eval parse (new .args args) = .ok a ↔
      args = (Op.setFlags a.1 a.2).args ∧ (Op.setFlags a.1 a.2).Encodable := by
  have hparse : parse = (readFlags >>= fun a => finish >>= fun _ =>
      liftM (Except.ok a : Except Fault (Bytes × UInt16))) := by
    simp only [parse, readFlags, bind_assoc, pure_bind]
    rfl
  rw [hparse, eval_whole_ok_iff readFlags_reads]
  constructor
  · rintro ⟨_, hargs, hok, hc⟩
    cases hc
    exact ⟨hargs, hok⟩
  · rintro ⟨hargs, hok⟩
    exact ⟨a, hargs, hok, rfl⟩

end SetVerificationMethodFlags

/-! ### Services -/

def Service.toArgs (svc : Service) : ServiceArgs :=
  ⟨svc.fragment, svc.serviceType, svc.endpoint⟩

def readService : Read .args Service := do
  let fragment ← str
  let serviceType ← str
  let endpoint ← str
  pure ⟨fragment, serviceType, endpoint⟩

theorem readService_reads : Reads readService Service.encode Service.IsText := by
  intro r svc r'
  simp only [readService, str_reads.bind_ok_iff, pure_ok_iff, Service.encode, append_prefix_iff,
    cursor_rest, rest_skip, advance_advance, List.length_append]
  constructor
  · rintro ⟨f, ⟨hf, hpf⟩, t, ⟨ht, hpt⟩, e, ⟨he, hpe⟩, rfl, rfl⟩
    exact ⟨⟨hf, ht, he⟩, ⟨⟨hpf, hpt⟩, hpe⟩, rfl⟩
  · rintro ⟨⟨hf, ht, he⟩, ⟨⟨hpf, hpt⟩, hpe⟩, rfl⟩
    exact ⟨_, ⟨hf, hpf⟩, _, ⟨ht, hpt⟩, _, ⟨he, hpe⟩, rfl, rfl⟩

theorem parseService_ok_iff {args : Bytes} {a : ServiceArgs} :
    eval parseService (new .args args) = .ok a ↔
      ∃ svc : Service, args = svc.encode ∧ svc.IsText ∧ a = svc.toArgs := by
  have hparse : parseService = (readService >>= fun svc => finish >>= fun _ =>
      liftM (Except.ok svc.toArgs : Except Fault ServiceArgs)) := by
    simp only [parseService, readService, bind_assoc, pure_bind]
    rfl
  rw [hparse, eval_whole_ok_iff readService_reads]
  simp only [Except.ok.injEq, eq_comm (a := a)]

theorem AddService.parse_eq : AddService.parse = (readService >>= fun svc => finish >>= fun _ =>
    liftM (serviceSpace svc.fragment.length svc.serviceType.length svc.endpoint.length >>=
      fun entryLen => Except.ok (svc.toArgs, entryLen))) := by
  simp only [AddService.parse, parseService, readService, bind_assoc, pure_bind, liftM_bind]
  rfl

theorem AddService.parse_ok_iff {args : Bytes} {a : ServiceArgs × ℕ} :
    eval AddService.parse (new .args args) = .ok a ↔ ∃ svc : Service,
      args = svc.encode ∧ svc.IsText ∧ a = (svc.toArgs, svc.encode.length) := by
  rw [AddService.parse_eq, eval_whole_ok_iff readService_reads]
  constructor
  · rintro ⟨svc, hargs, htext, hc⟩
    rw [serviceSpace_eq htext.fits] at hc
    cases hc
    exact ⟨svc, hargs, htext, rfl⟩
  · rintro ⟨svc, hargs, htext, rfl⟩
    refine ⟨svc, hargs, htext, ?_⟩
    rw [serviceSpace_eq htext.fits]
    rfl

namespace SetControllers

variable {p : Read .args Bytes} {size : ℕ}

/-- Entries that fit end up in the slots from number `i` on. -/
theorem readSlots_fitting (p : Read .args Bytes) {n i : ℕ} {slots : List Bytes}
    (h : i + n ≤ slots.length) : readSlots p false n i slots =
      (collect p n >>= fun xs => pure (slots.take i ++ xs ++ slots.drop (i + n))) := by
  induction n generalizing i slots with
  | zero => simp [readSlots, collect]
  | succ n ih =>
    have hset (x : Bytes) : setSlot slots i x = .ok (slots.set i x) := if_pos (by omega)
    have hslots (x : Bytes) (xs : List Bytes) :
        (slots.set i x).take (i + 1) ++ xs ++ (slots.set i x).drop (i + 1 + n) =
          slots.take i ++ x :: xs ++ slots.drop (i + (n + 1)) := by
      have hi : i < slots.length := by omega
      rw [List.take_set, List.drop_set_of_lt (by omega), List.take_succ_eq_append_getElem hi,
        List.set_append_right _ _ (by simp [hi.le])]
      simp [hi.le, Nat.add_assoc, Nat.add_comm n 1]
    have hrest (x : Bytes) : (do
        let slots ← (liftM (setSlot slots i x) : Read .args (List Bytes))
        readSlots p false n (i + 1) slots) =
        (collect p n >>= fun xs => pure (slots.take i ++ x :: xs ++ slots.drop (i + (n + 1)))) := by
      rw [hset]
      refine (@ih (i + 1) (slots.set i x) (by rw [List.length_set]; omega)).trans ?_
      simp only [hslots]
    simp only [readSlots, collect, bind_assoc, pure_bind, Bool.false_eq_true, if_false, hrest]

/-- Entries that overflow are read and dropped. -/
theorem readSlots_overflow (p : Read .args Bytes) (n i : ℕ) (slots : List Bytes) :
    readSlots p true n i slots = (collect p n >>= fun _ => pure slots) := by
  induction n generalizing i with
  | zero => simp [readSlots, collect]
  | succ n ih => simp only [readSlots, collect, bind_assoc, pure_bind, if_true, ih]

/-- A count, and an array with that many entries in front. -/
def readArray (p : Read .args Bytes) (size : ℕ) : Read .args (ℕ × List Bytes) := do
  let count ← u32
  let slots ← readSlots p (size < count.toNat) count.toNat 0 (List.replicate size [])
  pure (count.toNat, slots)

theorem length_of_collect {n : ℕ} {r r' : Reader .args} {xs : List Bytes}
    (h : collect p n r = .ok xs r') : xs.length = n := by
  induction n generalizing r r' xs with
  | zero =>
    obtain ⟨rfl, -⟩ := pure_ok_iff.mp h
    rfl
  | succ n ih =>
    obtain ⟨x, r₁, -, hrest⟩ := bind_ok_iff.mp h
    obtain ⟨as, r₂, has, hpure⟩ := bind_ok_iff.mp hrest
    obtain ⟨rfl, -⟩ := pure_ok_iff.mp hpure
    rw [List.length_cons, ih has]

/-- The loop is that of a vector, whatever the count, and the slots are never overrun. -/
theorem readSlots_eq (p : Read .args Bytes) (size n : ℕ) :
    readSlots p (size < n) n 0 (List.replicate size []) =
      (collect p n >>= fun xs => pure (if n ≤ size then xs ++ List.replicate (size - n) []
        else List.replicate size [])) := by
  by_cases hfit : n ≤ size
  · have hno : decide (size < n) = false := by simpa using hfit
    rw [hno, readSlots_fitting p (by simpa using hfit)]
    simp [hfit]
  · have hover : decide (size < n) = true := by simpa using hfit
    rw [hover, readSlots_overflow]
    simp [hfit]

theorem readArray_ok_iff {r r' : Reader .args} {a : ℕ × List Bytes} :
    readArray p size r = .ok a r' ↔
      ∃ xs, vector p r = .ok xs r' ∧ a = (xs.length, filled size xs) := by
  unfold readArray vector
  simp only [readSlots_eq, bind_ok_iff, pure_ok_iff]
  constructor
  · intro ⟨count, r₁, hcount, slots, r₂, ⟨xs, r₃, hxs, hslots, hr₂⟩, ha, hr'⟩
    subst hslots hr₂ ha hr'
    have hlen := length_of_collect hxs
    exact ⟨xs, ⟨count, r₁, hcount, hxs⟩, by rw [filled, hlen]⟩
  · intro ⟨xs, ⟨count, r₁, hcount, hxs⟩, ha⟩
    have hlen := length_of_collect hxs
    exact ⟨count, r₁, hcount, _, r', ⟨xs, r', hxs, rfl, rfl⟩, by rw [ha, filled, hlen], rfl⟩

theorem readArray_bind_ok_iff {γ : Type} {enc : Bytes → Bytes} {ok : Bytes → Prop}
    (h : Reads p enc ok) {f : ℕ × List Bytes → Read .args γ} {r r' : Reader .args} {c : γ} :
    (readArray p size >>= f) r = .ok c r' ↔
      ∃ xs, ((xs.length < 2 ^ 32 ∧ ∀ x ∈ xs, ok x) ∧ vec enc xs <+: r.rest) ∧
        f (xs.length, filled size xs) (advance (vec enc xs).length r) = .ok c r' := by
  rw [bind_ok_iff]
  constructor
  · intro ⟨a, r₁, ha, hf⟩
    obtain ⟨xs, hxs, rfl⟩ := readArray_ok_iff.mp ha
    obtain ⟨hok, hpre, rfl⟩ := (vector_reads h r xs r₁).mp hxs
    exact ⟨xs, ⟨hok, hpre⟩, hf⟩
  · intro ⟨xs, ⟨hok, hpre⟩, hf⟩
    exact ⟨_, _, readArray_ok_iff.mpr ⟨xs, (vector_reads h).run hok hpre, rfl⟩, hf⟩

theorem exists_addresses {xs : List Bytes} (h : ∀ x ∈ xs, x.length = 32) :
    ∃ natives : List Address, xs = natives.map Subtype.val := by
  refine ⟨xs.pmap Subtype.mk h, ?_⟩
  rw [List.map_pmap]
  simp

theorem vec_addresses (natives : List Address) :
    vec id (natives.map Subtype.val) = vec Subtype.val natives := by
  simp [vec]

theorem parse_eq : parse = (readArray (Reader.bytes 32) maxNativeControllers >>= fun natives =>
    readArray str maxOtherControllers >>= fun others => offset >>= fun sectionsLen =>
      finish >>= fun _ => pure ⟨natives.1, natives.2, others.1, others.2, sectionsLen⟩) := by
  simp only [parse, readArray, bind_assoc, pure_bind]

/-- The two lists are copied into the account as they came, so their length is kept. -/
theorem parse_ok_iff {args : Bytes} {a : Args} : eval parse (new .args args) = .ok a ↔
    ∃ natives others, args = (Op.setControllers natives others).args ∧
      (Op.setControllers natives others).Encodable ∧ a = .ofLists natives others args.length := by
  rw [parse_eq]
  simp only [eval_ok_iff, readArray_bind_ok_iff (bytes_reads 32), readArray_bind_ok_iff str_reads,
    offset_bind, Op.args]
  constructor
  · intro ⟨_, xs, ⟨⟨hn, hlen⟩, hpn⟩, others, ⟨ho, hpo⟩, hrun⟩
    obtain ⟨natives, rfl⟩ := exists_addresses hlen
    rw [vec_addresses] at hpn hpo hrun
    rw [List.length_map] at hn
    obtain ⟨_, r₁, hfinish, hpure⟩ := bind_ok_iff.mp hrun
    obtain ⟨hrest, rfl⟩ := finish_ok_iff.mp hfinish
    obtain ⟨rfl, -⟩ := pure_ok_iff.mp hpure
    have hpre : vec Subtype.val natives ++ vec lenPrefix others <+: args :=
      append_prefix_iff.mpr ⟨hpn, hpo⟩
    have hargs : args = vec Subtype.val natives ++ vec lenPrefix others := by
      calc args = _ ++ args.drop _ := prefix_eq_append hpre
        _ = _ := by
          rw [List.length_append, ← List.drop_drop]
          simp only [rest_skip, rest_new] at hrest
          rw [hrest, List.append_nil]
    refine ⟨natives, others, hargs, ⟨hn, ho⟩, ?_⟩
    rw [pos_of_rest_nil hrest, List.length_map]
    rfl
  · intro ⟨natives, others, hargs, ⟨hn, ho⟩, ha⟩
    have hpre : vec Subtype.val natives ++ vec lenPrefix others <+: args :=
      hargs ▸ List.prefix_rfl
    obtain ⟨hpn, hpo⟩ := append_prefix_iff.mp hpre
    rw [← vec_addresses] at hpn hpo
    have hrest : (advance (vec lenPrefix others).length (advance
        (vec id (natives.map Subtype.val)).length (new .args args))).rest = [] := by
      rw [rest_skip, rest_skip, List.drop_drop, rest_new, hargs, vec_addresses,
        ← List.length_append, List.drop_length]
    refine ⟨advance (vec lenPrefix others).length (advance
      (vec id (natives.map Subtype.val)).length (new .args args)), natives.map Subtype.val,
      ⟨⟨by rwa [List.length_map], ?_⟩, hpn⟩, others, ⟨ho, hpo⟩, ?_⟩
    · intro x hx
      obtain ⟨key, -, rfl⟩ := List.mem_map.mp hx
      exact Block.length_eq key
    · rw [bind_of_ok (finish_run hrest), pure_ok_iff, pos_of_rest_nil hrest, List.length_map]
      exact ⟨ha, rfl⟩

end SetControllers

/-! ### Parsing never panics -/

theorem AddVerificationMethod.parse_safe : Safe AddVerificationMethod.parse :=
  .bind (by simp) fun _ => .bind (by simp) fun _ => .bind (by simp) fun _ =>
    .bind (by simp) fun _ => .bind (by simp) fun _ => .bind (.lift (by simp)) (by simp)

theorem parseFragment_safe : Safe parseFragment :=
  .bind (by simp) fun _ => .bind (by simp) (by simp)

theorem SetVerificationMethodFlags.parse_safe : Safe SetVerificationMethodFlags.parse :=
  .bind (by simp) fun _ => .bind (by simp) fun _ => .bind (by simp) (by simp)

theorem parseService_safe : Safe parseService :=
  .bind (by simp) fun _ => .bind (by simp) fun _ => .bind (by simp) fun _ =>
    .bind (by simp) (by simp)

/-- The lengths of three strings are far from overflowing the sum of the entry. -/
theorem AddService.parse_safe : Safe AddService.parse := by
  rw [AddService.parse_eq]
  intro r
  apply Fails.bind
  · exact Safe.bind (by simp) (fun _ => .bind (by simp) fun _ => .bind (by simp) (by simp)) r
  · intro svc r' hread
    obtain ⟨htext, -⟩ := (readService_reads r svc r').mp hread
    rw [serviceSpace_eq htext.fits]
    exact Safe.bind (by simp) (fun _ => .lift (.ok _)) r'

theorem SetControllers.readArray_safe {p : Read .args Bytes} (h : Safe p) (size : ℕ) :
    Safe (SetControllers.readArray p size) := by
  unfold SetControllers.readArray
  refine .bind (by simp) fun count => ?_
  rw [SetControllers.readSlots_eq]
  exact .bind (.bind (.collect h _) (by simp)) (by simp)

theorem SetControllers.parse_safe : Safe SetControllers.parse := by
  rw [SetControllers.parse_eq]
  refine .bind (SetControllers.readArray_safe (by simp) _) fun natives => ?_
  refine .bind (SetControllers.readArray_safe (by simp) _) fun others => ?_
  exact .bind (by simp) fun len => .bind (by simp) (by simp)

end BioDidRegistry
