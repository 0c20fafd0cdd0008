import BioDidRegistry.Document.Model
import BioDidRegistry.Document.View
import BioDidRegistry.Foundation.Verdict
import BioDidRegistry.Program.KeyBuffers

/-!
# The handlers' checks follow the rules

Each check of a handler, asked of a view, agrees with the rules of the model on
the lists the view shows: the same refusals in the same order, and on acceptance
the spans that the edit needs.
-/

namespace BioDidRegistry

open BinaryFormat Verdict

section Agreement

variable {α β : Type} {R : α → β → Prop}

/-- A demand of the program against the demand of the model it renders. -/
theorem agrees_require {c d : Bool} {e : DidError} {f : Unit → Except Fault α}
    {g : Unit → Except DidError β} (hcd : c = d)
    (h : c = true → Agrees DidError.fault R (f ()) (g ())) :
    Agrees DidError.fault R (require c e >>= f) (demand d e >>= g) := by
  subst hcd
  cases c with
  | true => exact h rfl
  | false => exact .error e

theorem agrees_require_last {c d : Bool} {e : DidError} (hcd : c = d) :
    Agrees DidError.fault (fun _ _ => True) (require c e) (demand d e) := by
  subst hcd
  cases c with
  | true => exact .ok trivial
  | false => exact .error e

theorem ite_require {c : Prop} [Decidable c] {d : Bool} {e : DidError}
    {f : Unit → Except Fault α} :
    (if c then require d e >>= f else f ()) = require (!decide c || d) e >>= f := by
  by_cases h : c <;> simp [h]

theorem ite_require_last {c : Prop} [Decidable c] {d : Bool} {e : DidError} :
    (if c then require d e else pure ()) = require (!decide c || d) e := by
  by_cases h : c <;> simp [h]

/-- What follows a demand may take it for granted. -/
theorem require_bind_congr {c : Bool} {e : DidError} {f g : Unit → Except Fault α}
    (h : c = true → f () = g ()) : (require c e >>= f) = require c e >>= g := by
  cases c with
  | true => exact h rfl
  | false => rfl

theorem require_require {c d : Bool} {e : DidError} :
    (require c e >>= fun _ => require d e) = require (c && d) e := by
  cases c <;> simp

end Agreement

theorem validateVmFlags_eq (methodType : UInt8) (flags : UInt16) :
    validateVmFlags methodType flags = require (flagsAllowed methodType flags) .invalidFlags := by
  unfold validateVmFlags
  simp only [ite_require_last, ite_require]
  simp only [require_require]
  congr 1
  simp only [flagsAllowed, Bool.decide_eq_true, Bool.and_assoc, bne, beq_eq_decide]

theorem checkServiceValues_eq (a : ServiceArgs) :
    checkServiceValues a = require (Service.valuesAllowed ⟨a.fragment, a.serviceType, a.endpoint⟩)
      .invalidServiceValue :=
  require_require

namespace SetControllers

/-- The scan refuses an entry that is not acceptable or was `seen`. -/
theorem checkEntries_eq {α : Type} [DecidableEq α] (ok : α → Bool) (seen xs : List α)
    (hseen : seen.Nodup) : checkEntries ok seen xs =
      require (xs.all ok && decide (seen ++ xs).Nodup) .invalidController := by
  induction xs generalizing seen with
  | nil => simp [checkEntries, hseen]
  | cons x xs ih =>
    rw [checkEntries]
    by_cases hx : x ∈ seen
    · have hdup : ¬(seen ++ x :: xs).Nodup := by
        intro h
        exact (List.nodup_append.mp h).2.2 x hx x (by simp) rfl
      cases ok x <;> simp [hx, hdup]
    · have hnodup : (seen ++ [x]).Nodup := by
        rw [List.nodup_append]
        refine ⟨hseen, List.nodup_singleton x, ?_⟩
        intro a ha b hb hab
        rw [List.mem_singleton.mp hb] at hab
        exact hx (hab ▸ ha)
      rw [ih _ hnodup]
      cases hok : ok x <;> simp [hx, hok]

theorem checkEntries_nil {α : Type} [DecidableEq α] (ok : α → Bool) (xs : List α) :
    checkEntries ok [] xs = require (entriesAllowed ok xs) .invalidController := by
  rw [checkEntries_eq ok [] xs List.nodup_nil]
  rfl

/-- An array of `size` slots with the entries in front, untouched when they overflow. -/
def filled (size : ℕ) (xs : List Bytes) : List Bytes :=
  if xs.length ≤ size then xs ++ List.replicate (size - xs.length) [] else List.replicate size []

/-- The arguments that carry the two lists in `len` bytes. -/
def Args.ofLists (natives : List Address) (others : List Bytes) (len : ℕ) : Args where
  nativeCount := natives.length
  natives := filled maxNativeControllers (natives.map Subtype.val)
  otherCount := others.length
  others := filled maxOtherControllers others
  sectionsLen := len

theorem firstSlots_filled {size : ℕ} {xs : List Bytes} (h : xs.length ≤ size) :
    firstSlots (filled size xs) xs.length = .ok xs := by
  unfold firstSlots filled
  rw [if_pos h, if_pos (by simp), List.take_left]

theorem entriesAllowed_map (subject : Address) (natives : List Address) :
    entriesAllowed (fun key => key != subject.val) (natives.map Subtype.val) =
      entriesAllowed (fun key => key != subject) natives := by
  have hne (key : Address) : (key.val != subject.val) = (key != subject) := by
    rw [Bool.eq_iff_iff, bne_iff_ne, bne_iff_ne, ne_eq, ne_eq, Subtype.val_inj]
  have hnodup : (natives.map Subtype.val).Nodup ↔ natives.Nodup :=
    List.nodup_map_iff Subtype.val_injective
  simp only [entriesAllowed, List.all_map, Function.comp_def, hne, hnodup]

theorem check_ofLists (subject : Address) (doc : DidView) (natives : List Address)
    (others : List Bytes) (len : ℕ) :
    check subject doc (.ofLists natives others len) = (do
      require (natives.length ≤ maxNativeControllers && others.length ≤ maxOtherControllers)
        .tooManyControllers
      require (entriesAllowed (fun key => key != subject) natives) .invalidController
      require (entriesAllowed validExternalController others) .invalidController
      pure ⟨doc.sections.endPos, doc.sections.vmCountPos⟩) := by
  unfold check
  have hcounts : (!decide (maxNativeControllers < natives.length) &&
      !decide (maxOtherControllers < others.length)) =
        (decide (natives.length ≤ maxNativeControllers) &&
          decide (others.length ≤ maxOtherControllers)) := by
    simp only [← decide_not, not_lt]
  rw [← hcounts]
  refine require_bind_congr fun hfit => ?_
  have hsize : natives.length ≤ maxNativeControllers ∧ others.length ≤ maxOtherControllers := by
    simpa [Args.ofLists] using hfit
  simp only [Args.ofLists]
  have hnatives : firstSlots (filled maxNativeControllers (natives.map Subtype.val))
      natives.length = .ok (natives.map Subtype.val) := by
    have hmap := @firstSlots_filled maxNativeControllers (natives.map Subtype.val)
      (by simpa using hsize.1)
    rwa [List.length_map] at hmap
  rw [hnatives, except_bind_ok, checkEntries_nil, entriesAllowed_map]
  rw [firstSlots_filled hsize.2, except_bind_ok, checkEntries_nil]

end SetControllers

namespace DidView.Shows

variable {v : DidView} {head : Bytes} {b : Body} (h : v.Shows head b)

include h

theorem isSome_findVm (fragment : Bytes) :
    (v.findVm fragment).isSome = b.methods.any fun m => m.fragment == fragment := by
  rw [h.findVm_eq, Option.isSome_map, Bool.eq_iff_iff, Option.isSome_iff_exists, List.any_eq_true]
  simp only [List.getElem?_eq_some_iff]
  constructor
  · rintro ⟨m, hlt, rfl⟩
    exact ⟨_, List.getElem_mem hlt,
      @List.findIdx_getElem _ (fun m : Method => m.fragment == fragment) _ hlt⟩
  · rintro ⟨m, hm, hf⟩
    exact ⟨_, List.findIdx_lt_length_of_exists ⟨m, hm, hf⟩, rfl⟩

theorem isSome_findService (fragment : Bytes) :
    (v.findService fragment).isSome = b.services.any fun svc => svc.fragment == fragment := by
  rw [h.findService_eq, Option.isSome_map, Bool.eq_iff_iff, Option.isSome_iff_exists,
    List.any_eq_true]
  simp only [List.getElem?_eq_some_iff]
  constructor
  · rintro ⟨svc, hlt, rfl⟩
    exact ⟨_, List.getElem_mem hlt,
      @List.findIdx_getElem _ (fun svc : Service => svc.fragment == fragment) _ hlt⟩
  · rintro ⟨m, hm, hf⟩
    exact ⟨_, List.findIdx_lt_length_of_exists ⟨m, hm, hf⟩, rfl⟩

theorem requireFragmentFree_eq (fragment : Bytes) : v.requireFragmentFree fragment =
    (require (!b.taken fragment) .fragmentAlreadyInUse >>= fun _ =>
      require (fragment != defaultFragment) .invalidFragment) := by
  rw [requireFragmentFree, h.isSome_findVm, h.isSome_findService]
  rfl

theorem checkNewMethod_agrees (m : NewMethod) :
    Agrees DidError.fault (fun _ _ => True) (v.checkNewMethod m) (b.admits m) := by
  unfold checkNewMethod Body.admits
  rw [h.requireFragmentFree_eq, h.sections_eq, validateVmFlags_eq, bind_assoc]
  refine agrees_require rfl fun _ => ?_
  refine agrees_require rfl fun _ => ?_
  refine agrees_require rfl fun _ => ?_
  refine agrees_require rfl fun _ => ?_
  refine agrees_require rfl fun _ => ?_
  exact agrees_require_last rfl

end DidView.Shows

theorem checkNewKey_agrees (isCurvePoint : Bytes → Bool) (signer : Address) (m : Method) :
    Agrees DidError.fault (fun _ _ => True) (checkNewKey isCurvePoint m.toNew m.key signer)
      (Body.admitsKey isCurvePoint signer m) := by
  have hkey : (if m.toNew.methodType = vmTypeEd25519 then
        require (m.key == signer.val || isCurvePoint m.key) .invalidKey
      else if m.toNew.methodType = vmTypeSecp256k1 then
        require (m.key.head? == some 0x02 || m.key.head? == some 0x03) .invalidKey
      else .ok ()) = require (m.keyAllowed isCurvePoint signer) .invalidKey := by
    change (if m.methodType = vmTypeEd25519 then _ else if m.methodType = vmTypeSecp256k1 then _
      else _) = _
    unfold Method.keyAllowed
    split_ifs with hed hsecp
    · simp [hed, vmTypeEd25519, vmTypeSecp256k1]
    · simp [hsecp, vmTypeEd25519, vmTypeSecp256k1]
    · rw [bne_iff_ne.mpr hed, bne_iff_ne.mpr hsecp]
      rfl
  unfold checkNewKey Body.admitsKey
  simp only [ite_require, hkey, Bool.decide_eq_true]
  refine agrees_require rfl fun _ => ?_
  exact agrees_require_last rfl

/-! ### The plans -/

namespace Body

/-- Where the method after `before` begins. -/
def methodStart (b : Body) (before : List Method) : ℕ :=
  b.sections.vmItems + (before.flatMap Method.encode).length

/-- Where the service after `before` begins. -/
def serviceStart (b : Body) (before : List Service) : ℕ :=
  b.sections.svcItems + (before.flatMap Service.encode).length

/-- The plan of a removed method, and the lists it leaves. -/
def CutsMethod (b : Body) (r : Removal) (b' : Body) : Prop :=
  ∃ before m after, b.methods = before ++ m :: after ∧
    b' = { b with methods := before ++ after } ∧
    r = ⟨b.methodStart before, b.methodStart before + m.encode.length, b.sections.endPos,
      b.sections.vmCountPos, b.methods.length⟩

/-- The plan of a removed service, and the lists it leaves. -/
def CutsService (b : Body) (r : Removal) (b' : Body) : Prop :=
  ∃ before svc after, b.services = before ++ svc :: after ∧
    b' = { b with services := before ++ after } ∧
    r = ⟨b.serviceStart before, b.serviceStart before + svc.encode.length, b.sections.endPos,
      b.sections.svcCountPos, b.services.length⟩

/-- The place of changed flags, and the lists with them. -/
def PatchesFlags (b : Body) (flags : UInt16) (pos : ℕ) (b' : Body) : Prop :=
  ∃ before m after, b.methods = before ++ m :: after ∧
    b' = { b with methods := before ++ { m with flags } :: after } ∧
    pos = b.methodStart before + 5 + m.fragment.length

/-- The plan of a replaced service, and the lists with the new one. -/
def ReplacesService (b : Body) (svc : Service) (r : UpdateService.Replacement) (b' : Body) :
    Prop :=
  ∃ before old after, b.services = before ++ old :: after ∧
    b' = { b with services := before ++ svc :: after } ∧
    r = ⟨b.serviceStart before, b.serviceStart before + old.encode.length, b.sections.endPos⟩

end Body

section Handlers

variable {v : DidView} {head : Bytes} {b : Body} (h : v.Shows head b) (P : Platform)

include h

theorem addVerificationMethod_agrees (u : Update) (m : Method) :
    Agrees DidError.fault
      (fun s b' => s = b.sections ∧ b' = { b with methods := b.methods ++ [m] })
      (AddVerificationMethod.check P u v (m.toNew, m.key))
      (b.addVm P.isCurvePoint u.authority.address m) := by
  refine (h.checkNewMethod_agrees m.toNew).bind fun _ _ _ => ?_
  refine (checkNewKey_agrees _ _ m).bind fun _ _ _ => ?_
  exact .ok ⟨h.sections_eq, rfl⟩

theorem removeVerificationMethod_agrees (u : Update) (fragment : Bytes) :
    Agrees DidError.fault b.CutsMethod (RemoveVerificationMethod.check u v fragment)
      (b.removeVm u.authority.address fragment) := by
  unfold RemoveVerificationMethod.check Body.removeVm
  rw [h.authorityCount_eq, h.sections_eq]
  have hfind := h.findVm_eq fragment
  cases hm : b.methods[b.methodIdx fragment]? with
  | none =>
    rw [hfind.trans (congrArg _ hm)]
    exact .error _
  | some m =>
    obtain ⟨before, after, hsplit, htake, herase, -⟩ := exists_split hm
    rw [hfind.trans (congrArg _ hm)]
    simp only [Option.map_some, ite_require, Bool.decide_eq_true]
    refine agrees_require rfl fun _ => ?_
    refine agrees_require rfl fun _ => ?_
    refine .ok ⟨before, m, after, hsplit, by rw [herase], ?_⟩
    rw [← htake]
    rfl

theorem setVerificationMethodFlags_agrees (t : Target) (fragment : Bytes) (flags : UInt16) :
    Agrees DidError.fault (b.PatchesFlags flags)
      (SetVerificationMethodFlags.check t v (fragment, flags))
      (b.setFlags t.authority.address fragment flags) := by
  unfold SetVerificationMethodFlags.check Body.setFlags
  rw [h.authorityCount_eq]
  have hfind := h.findVm_eq fragment
  cases hm : b.methods[b.methodIdx fragment]? with
  | none =>
    rw [hfind.trans (congrArg _ hm)]
    exact .error _
  | some m =>
    obtain ⟨before, after, hsplit, htake, -, hset⟩ := exists_split hm
    rw [hfind.trans (congrArg _ hm)]
    simp only [Option.map_some, ite_require, Bool.decide_eq_true, validateVmFlags_eq]
    refine agrees_require rfl fun _ => ?_
    refine agrees_require rfl fun _ => ?_
    refine agrees_require rfl fun _ => ?_
    refine .ok ⟨before, m, after, hsplit, by rw [hset], ?_⟩
    rw [← htake]
    rfl

theorem addService_agrees (a : ServiceArgs) (entryLen : ℕ) :
    Agrees DidError.fault
      (fun s b' => s = b.sections ∧ b' = { b with services :=
        b.services ++ [⟨a.fragment, a.serviceType, a.endpoint⟩] })
      (AddService.check v (a, entryLen))
      (b.addService ⟨a.fragment, a.serviceType, a.endpoint⟩) := by
  unfold AddService.check Body.addService
  rw [h.requireFragmentFree_eq, h.sections_eq, checkServiceValues_eq]
  refine agrees_require rfl fun _ => ?_
  refine agrees_require rfl fun _ => ?_
  rw [bind_assoc]
  refine agrees_require rfl fun _ => ?_
  refine agrees_require rfl fun _ => ?_
  refine agrees_require rfl fun _ => ?_
  exact .ok ⟨rfl, rfl⟩

theorem updateService_agrees (a : ServiceArgs) :
    Agrees DidError.fault (b.ReplacesService ⟨a.fragment, a.serviceType, a.endpoint⟩)
      (UpdateService.check v a) (b.updateService ⟨a.fragment, a.serviceType, a.endpoint⟩) := by
  unfold UpdateService.check Body.updateService
  rw [h.sections_eq, checkServiceValues_eq]
  have hfind := h.findService_eq a.fragment
  cases hs : b.services[b.serviceIdx a.fragment]? with
  | none =>
    rw [hfind.trans (congrArg _ hs)]
    exact .error _
  | some svc =>
    obtain ⟨before, after, hsplit, htake, -, hset⟩ := exists_split hs
    rw [hfind.trans (congrArg _ hs)]
    refine agrees_require rfl fun _ => ?_
    refine .ok ⟨before, svc, after, hsplit, by rw [hset], ?_⟩
    rw [← htake]
    rfl

theorem removeService_agrees (fragment : Bytes) :
    Agrees DidError.fault b.CutsService (RemoveService.check v fragment)
      (b.removeService fragment) := by
  unfold RemoveService.check Body.removeService
  rw [h.sections_eq]
  have hfind := h.findService_eq fragment
  cases hs : b.services[b.serviceIdx fragment]? with
  | none =>
    rw [hfind.trans (congrArg _ hs)]
    exact .error _
  | some svc =>
    obtain ⟨before, after, hsplit, htake, herase, -⟩ := exists_split hs
    rw [hfind.trans (congrArg _ hs)]
    refine .ok ⟨before, svc, after, hsplit, by rw [herase], ?_⟩
    rw [← htake]
    rfl

theorem setControllers_agrees (subject : Address) (natives : List Address) (others : List Bytes)
    (len : ℕ) :
    Agrees DidError.fault
      (fun tail b' => tail = ⟨b.sections.endPos, b.sections.vmCountPos⟩ ∧
        b' = { b with natives, others })
      (SetControllers.check subject v (.ofLists natives others len))
      (b.setControllers subject natives others) := by
  rw [SetControllers.check_ofLists, Body.setControllers, h.sections_eq]
  refine agrees_require rfl fun _ => ?_
  refine agrees_require rfl fun _ => ?_
  refine agrees_require rfl fun _ => ?_
  exact .ok ⟨rfl, rfl⟩

end Handlers

end BioDidRegistry
