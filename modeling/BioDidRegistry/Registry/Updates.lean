import BioDidRegistry.Registry.Accounts
import BioDidRegistry.Registry.Refusals

/-!
# What the updates do

Each `commit` replaces the document of the account by the updated one and settles
the rent of the new length. `Commits` is that effect. Every handler's `commit`
succeeds exactly with it, and leaves the ledger alone when it fails, which `Edits`
says of its result.
-/

namespace BioDidRegistry

open BinaryFormat Verdict Outcome

variable {P : Platform} {sv : Sysvars} {L L' : Ledger} {did payer : AccountView}

/-- Rent settled when the length changes, and left alone when it does not. -/
def Resettles (P : Platform) (sv : Sysvars) (L : Ledger) (did payer : AccountView) (old new : ℕ)
    (L' : Ledger) : Prop :=
  (old = new ∧ L' = L) ∨ (old ≠ new ∧ Settles P sv L did payer new L')

/-- The document `d` of `did` replaced by its update with the lists `body`. -/
def Commits (P : Platform) (sv : Sysvars) (did payer : AccountView) (d : Document) (op : Op)
    (body : Body) (m : Machine) (v : UInt64) (m' : Machine) : Prop :=
  ∃ now L₁, sv.clock = .ok now ∧
    Resettles P sv m.ledger did payer d.encode.length (d.updated op body now).encode.length L₁ ∧
    m' = ⟨L₁.store did.address (d.updated op body now).encode, m.log⟩ ∧
    v = saturatingSucc d.version

/-- The result `r` of a commit, which is the update or a refusal. -/
structure Edits (P : Platform) (sv : Sysvars) (did payer : AccountView) (d : Document) (op : Op)
    (body : Body) (m : Machine) (r : EStateM.Result Fault Machine UInt64) : Prop where
  ok_iff : ∀ v m', r = .ok v m' ↔ Commits P sv did payer d op body m v m'
  refuses : Refuses m.ledger (Orderly P sv m.ledger did payer) r

theorem Document.updated_encode (d : Document) {op : Op} (hop : op ≠ .deactivate) (body : Body)
    (now : Int64) : (d.updated op body now).encode = (d.touched now).head ++ body.encode := by
  simp only [Document.encode, Document.head, Document.updated, Document.touched, if_neg hop]

theorem Document.length_updated (d : Document) (op : Op) (body : Body) (now : Int64) :
    (d.updated op body now).encode.length = offSections + body.encode.length :=
  Document.length_encode _

theorem lift_bind_run {α β : Type} {x : Except Fault α} {a : α} (h : x = .ok a) (f : α → Exec β)
    (m : Machine) : ((liftM x : Exec α) >>= f) m = f a m := by
  subst h
  rfl

theorem storeTouched_run (d : Document) (rest : Bytes) (now : Int64) (m : Machine) :
    storeTouched did (d.head ++ rest) now m = .ok (saturatingSucc d.version)
      ⟨m.ledger.store did.address ((d.touched now).head ++ rest), m.log⟩ := by
  unfold storeTouched
  rw [lift_bind_run (d.touch_head rest now), Exec.store_bind]
  exact lift_ok_iff.mpr ⟨(d.touched now).version_head rest, rfl⟩

theorem resettles_of_ne {old new : ℕ} (h : old ≠ new) :
    Resettles P sv L did payer old new L' ↔ Settles P sv L did payer new L' := by
  simp [Resettles, h]

theorem resettles_same {n : ℕ} : Resettles P sv L did payer n n L' ↔ L' = L := by
  simp [Resettles]

section Commit

variable {u : Update} {d : Document} {m m' : Machine} {v : UInt64} {op : Op} {body : Body}

/-- A commit that begins by reading the clock. -/
theorem Edits.of_clock {f : Int64 → Exec UInt64}
    (h : ∀ now, sv.clock = .ok now → Edits P sv did payer d op body m (f now m)) :
    Edits P sv did payer d op body m (((liftM (orFault sv.clock) : Exec Int64) >>= f) m) where
  ok_iff v m' := by
    rw [lift_bind_ok_iff]
    simp only [orFault_eq_ok]
    constructor
    · rintro ⟨now, hnow, hrun⟩
      exact ((h now hnow).ok_iff v m').mp hrun
    · intro hcommit
      obtain ⟨now, -, hnow, -⟩ := id hcommit
      exact ⟨now, hnow, ((h now hnow).ok_iff v m').mpr hcommit⟩
  refuses := by
    apply Refuses.lift_bind (.orFault _)
    intro now hnow
    exact (h now (orFault_eq_ok.mp hnow)).refuses

/-- A commit that grows the account first: the rent, the clock, then the edit, of which
`run` says that it always goes through. -/
theorem grow_edits (hP : P.Lawful) {k : ℕ} {f : Exec UInt64}
    (hdata : (m.ledger did.address).data = d.encode) (hop : op ≠ .deactivate)
    (hlen : body.encode.length = d.body.encode.length + k) (hpos : 0 < k)
    (hk : k ≤ maxPermittedDataIncrease)
    (run : ∀ m₁ now, (∀ a, a ≠ did.address → (m₁.ledger a).data = (m.ledger a).data) →
        (m₁.ledger did.address).data = d.head ++ d.body.encode ++ List.replicate k 0 →
        sv.clock = .ok now →
      f m₁ = storeTouched did (d.head ++ body.encode) now m₁)
    (hclock : ∀ m₁ e, sv.clock = .error e → f m₁ = .error (.program e) m₁) :
    Edits P sv did payer d op body m
      ((grow P sv did payer (d.encode.length + k) >>= fun _ => f) m) := by
  have hupdated (now : Int64) : (d.updated op body now).encode.length = d.encode.length + k := by
    rw [d.length_updated, d.length_encode, hlen]
    omega
  have hresize : resizeWith 0 d.encode (d.encode.length + k) =
      d.head ++ d.body.encode ++ List.replicate k 0 := by
    rw [resizeWith_grow 0 (by omega), Nat.add_sub_cancel_left]
    rfl
  have hrun (L₁ : Ledger) (now : Int64) (hs : Settles P sv m.ledger did payer
      (d.encode.length + k) L₁) (hnow : sv.clock = .ok now) :
      f ⟨L₁.store did.address (d.head ++ d.body.encode ++ List.replicate k 0), m.log⟩ =
        .ok (saturatingSucc d.version)
          ⟨L₁.store did.address (d.updated op body now).encode, m.log⟩ := by
    have hothers (a : Address) (ha : a ≠ did.address) : (L₁.store did.address
        (d.head ++ d.body.encode ++ List.replicate k 0) a).data = (m.ledger a).data := by
      rw [Ledger.store_of_ne _ _ ha, hs.data]
    rw [run _ now hothers (by simp) hnow, storeTouched_run, d.updated_encode hop,
      Ledger.store_store]
  constructor
  · intro v m'
    rw [bind_ok_iff]
    simp only [grow_ok_iff hP, hdata, hresize]
    constructor
    · rintro ⟨-, _, ⟨L₁, hs, -, rfl⟩, hf⟩
      cases hnow : sv.clock with
      | error e =>
        rw [hclock _ e hnow] at hf
        cases hf
      | ok now =>
        rw [hrun L₁ now hs hnow] at hf
        cases hf
        refine ⟨now, L₁, hnow, ?_, rfl, rfl⟩
        rw [hupdated, resettles_of_ne (by omega)]
        exact hs
    · rintro ⟨now, L₁, hnow, hs, rfl, rfl⟩
      rw [hupdated, resettles_of_ne (by omega)] at hs
      exact ⟨(), _, ⟨L₁, hs, by omega, rfl⟩, hrun L₁ now hs hnow⟩
  · have hgrow : Refuses m.ledger _ (grow P sv did payer (d.encode.length + k) m) :=
      grow_refuses hP
    apply Fails.bind (hgrow.weaken fun ho => ⟨ho, by rw [hdata]; omega⟩)
    intro _ m₁ hm₁
    simp only [grow_ok_iff hP, hdata, hresize] at hm₁
    obtain ⟨L₁, hs, -, rfl⟩ := hm₁
    cases hnow : sv.clock with
    | error e =>
      rw [hclock _ e hnow]
      apply Fails.error
      refine ⟨nofun, fun ho => ?_⟩
      obtain ⟨now, hok⟩ := ho.clock
      rw [hnow] at hok
      cases hok
    | ok now =>
      rw [hrun L₁ now hs hnow]
      exact .ok _ _

theorem addVerificationMethod_edits (hP : P.Lawful) {method : Method}
    (hdata : (m.ledger u.didAccount.address).data = d.encode) (hfits : d.body.Fits)
    (hsmall : d.encode.length < 2 ^ 63) (hm : method.Fits)
    (hgrow : method.encode.length ≤ maxPermittedDataIncrease) :
    Edits P sv u.didAccount u.payer d (.addVm method)
      { d.body with methods := d.body.methods ++ [method] } m
      (AddVerificationMethod.commit P sv u (method.toNew, method.key) d.body.sections m) := by
  have hcount := hfits.methods.1
  have hlen := d.length_encode
  have hmax : maxPermittedDataIncrease < 2 ^ 63 := by decide
  have hspace : vmSpace method.toNew.fragment.length method.key.length =
      .ok method.encode.length := vmSpace_eq hm
  have hend : addUsize d.body.sections.endPos method.encode.length =
      .ok (d.encode.length + method.encode.length) := by
    rw [show d.body.sections.endPos = d.encode.length from hlen.symm]
    exact addUsize_of_lt (by omega)
  unfold AddVerificationMethod.commit
  rw [lift_bind_run hspace, lift_bind_run hend]
  refine grow_edits hP hdata (by simp) ?_ (by simp) hgrow ?_ ?_
  · exact Body.length_addMethod ..
  · intro m₁ now _ hm₁ hnow
    rw [lift_bind_run (orFault_eq_ok.mpr hnow), Exec.borrow_bind, hm₁]
    refine lift_bind_run (insertVm_encode d.length_head hm (by simp) ?_ (by omega)) _ m₁
    rw [List.length_append, List.length_replicate, ← Document.encode]
    omega
  · intro m₁ e hclock
    rw [hclock]
    rfl

theorem addService_edits (hP : P.Lawful) {svc : Service}
    (hdata : (m.ledger u.didAccount.address).data = d.encode) (hfits : d.body.Fits)
    (hsmall : d.encode.length < 2 ^ 63)
    (hgrow : svc.encode.length ≤ maxPermittedDataIncrease) :
    Edits P sv u.didAccount u.payer d (.addService svc)
      { d.body with services := d.body.services ++ [svc] } m
      (AddService.commit P sv u (⟨svc.fragment, svc.serviceType, svc.endpoint⟩, svc.encode.length)
        d.body.sections m) := by
  have hcount := hfits.services.1
  have hlen := d.length_encode
  have hmax : maxPermittedDataIncrease < 2 ^ 63 := by decide
  have hend : addUsize d.body.sections.endPos svc.encode.length =
      .ok (d.encode.length + svc.encode.length) := by
    rw [show d.body.sections.endPos = d.encode.length from hlen.symm]
    exact addUsize_of_lt (by omega)
  unfold AddService.commit
  rw [lift_bind_run hend]
  refine grow_edits hP hdata (by simp) ?_ (by simp) hgrow ?_ ?_
  · exact Body.length_addService ..
  · intro m₁ now _ hm₁ hnow
    have hwrite := appendService_encode (b := d.body) d.length_head svc
      (List.replicate svc.encode.length 0) (by simp)
    rw [except_bind_ok_iff] at hwrite
    obtain ⟨data, hservice, hcountPatch⟩ := hwrite
    rw [lift_bind_run (orFault_eq_ok.mpr hnow), Exec.borrow_bind, hm₁, lift_bind_run hservice,
      lift_bind_run (addUsize_of_lt (by change d.body.services.length + 1 < _; omega))]
    exact lift_bind_run hcountPatch _ m₁
  · intro m₁ e hclock
    rw [hclock]
    rfl

theorem shrink_stored_ok_iff (hP : P.Lawful) {x junk : Bytes} {n : ℕ} {w : UInt64}
    (howner : (m.ledger did.address).owner = programId) (hn : n = x.length) :
    (shrink P sv did payer n >>= fun _ => pure w)
        ⟨m.ledger.store did.address (x ++ junk), m.log⟩ = .ok v m' ↔
      ∃ L₁, Settles P sv m.ledger did payer n L₁ ∧ m' = ⟨L₁.store did.address x, m.log⟩ ∧
        v = w := by
  rw [bind_ok_iff]
  simp only [shrink_ok_iff hP (m := ⟨m.ledger.store did.address (x ++ junk), m.log⟩)
    (by simpa using howner), settles_store_iff howner, Ledger.store_data, pure_ok_iff,
    resizeWith_cut 0 hn]
  constructor
  · rintro ⟨-, _, ⟨_, ⟨L₁, hs, rfl⟩, -, rfl⟩, rfl, rfl⟩
    exact ⟨L₁, hs, by rw [Ledger.store_store], rfl⟩
  · rintro ⟨L₁, hs, rfl, rfl⟩
    refine ⟨(), _, ⟨_, ⟨L₁, hs, rfl⟩, ?_, rfl⟩, rfl, by rw [Ledger.store_store]⟩
    rw [hn, List.length_append]
    omega

/-- A commit that edits first, leaving `junk` past the new document, and then shrinks. -/
theorem shrink_edits (hP : P.Lawful) (junk : Bytes) {f : Int64 → Exec UInt64}
    (howner : (m.ledger did.address).owner = programId)
    (hdata : (m.ledger did.address).data = d.encode)
    (hlen : (d.updated op body 0).encode.length < d.encode.length)
    (run : ∀ now, f now m = (shrink P sv did payer (d.updated op body now).encode.length >>=
      fun _ => pure (saturatingSucc d.version))
        ⟨m.ledger.store did.address ((d.updated op body now).encode ++ junk), m.log⟩) :
    Edits P sv did payer d op body m (((liftM (orFault sv.clock) : Exec Int64) >>= f) m) := by
  have hlt (now : Int64) : (d.updated op body now).encode.length < d.encode.length := by
    rw [d.length_updated] at hlen ⊢
    exact hlen
  apply Edits.of_clock
  intro now hnow
  rw [run]
  constructor
  · intro v m'
    rw [shrink_stored_ok_iff hP howner rfl]
    constructor
    · rintro ⟨L₁, hs, rfl, rfl⟩
      exact ⟨now, L₁, hnow, (resettles_of_ne (hlt now).ne').mpr hs, rfl, rfl⟩
    · rintro ⟨now', L₁, hnow', hs, rfl, rfl⟩
      obtain rfl : now = now' := Except.ok.inj (hnow.symm.trans hnow')
      exact ⟨L₁, (resettles_of_ne (hlt now).ne').mp hs, rfl, rfl⟩
  · refine .bind (Refuses.of_safe (Safe.shrink _) fun ho => ⟨(), ?_⟩) fun _ _ _ => .ok _ _
    apply ho.shrink_ok hP howner
    · rw [hdata]
      exact (hlt now).le
    · simp

/-- A commit that leaves the length as it was, and so the rent. -/
theorem same_edits {f : Int64 → Exec UInt64}
    (hlen : (d.updated op body 0).encode.length = d.encode.length)
    (run : ∀ now, f now m = .ok (saturatingSucc d.version)
      ⟨m.ledger.store did.address (d.updated op body now).encode, m.log⟩) :
    Edits P sv did payer d op body m (((liftM (orFault sv.clock) : Exec Int64) >>= f) m) := by
  have heq (now : Int64) : (d.updated op body now).encode.length = d.encode.length := by
    rw [d.length_updated] at hlen ⊢
    exact hlen
  apply Edits.of_clock
  intro now hnow
  rw [run]
  constructor
  · intro v m'
    unfold Commits
    simp only [heq, resettles_same, EStateM.Result.ok.injEq]
    constructor
    · rintro ⟨rfl, rfl⟩
      exact ⟨now, _, hnow, rfl, rfl, rfl⟩
    · rintro ⟨now', _, hnow', rfl, rfl, rfl⟩
      obtain rfl : now = now' := Except.ok.inj (hnow.symm.trans hnow')
      exact ⟨rfl, rfl⟩
  · exact .ok _ _

theorem removeEntry_edits (hP : P.Lawful) {r : Removal} {junk : Bytes}
    (howner : (m.ledger u.didAccount.address).owner = programId)
    (hdata : (m.ledger u.didAccount.address).data = d.encode) (hop : op ≠ .deactivate)
    (hcount : 1 ≤ r.count) (hspan : r.first < r.last) (hold : r.oldLen = d.encode.length)
    (hjunk : junk.length = r.last - r.first)
    (hlen : (d.head ++ body.encode ++ junk).length = d.encode.length)
    (hedit : (do
      let data ← copyWithin d.encode r.last r.oldLen r.first
      writeAt data r.countPos (u32Bytes (r.count - 1))) = .ok (d.head ++ body.encode ++ junk)) :
    Edits P sv u.didAccount u.payer d op body m (removeEntry P sv u r m) := by
  have hnew (now : Int64) :
      (d.updated op body now).encode.length = r.oldLen - (r.last - r.first) := by
    rw [d.updated_encode hop]
    simp only [List.length_append, Document.length_head] at hlen ⊢
    omega
  have hle : r.last - r.first ≤ r.oldLen := by
    rw [hold, ← hlen, List.length_append]
    omega
  rw [except_bind_ok_iff] at hedit
  obtain ⟨data, hcopy, hpatch⟩ := hedit
  unfold removeEntry
  rw [lift_bind_run (subUsize_of_le hspan.le)]
  refine shrink_edits hP junk howner hdata ?_ fun now => ?_
  · rw [hnew]
    simp only [List.length_append, Document.length_head] at hlen
    omega
  · have htouch : storeTouched u.didAccount (d.head ++ body.encode ++ junk) now m =
        .ok (saturatingSucc d.version) ⟨m.ledger.store u.didAccount.address
          ((d.updated op body now).encode ++ junk), m.log⟩ := by
      rw [List.append_assoc, storeTouched_run, d.updated_encode hop, List.append_assoc]
    rw [Exec.borrow_bind, hdata, lift_bind_run hcopy, lift_bind_run (subUsize_of_le hcount),
      lift_bind_run hpatch, bind_of_ok htouch, lift_bind_run (subUsize_of_le hle), hnew]

theorem cutMethod_edits (hP : P.Lawful) {r : Removal}
    (howner : (m.ledger u.didAccount.address).owner = programId)
    (hdata : (m.ledger u.didAccount.address).data = d.encode) (hop : op ≠ .deactivate)
    (hcut : d.body.CutsMethod r body) :
    Edits P sv u.didAccount u.payer d op body m (removeEntry P sv u r m) := by
  obtain ⟨junk, hjunk, hedit⟩ := cutMethod_encode d.length_head hcut
  obtain ⟨before, method, after, hms, rfl, rfl⟩ := hcut
  refine removeEntry_edits hP howner hdata hop (by simp [hms]; omega) (by simp)
    d.length_encode.symm hjunk ?_ hedit
  have hlen := Body.length_removeMethod hms
  simp only [List.length_append, d.length_encode, d.length_head, hjunk]
  omega

theorem cutService_edits (hP : P.Lawful) {r : Removal}
    (howner : (m.ledger u.didAccount.address).owner = programId)
    (hdata : (m.ledger u.didAccount.address).data = d.encode) (hop : op ≠ .deactivate)
    (hcut : d.body.CutsService r body) :
    Edits P sv u.didAccount u.payer d op body m (removeEntry P sv u r m) := by
  obtain ⟨junk, hjunk, hedit⟩ := cutService_encode d.length_head hcut
  obtain ⟨before, svc, after, hss, rfl, rfl⟩ := hcut
  refine removeEntry_edits hP howner hdata hop (by simp [hss]; omega) (by simp)
    d.length_encode.symm hjunk ?_ hedit
  have hlen := Body.length_removeService hss
  simp only [List.length_append, d.length_encode, d.length_head, hjunk]
  omega

theorem deactivate_edits (hP : P.Lawful)
    (howner : (m.ledger u.didAccount.address).owner = programId)
    (hdata : (m.ledger u.didAccount.address).data = d.encode)
    (hbody : Body.empty.encode.length < d.body.encode.length) :
    Edits P sv u.didAccount u.payer d .deactivate Body.empty m (Deactivate.commit P sv u m) := by
  have hupdated (now : Int64) : (d.updated .deactivate Body.empty now).encode =
      (({ d with deactivated := 1 } : Document).touched now).head ++ Body.empty.encode := by
    simp only [Document.encode, Document.head, Document.updated, Document.touched, if_true]
  have hnew (now : Int64) : (d.updated .deactivate Body.empty now).encode.length =
      tombstoneSpace := d.length_updated ..
  have htail : 16 ≤ d.body.encode.length := hbody.le
  have hedit := d.deactivate_encode htail
  rw [except_bind_ok_iff] at hedit
  obtain ⟨data, hflag, hclear⟩ := hedit
  unfold Deactivate.commit
  refine shrink_edits hP (d.body.encode.drop 16) howner hdata ?_ fun now => ?_
  · have hempty : Body.empty.encode.length = 16 := rfl
    rw [hnew, d.length_encode]
    simp only [tombstoneSpace, offSections]
    omega
  · have htouch : storeTouched u.didAccount ({ d with deactivated := 1 }.head ++
          Body.empty.encode ++ d.body.encode.drop 16) now m =
        .ok (saturatingSucc d.version) ⟨m.ledger.store u.didAccount.address
          ((d.updated .deactivate Body.empty now).encode ++ d.body.encode.drop 16), m.log⟩ := by
      rw [List.append_assoc, storeTouched_run, hupdated, List.append_assoc]
    rw [Exec.borrow_bind, hdata, Document.encode, lift_bind_run hflag, lift_bind_run hclear,
      bind_of_ok htouch, hnew]

theorem setVerificationMethodFlags_edits {t : Target} {flags : UInt16} {pos : ℕ}
    {fragment : Bytes} (hdata : (m.ledger t.didAccount.address).data = d.encode)
    (hop : op ≠ .deactivate) (hpatch : d.body.PatchesFlags flags pos body) :
    Edits P sv t.didAccount payer d op body m
      (SetVerificationMethodFlags.commit sv t (fragment, flags) pos m) := by
  have hedit : writeAt d.encode pos (u16Bytes flags) = .ok (d.head ++ body.encode) :=
    patchFlags_encode d.length_head hpatch
  unfold SetVerificationMethodFlags.commit
  refine same_edits ?_ fun now => ?_
  · obtain ⟨before, method, after, hms, rfl, -⟩ := hpatch
    have hlen := Body.length_replaceMethod hms [{ method with flags }]
    simp only [List.flatMap_singleton, List.singleton_append, Method.length_encode] at hlen
    rw [d.length_updated, d.length_encode]
    omega
  · rw [Exec.borrow_bind, hdata, lift_bind_run hedit, storeTouched_run, d.updated_encode hop]

/-- In data with `k` bytes of room, the edit leaves the new document, goes on with its new
version, and leaves what the old one took beyond. -/
def Rewrites (did : AccountView) (d : Document) (op : Op) (body : Body) (k : ℕ)
    (edit : Int64 → (UInt64 → Exec UInt64) → Exec UInt64) : Prop :=
  ∃ junk : Bytes, junk.length + (d.head ++ body.encode).length = d.encode.length + k ∧
    ∀ (m : Machine) (now : Int64) (f : UInt64 → Exec UInt64),
      (m.ledger did.address).data = d.head ++ d.body.encode ++ List.replicate k 0 →
        edit now f m = f (saturatingSucc d.version)
          ⟨m.ledger.store did.address ((d.updated op body now).encode ++ junk), m.log⟩

/-- With just the room it needs, it leaves nothing beyond. -/
theorem Rewrites.fitting {k : ℕ} {edit : Int64 → (UInt64 → Exec UInt64) → Exec UInt64}
    (h : Rewrites did d op body k edit) (hk : body.encode.length = d.body.encode.length + k)
    (now : Int64) (f : UInt64 → Exec UInt64)
    (hm : (m.ledger did.address).data = d.head ++ d.body.encode ++ List.replicate k 0) :
    edit now f m = f (saturatingSucc d.version)
      ⟨m.ledger.store did.address (d.updated op body now).encode, m.log⟩ := by
  obtain ⟨junk, hjunk, hrun⟩ := h
  have hlen := d.length_encode
  have hnil : junk = [] := by
    rw [List.length_append, d.length_head] at hjunk
    exact List.length_eq_zero_iff.mp (by omega)
  rw [hrun m now f hm, hnil, List.append_nil]

/-- Where the replaced entry ends, and by how much it changes the length. -/
theorem Body.ReplacesService.lengths {b b' : Body} {svc : Service} {r : UpdateService.Replacement}
    (h : b.ReplacesService svc r b') : r.oldLen = offSections + b.encode.length ∧
      r.start ≤ r.last ∧ r.last ≤ r.oldLen ∧
      b'.encode.length + r.last = b.encode.length + (r.start + svc.encode.length) := by
  obtain ⟨before, old, after, hss, rfl, rfl⟩ := h
  refine ⟨rfl, ?_⟩
  simp only [Body.serviceStart, Body.sections, Body.encode, Body.nativesBytes, Body.othersBytes,
    Body.methodsBytes, Body.servicesBytes, vec, hss, List.length_append, List.flatMap_append,
    List.flatMap_cons, length_u32Bytes]
  omega

theorem replaceService_rewrites {svc : Service} {r : UpdateService.Replacement}
    (hop : op ≠ .deactivate) (hr : d.body.ReplacesService svc r body) {k : ℕ}
    (hk : r.start + svc.encode.length ≤ r.last + k) :
    Rewrites did d op body k fun now f => Exec.borrow did >>= fun data =>
      (liftM (copyWithin data r.last r.oldLen (r.start + svc.encode.length)) : Exec Bytes) >>=
        fun data => (liftM (writeService data r.start svc.fragment svc.serviceType
          svc.endpoint) : Exec Bytes) >>= fun data => storeTouched did data now >>= f := by
  obtain ⟨junk, hjunk, hrun⟩ := replaceService_encode d.length_head (List.replicate k 0) hr
    (by simpa using hk)
  rw [except_bind_ok_iff] at hrun
  obtain ⟨data, hcopy, hwrite⟩ := hrun
  refine ⟨junk, by simpa [Document.encode] using hjunk, fun m now f hm => ?_⟩
  have htouch : storeTouched did (d.head ++ body.encode ++ junk) now m =
      .ok (saturatingSucc d.version) ⟨m.ledger.store did.address
        ((d.updated op body now).encode ++ junk), m.log⟩ := by
    rw [List.append_assoc, storeTouched_run, d.updated_encode hop, List.append_assoc]
  dsimp only
  rw [Exec.borrow_bind, hm, lift_bind_run hcopy, lift_bind_run hwrite, bind_of_ok htouch]

theorem updateService_edits (hP : P.Lawful) {svc : Service}
    {r : UpdateService.Replacement} (howner : (m.ledger u.didAccount.address).owner = programId)
    (hdata : (m.ledger u.didAccount.address).data = d.encode)
    (hsmall : d.encode.length < 2 ^ 63) (hsvc : svc.Fits)
    (hgrow : body.encode.length ≤ d.body.encode.length + maxPermittedDataIncrease)
    (hop : op ≠ .deactivate) (hr : d.body.ReplacesService svc r body) :
    Edits P sv u.didAccount u.payer d op body m
      (UpdateService.commit P sv u ⟨svc.fragment, svc.serviceType, svc.endpoint⟩ r m) := by
  have hmax : maxPermittedDataIncrease < 2 ^ 63 := by decide
  obtain ⟨hold, hstart, hlast, hchange⟩ := hr.lengths
  have hlen := d.length_encode
  have hnew (now : Int64) : (d.updated op body now).encode.length =
      r.oldLen - r.last + (r.start + svc.encode.length) := by
    rw [d.length_updated]
    omega
  have hrewrites {k : ℕ} (hk : r.start + svc.encode.length ≤ r.last + k) :
      Rewrites u.didAccount d op body k _ := replaceService_rewrites hop hr hk
  unfold UpdateService.commit
  rw [lift_bind_run (serviceSpace_eq hsvc), lift_bind_run (addUsize_of_lt (by omega)),
    lift_bind_run (subUsize_of_le hlast), lift_bind_run (addUsize_of_lt (by omega))]
  rcases Nat.lt_trichotomy r.oldLen (r.oldLen - r.last + (r.start + svc.encode.length)) with
    hlt | heq | hgt
  · obtain ⟨k, hk⟩ := Nat.exists_eq_add_of_lt hlt
    have hbody : body.encode.length = d.body.encode.length + (k + 1) := by omega
    have hroom : r.oldLen - r.last + (r.start + svc.encode.length) =
        d.encode.length + (k + 1) := by omega
    simp only [if_pos hlt, if_neg (Nat.lt_asymm hlt)]
    rw [hroom]
    refine grow_edits hP hdata hop hbody (by omega) (by omega) ?_ ?_
    · intro m₁ now _ hm₁ hnow
      rw [lift_bind_run (orFault_eq_ok.mpr hnow), storeTouched_run, ← d.updated_encode hop]
      exact (hrewrites (k := k + 1) (by omega)).fitting hbody now pure hm₁
    · intro m₁ e hclock
      rw [hclock]
      rfl
  · simp only [if_neg heq.not_lt, if_neg heq.not_gt]
    refine same_edits (by rw [hnew]; omega) fun now => ?_
    exact (hrewrites (k := 0) (by omega)).fitting (by omega) now _
      (by rw [hdata, Document.encode]; simp)
  · obtain ⟨junk, -, hrun⟩ := hrewrites (k := 0) (by omega)
    simp only [if_neg (Nat.lt_asymm hgt), if_pos hgt]
    refine shrink_edits hP junk howner hdata (by rw [hnew]; omega) fun now => ?_
    rw [hnew]
    exact hrun m now _ (by rw [hdata, Document.encode]; simp)

/-- By how much new controllers change the length. -/
theorem Body.length_withControllers (b : Body) (natives : List Address) (others : List Bytes) :
    ({ b with natives, others } : Body).encode.length +
        (b.sections.vmCountPos - offSections) =
      b.encode.length + (vec Subtype.val natives ++ vec Reader.lenPrefix others).length ∧
    offSections ≤ b.sections.vmCountPos ∧
      b.sections.vmCountPos - offSections ≤ b.encode.length := by
  simp only [Body.sections, Body.encode, Body.nativesBytes, Body.othersBytes, Body.methodsBytes,
    Body.servicesBytes, List.length_append]
  omega

theorem replaceControllers_rewrites {natives : List Address} {others : List Bytes} {args : Bytes}
    {a : SetControllers.Args} (hop : op ≠ .deactivate)
    (hargs : args = vec Subtype.val natives ++ vec Reader.lenPrefix others)
    (ha : a.sectionsLen = args.length) (hargsLen : offSections + args.length < 2 ^ 64) {k : ℕ}
    (hk : offSections + args.length ≤ d.body.sections.vmCountPos + k) :
    Rewrites u.didAccount d op { d.body with natives, others } k fun now f =>
      SetControllers.edit u args a ⟨d.body.sections.endPos, d.body.sections.vmCountPos⟩ now >>=
        f := by
  obtain ⟨junk, hjunk, hrun⟩ := replaceControllers_encode (b := d.body)
    d.length_head natives others (List.replicate k 0) (by simpa [hargs] using hk)
  rw [← hargs, except_bind_ok_iff] at hrun
  obtain ⟨data, hcopy, hwrite⟩ := hrun
  have hslice : slice args 0 args.length = .ok args := by simp [slice]
  refine ⟨junk, by simpa [Document.encode] using hjunk, fun m now f hm => bind_of_ok ?_⟩
  unfold SetControllers.edit
  dsimp only
  rw [ha, Exec.borrow_bind, hm, lift_bind_run (addUsize_of_lt hargsLen), lift_bind_run hcopy,
    lift_bind_run hslice, lift_bind_run hwrite, List.append_assoc, storeTouched_run,
    d.updated_encode hop, List.append_assoc]

theorem setControllers_edits (hP : P.Lawful) {natives : List Address}
    {others : List Bytes} {args : Bytes} {a : SetControllers.Args}
    (howner : (m.ledger u.didAccount.address).owner = programId)
    (hdata : (m.ledger u.didAccount.address).data = d.encode)
    (hsmall : d.encode.length < 2 ^ 63)
    (hargs : args = vec Subtype.val natives ++ vec Reader.lenPrefix others)
    (ha : a.sectionsLen = args.length)
    (hgrow : args.length ≤ maxPermittedDataIncrease) (hop : op ≠ .deactivate) :
    Edits P sv u.didAccount u.payer d op { d.body with natives, others } m
      (SetControllers.commit P sv u args a
        ⟨d.body.sections.endPos, d.body.sections.vmCountPos⟩ m) := by
  have hmax : maxPermittedDataIncrease < 2 ^ 63 := by decide
  have hoff : offSections = 58 := rfl
  have hend : d.body.sections.endPos = d.encode.length := d.length_encode.symm
  have hlen := d.length_encode
  obtain ⟨hbody, hpos, hle⟩ := d.body.length_withControllers natives others
  rw [← hargs] at hbody
  have hrewrites {k : ℕ} (hk : offSections + args.length ≤ d.body.sections.vmCountPos + k) :=
    replaceControllers_rewrites (u := u) hop hargs ha (by omega) hk
  generalize ({ d.body with natives, others } : Body) = body at hbody hrewrites ⊢
  have hnew (now : Int64) : (d.updated op body now).encode.length =
      d.encode.length - (d.body.sections.vmCountPos - offSections) + args.length := by
    rw [d.length_updated]
    omega
  unfold SetControllers.commit
  dsimp only
  rw [ha, lift_bind_run (subUsize_of_le hpos), hend, lift_bind_run (subUsize_of_le (by omega)),
    lift_bind_run (addUsize_of_lt (by omega))]
  rw [hend] at hrewrites
  rcases Nat.lt_trichotomy (d.body.sections.vmCountPos - offSections) args.length with
    hlt | heq | hgt
  · obtain ⟨k, hk⟩ := Nat.exists_eq_add_of_lt hlt
    have hgrown : body.encode.length = d.body.encode.length + (k + 1) := by omega
    have hroom : d.encode.length - (d.body.sections.vmCountPos - offSections) + args.length =
        d.encode.length + (k + 1) := by omega
    simp only [if_pos hlt]
    rw [hroom]
    -- The clock was read before the growth.
    apply Edits.of_clock
    intro now hnow
    refine grow_edits hP hdata hop hgrown (by omega) (by omega) ?_ ?_
    · intro m₁ now' _ hm₁ hnow'
      obtain rfl : now = now' := Except.ok.inj (hnow.symm.trans hnow')
      have hrun := (hrewrites (k := k + 1) (by omega)).fitting hgrown now pure hm₁
      rw [bind_pure] at hrun
      rw [hrun, storeTouched_run, d.updated_encode hop]
      rfl
    · intro m₁ e hclock
      rw [hnow] at hclock
      cases hclock
  · have hsame : ¬d.encode.length - (d.body.sections.vmCountPos - offSections) + args.length <
        d.encode.length := by omega
    simp only [if_neg heq.not_lt, if_neg hsame]
    refine same_edits (by rw [hnew]; omega) fun now => ?_
    exact (hrewrites (k := 0) (by omega)).fitting (by omega) now _
      (by rw [hdata, Document.encode]; simp)
  · have hshorter : d.encode.length - (d.body.sections.vmCountPos - offSections) + args.length <
        d.encode.length := by omega
    obtain ⟨junk, -, hrun⟩ := hrewrites (k := 0) (by omega)
    simp only [if_neg (Nat.lt_asymm hgt), if_pos hshorter]
    refine shrink_edits hP junk howner hdata (by rw [hnew]; omega) fun now => ?_
    rw [hnew]
    exact hrun m now _ (by rw [hdata, Document.encode]; simp)

end Commit

end BioDidRegistry
