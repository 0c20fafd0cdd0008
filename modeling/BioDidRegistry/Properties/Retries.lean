import BioDidRegistry.Properties.TypedAccounts
import BioDidRegistry.Registry.Builders
import BioDidRegistry.Registry.Making
import BioDidRegistry.Registry.Reference

/-!
# Sending a call again

A client that does not see the answer sends its call again. A call that went through is
refused the second time, unless it set values that are already set. Then the document only
gets a new version and time, and no lamports move.
-/

namespace BioDidRegistry

open Transition BinaryFormat Reader

variable {P : Platform} {L L' L₀ L₁ L₂ L₃ : Ledger} {c c' : Call}

/-! ### The same update twice -/

/-- The update gives values to what is there already. -/
def Op.Sets (op : Op) : Prop :=
  op.ix = .setVerificationMethodFlags ∨ op.ix = .updateService ∨ op.ix = .setControllers

namespace Body

variable {isCurvePoint : Bytes → Bool} {signer signer' subject : Address} {b b' b'' : Body}

theorem not_mem_of_cut {α : Type} {f : α → Bytes} {before after : List α} {x : α}
    (h : ((before ++ x :: after).map f).Nodup) : ∀ y ∈ before ++ after, f y ≠ f x := by
  intro y hy hsame
  rw [List.map_append, List.map_cons] at h
  have hcut := (List.nodup_middle.mp h)
  rw [← List.map_append] at hcut
  exact (List.nodup_cons.mp hcut).1 (hsame ▸ List.mem_map_of_mem hy)

/-- An update that is accepted twice in a row sets values, and sets them to what they are the
second time. -/
theorem WellFormed.apply_again {op : Op} (h : b.WellFormed subject) (hkeeps : op ≠ .deactivate)
    (happly : b.apply isCurvePoint signer subject op = .ok b')
    (hagain : b'.apply isCurvePoint signer' subject op = .ok b'') : op.Sets ∧ b'' = b' := by
  have h' : b'.WellFormed subject := h.apply happly
  cases op with
  | addVm m =>
    obtain ⟨-, -, rfl⟩ := addVm_ok_iff.mp happly
    obtain ⟨hm, -⟩ := addVm_ok_iff.mp hagain
    obtain ⟨-, -, htaken, -⟩ := admits_ok_iff.mp hm
    have hmem : m.fragment ∈ ({ b with methods := b.methods ++ [m] } : Body).fragments := by
      simp [Body.fragments]
    exact absurd hmem (taken_eq_false_iff.mp htaken)
  | removeVm fragment =>
    obtain ⟨before, m, after, hsplit, hm, -, -, rfl⟩ := removeVm_ok happly
    obtain ⟨before', m', after', hsplit', hm', -⟩ := removeVm_ok hagain
    have hnodup := (List.nodup_append.mp h.fragments).1
    rw [hsplit] at hnodup
    have hmem : m' ∈ before ++ after := by
      change m' ∈ ({ b with methods := before ++ after } : Body).methods
      rw [hsplit']
      simp
    exact absurd (hm'.trans hm.symm) (not_mem_of_cut hnodup m' hmem)
  | setFlags fragment flags =>
    obtain ⟨before, m, after, -, hm, -, -, -, hb'⟩ := setFlags_ok happly
    obtain ⟨before', m', after', hsplit', hm', -, -, -, rfl⟩ := setFlags_ok hagain
    -- The method named `fragment` has the flags already.
    have hset : { m with flags } ∈ b'.methods := by simp [hb']
    have hfound : m' ∈ b'.methods := by simp [hsplit']
    obtain rfl : m' = { m with flags } := List.inj_on_of_nodup_map
      (List.nodup_append.mp h'.fragments).1 hfound hset (hm'.trans hm.symm)
    exact ⟨Or.inl rfl, (congrArg (fun methods => { b' with methods }) hsplit').symm⟩
  | addService svc =>
    obtain ⟨-, rfl⟩ := addService_ok_iff.mp happly
    obtain ⟨⟨-, -, htaken, -⟩, -⟩ := addService_ok_iff.mp hagain
    have hmem : svc.fragment ∈ ({ b with services := b.services ++ [svc] } : Body).fragments := by
      simp [Body.fragments]
    exact absurd hmem (taken_eq_false_iff.mp htaken)
  | updateService svc =>
    obtain ⟨before, old, after, -, -, -, hb'⟩ := updateService_ok happly
    obtain ⟨before', old', after', hsplit', hold, -, rfl⟩ := updateService_ok hagain
    have hset : svc ∈ b'.services := by simp [hb']
    have hfound : old' ∈ b'.services := by simp [hsplit']
    obtain rfl : old' = svc := List.inj_on_of_nodup_map
      (List.nodup_append.mp h'.fragments).2.1 hfound hset hold
    exact ⟨Or.inr (Or.inl rfl), (congrArg (fun services => { b' with services }) hsplit').symm⟩
  | removeService fragment =>
    obtain ⟨before, svc, after, hsplit, hsvc, rfl⟩ := removeService_ok happly
    obtain ⟨before', svc', after', hsplit', hsvc', -⟩ := removeService_ok hagain
    have hnodup := (List.nodup_append.mp h.fragments).2.1
    rw [hsplit] at hnodup
    have hmem : svc' ∈ before ++ after := by
      change svc' ∈ ({ b with services := before ++ after } : Body).services
      rw [hsplit']
      simp
    exact absurd (hsvc'.trans hsvc.symm) (not_mem_of_cut hnodup svc' hmem)
  | setControllers natives others =>
    obtain ⟨-, rfl⟩ := setControllers_ok_iff.mp happly
    obtain ⟨-, rfl⟩ := setControllers_ok_iff.mp hagain
    exact ⟨Or.inr (Or.inr rfl), rfl⟩
  | deactivate => exact absurd rfl hkeeps

end Body

theorem Reader.eq_of_encode {s : Source} {α : Type} {p : Read s α} {enc : α → Bytes}
    {ok : α → Prop} {a b : α} (hp : Reads p enc ok) (ha : ok a) (hb : ok b)
    (henc : enc a = enc b) : a = b := by
  refine hp.unique (s := new s (enc a)) ha hb List.prefix_rfl ?_
  rw [henc]
  exact List.prefix_rfl

theorem Op.eq_of_args {op op' : Op} (hix : op.ix = op'.ix) (hop : op.Encodable)
    (hop' : op'.Encodable) (h : op.args = op'.args) : op = op' := by
  cases op with
  | addVm m =>
    cases op' <;> cases hix
    exact congrArg addVm (Reader.eq_of_encode AddVerificationMethod.readMethod_reads hop hop' h)
  | removeVm fragment =>
    cases op' <;> cases hix
    exact congrArg removeVm (Reader.eq_of_encode str_reads hop hop' h)
  | setFlags fragment flags =>
    cases op' with
    | setFlags fragment' flags' =>
      cases Reader.eq_of_encode SetVerificationMethodFlags.readFlags_reads (a := (fragment, flags))
        (b := (fragment', flags')) hop hop' h
      rfl
    | _ => cases hix
  | addService svc =>
    cases op' <;> cases hix
    exact congrArg addService (Reader.eq_of_encode readService_reads hop hop' h)
  | updateService svc =>
    cases op' <;> cases hix
    exact congrArg updateService (Reader.eq_of_encode readService_reads hop hop' h)
  | removeService fragment =>
    cases op' <;> cases hix
    exact congrArg removeService (Reader.eq_of_encode str_reads hop hop' h)
  | setControllers natives others =>
    cases op' with
    | setControllers natives' others' =>
      cases Reader.eq_of_encode SetControllers.readLists_reads (a := (natives, others))
        (b := (natives', others')) hop hop' h
      rfl
    | _ => cases hix
  | deactivate =>
    cases op' <;> cases hix
    rfl

/-! ### The same call twice -/

/-- One instruction for all of its kind: those that create, those that update. -/
def Ix.kind : Ix → Ix
  | initializeDid | initializeOwned => initializeDid
  | createKeyBuffer => createKeyBuffer
  | writeKeyBuffer => writeKeyBuffer
  | addVerificationMethodFromBuffer => addVerificationMethodFromBuffer
  | closeKeyBuffer => closeKeyBuffer
  | _ => deactivate

def Effect.kind : Effect → Ix
  | create _ _ => .initializeDid
  | update _ _ _ _ => .deactivate
  | openBuffer _ _ => .createKeyBuffer
  | writeBuffer _ _ _ _ => .writeKeyBuffer
  | finish _ _ _ _ _ => .addVerificationMethodFromBuffer
  | closeBuffer _ _ => .closeKeyBuffer

theorem Op.kind_ix (op : Op) : op.ix.kind = .deactivate := by cases op <;> rfl

theorem Performs.kind_eq {e : Effect} {log : List Bytes} (h : Performs P c L e L' log) :
    c.ix.map Ix.kind = some e.kind := by
  cases h with
  | create founds pays target found vacant rent funds clock =>
    rcases founds.ix_cases with hix | hix <;> rw [hix] <;> rfl
  | update ix => rw [ix, Option.map_some, Op.kind_ix, Effect.kind]
  | openBuffer ix | writeBuffer ix | finish ix | closeBuffer ix =>
    rw [ix]
    rfl

/-- The calls have the same accounts and the same data. -/
structure Call.Repeats (c c' : Call) : Prop where
  accounts : c'.accounts = c.accounts
  data : c'.data = c.data

namespace Call.Repeats

variable (h : c.Repeats c')

include h

theorem ix : c'.ix = c.ix := by unfold Call.ix; rw [h.data]

theorem args : c'.args = c.args := by unfold Call.args; rw [h.data]

theorem account (pos : Ix → Option ℕ) : c'.account pos = c.account pos := by
  unfold Call.account
  rw [h.ix, h.accounts]

end Call.Repeats

/-- The DID and the key buffer of the call hold the same data on both ledgers. -/
def Call.Undisturbed (c : Call) (L L' : Ledger) : Prop :=
  ∀ v, c.didAccount = some v ∨ c.keyBuffer = some v → (L' v.address).data = (L v.address).data

/-- What a call may do a second time: it stamps the document it made. -/
structure Stamps (P : Platform) (c : Call) (L L' : Ledger) (did : AccountView) (d : Document)
    (now : Int64) : Prop where
  target : c.didAccount = some did
  document : L.DidAt P did.address d
  clock : c.sysvars.clock = .ok now
  result : L' = L.store did.address
    { d with version := saturatingSucc d.version, updatedAt := now }.encode

section Again

variable {log log' : List Bytes}

theorem not_created_again {a a' : Address} {d d' : Document}
    (h : Performs P c L (.create a d) L₁ log) (hsame : c.Repeats c') (hdata : c.Undisturbed L₁ L₂) :
    ¬Performs P c' L₂ (.create a' d') L₃ log' := by
  intro h'
  cases h with
  | create founds pays target found vacant rent funds clock =>
    cases h' with
    | create founds' pays' target' found' vacant' =>
      obtain rfl := Option.some.inj (target.symm.trans ((hsame.account _).symm.trans target'))
      have hbytes := (hdata _ (Or.inl target)).symm.trans vacant'.2
      rw [Ledger.create_data] at hbytes
      have hlen := congrArg List.length hbytes
      rw [Document.length_initial] at hlen
      cases hlen

theorem not_opened_again {a a' : Address} {kb kb' : KeyBuffer}
    (h : Performs P c L (.openBuffer a kb) L₁ log) (hsame : c.Repeats c')
    (hdata : c.Undisturbed L₁ L₂) : ¬Performs P c' L₂ (.openBuffer a' kb') L₃ log' := by
  intro h'
  cases h with
  | openBuffer ix args encodable signed pays target named opens =>
    cases h' with
    | openBuffer ix' args' encodable' signed' pays' target' named' opens' =>
      obtain rfl := Option.some.inj (named.symm.trans ((hsame.account _).symm.trans named'))
      obtain ⟨need, L₄, -, -, rfl⟩ := opens.created
      have hbytes := (hdata _ (Or.inr named)).symm.trans opens'.vacant.2
      rw [Ledger.create_data] at hbytes
      have hlen := congrArg List.length hbytes
      rw [KeyBuffer.length_encode, keyBufferHeader] at hlen
      simp at hlen

theorem not_written_again {a a' : Address} {kb kb₁ kb' kb₁' : KeyBuffer} {chunk chunk' : Bytes}
    (h : Performs P c L (.writeBuffer a kb kb₁ chunk) L₁ log) (hsame : c.Repeats c')
    (hdata : c.Undisturbed L₁ L₂) :
    ¬Performs P c' L₂ (.writeBuffer a' kb' kb₁' chunk') L₃ log' := by
  intro h'
  cases h with
  | writeBuffer ix args signed named staged nonempty next fits =>
    cases h' with
    | writeBuffer ix' args' signed' named' staged' nonempty' next' fits' =>
      obtain rfl := Option.some.inj (named.symm.trans ((hsame.account _).symm.trans named'))
      have hbytes := (hdata _ (Or.inr named)).symm.trans staged'.data_eq
      rw [Ledger.store_data] at hbytes
      obtain rfl := KeyBuffer.encode_injective hbytes
      -- The arguments are the same, so the offset is the old length and the new one.
      have hargs := args.symm.trans (hsame.args.symm.trans args')
      have hlen : chunk.length < 2 ^ 32 := by
        have := kb.keyLen_lt
        omega
      have hlen' : chunk'.length < 2 ^ 32 := by
        have := (kb.append chunk fits).keyLen_lt
        omega
      obtain ⟨rfl, rfl⟩ := Prod.mk.inj (Reader.eq_of_encode WriteKeyBuffer.readChunk_reads
        (a := (_, chunk)) (b := (_, chunk')) hlen hlen' hargs)
      rw [next] at next'
      change _ = (kb.received ++ chunk).length at next'
      rw [List.length_append] at next'
      exact nonempty (List.eq_nil_of_length_eq_zero (by omega))

theorem not_closed_staged {b : Address} {kb : KeyBuffer} (hgone : L₁ b = ⟨0, [], systemProgram⟩)
    (hdata : (L₂ b).data = (L₁ b).data) : ¬Staged P L₂ b kb := by
  intro hstaged
  have hbytes := hstaged.data_eq.symm.trans hdata
  have hlen := congrArg List.length hbytes
  rw [hgone, KeyBuffer.length_encode, keyBufferHeader] at hlen
  simp at hlen

theorem not_finished_again {a a' b b' : Address} {d d₁ d' d₁' : Document} {kb kb' : KeyBuffer}
    (h : Performs P c L (.finish a d d₁ b kb) L₁ log) (hsame : c.Repeats c')
    (hdata : c.Undisturbed L₁ L₂) : ¬Performs P c' L₂ (.finish a' d' d₁' b' kb') L₃ log' := by
  intro h'
  have hgone := (h.gone (Or.inl ⟨_, _, _, rfl⟩)).2.2
  cases h with
  | finish ix args signed pays target named =>
    cases h' with
    | finish ix' args' signed' pays' target' named' staged' =>
      obtain rfl := Option.some.inj (named.symm.trans ((hsame.account _).symm.trans named'))
      exact not_closed_staged hgone (hdata _ (Or.inr named)) staged'

theorem not_closed_again {b b' : Address} {kb kb' : KeyBuffer}
    (h : Performs P c L (.closeBuffer b kb) L₁ log) (hsame : c.Repeats c')
    (hdata : c.Undisturbed L₁ L₂) : ¬Performs P c' L₂ (.closeBuffer b' kb') L₃ log' := by
  intro h'
  have hgone := (h.gone (Or.inr rfl)).2.2
  cases h with
  | closeBuffer ix args signed pays named =>
    cases h' with
    | closeBuffer ix' args' signed' pays' named' staged' =>
      obtain rfl := Option.some.inj (named.symm.trans ((hsame.account _).symm.trans named'))
      exact not_closed_staged hgone (hdata _ (Or.inr named)) staged'

/-- An update goes through again only if it sets values, which are set already. -/
theorem updated_again {a a' : Address} {d d₁ d' d₁' : Document} {op op' : Op}
    (h : Performs P c L (.update a d op d₁) L₁ log) (hsame : c.Repeats c')
    (hdata : c.Undisturbed L₁ L₂) (h' : Performs P c' L₂ (.update a' d' op' d₁') L₃ log') :
    op.Sets ∧ c.ix = some op.ix ∧ ∃ did now, Stamps P c' L₂ L₃ did d' now := by
  cases h with
  | update ix args signed pays target isDid authorized applied clock settled =>
    cases h' with
    | update ix' args' signed' pays' target' isDid' authorized' applied' clock' settled' =>
      rename_i payer did key body now L₄ payer' did' key' body' now' L₅
      obtain rfl := Option.some.inj (target.symm.trans ((hsame.account _).symm.trans target'))
      have hbytes := (hdata _ (Or.inl target)).symm.trans isDid'.data_eq
      rw [Ledger.store_data] at hbytes
      have hfits := (isDid.wellFormed.updated authorized.1 applied now).fits
      obtain rfl := Document.encode_injective hfits isDid'.fits hbytes
      have hop := (isDid.wellFormed.body.encodable_of_apply applied).1
      have hop' := (isDid'.wellFormed.body.encodable_of_apply applied').1
      have hix : op.ix = op'.ix := Option.some.inj (ix.symm.trans (hsame.ix.symm.trans ix'))
      obtain rfl := Op.eq_of_args hix hop hop' (args.symm.trans (hsame.args.symm.trans args'))
      -- A second deactivation would meet a deactivated document.
      have hkeeps : op ≠ .deactivate := by
        rintro rfl
        have hlive := authorized'.1
        rw [Document.updated, if_pos rfl] at hlive
        cases hlive
      obtain ⟨hsets, rfl⟩ := isDid.wellFormed.body.apply_again hkeeps applied applied'
      have hkept : L₅ = L₂ := by
        rcases settled' with ⟨-, hkept⟩ | ⟨hresized, -⟩
        · exact hkept
        · exact absurd (by rw [Document.length_updated, Document.length_updated]) hresized
      refine ⟨hsets, ix, did, now', target', isDid'.didAt, clock', ?_⟩
      rw [hkept]
      simp only [Document.updated, if_neg hkeeps]

end Again

/-- An accepted call that is sent again, before its DID and its key buffer changed, is refused
or is one that sets values. Then it stamps the document it made: no other account changes, no
lamports move, and the lists stay as they are. -/
theorem retries_harmless (hP : P.Lawful) (h₀ : Fresh L₀) {before between : List Turn}
    {log log' : List Bytes} (hbefore : Run (Step P) L₀ before L)
    (hfirst : invoke P c L = .ok (L₁, log)) (hbetween : Run (Step P) L₁ between L₂)
    (hdata : c.Undisturbed L₁ L₂) (hsame : c.Repeats c')
    (hagain : invoke P c' L₂ = .ok (L₃, log')) :
    (c.ix = some .setVerificationMethodFlags ∨ c.ix = some .updateService ∨
      c.ix = some .setControllers) ∧ ∃ did d now, Stamps P c' L₂ L₃ did d now := by
  have hS : Sound P L := sound_of_run hP h₀ hbefore
  obtain ⟨e, h⟩ := exists_performs hP hS hfirst
  have hS₂ : Sound P L₂ := hbetween.invariant (fun _ _ _ hS h => h.sound hP hS) (h.sound hP hS)
  obtain ⟨e', h'⟩ := exists_performs hP hS₂ hagain
  have hkind : e.kind = e'.kind := by
    have hfirst := h.kind_eq
    rw [← hsame.ix, h'.kind_eq] at hfirst
    exact (Option.some.inj hfirst).symm
  cases e with
  | create =>
    cases e' with
    | create => exact absurd h' (not_created_again h hsame hdata)
    | _ => cases hkind
  | update =>
    cases e' with
    | update =>
      obtain ⟨hsets, hix, did, now, hstamps⟩ := updated_again h hsame hdata h'
      refine ⟨?_, did, _, now, hstamps⟩
      simpa only [hix, Option.some.injEq, Op.Sets] using hsets
    | _ => cases hkind
  | openBuffer =>
    cases e' with
    | openBuffer => exact absurd h' (not_opened_again h hsame hdata)
    | _ => cases hkind
  | writeBuffer =>
    cases e' with
    | writeBuffer => exact absurd h' (not_written_again h hsame hdata)
    | _ => cases hkind
  | finish =>
    cases e' with
    | finish => exact absurd h' (not_finished_again h hsame hdata)
    | _ => cases hkind
  | closeBuffer =>
    cases e' with
    | closeBuffer => exact absurd h' (not_closed_again h hsame hdata)
    | _ => cases hkind

namespace Sample

def flagging : Call :=
  send (Client.setVerificationMethodFlags platform subject subject [112] vmFlagsDefault)

end Sample

/-- Flags that are set twice. -/
theorem retries_harmless_sample :
    let L := afterAll Sample.platform [Sample.creation, Sample.protection] Sample.ledger
    let L₁ := after Sample.platform Sample.flagging L
    ∃ did d now, Stamps Sample.platform Sample.flagging L₁
      (after Sample.platform Sample.flagging L₁) did d now := by
  intro L L₁
  obtain ⟨log, hfirst⟩ := invoke_after (P := Sample.platform) (c := Sample.flagging) (L := L)
    (by decide +kernel)
  obtain ⟨log', hagain⟩ := invoke_after (P := Sample.platform) (c := Sample.flagging) (L := L₁)
    (by decide +kernel)
  exact (retries_harmless Sample.platform_lawful Sample.ledger_fresh (run_of_calls _ _) hfirst
    .start (fun _ _ => rfl) ⟨rfl, rfl⟩ hagain).2

end BioDidRegistry
