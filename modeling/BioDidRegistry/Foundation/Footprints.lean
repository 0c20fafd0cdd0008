import Mathlib.Data.List.Basic
import Mathlib.Data.List.Perm.Basic
import Mathlib.Logic.Relation
import Mathlib.Tactic

/-!
# Operations with footprints

An operation on a store names cells and may write some of them. It is local when its answer
and what it writes depend on the named cells only. Two operations neither of which writes a
cell the other names may be exchanged, and two orders of the same operations that keep the
related ones in order lead to the same store and give the same answers.
-/

namespace Footprint

variable {ι κ V β : Type*}

/-! ### Orders -/

section Orders

variable {unrelated : ι → ι → Prop} {is js : List ι} {i j : ι}

/-- Two neighbours exchanged. -/
inductive Exchange (unrelated : ι → ι → Prop) : List ι → List ι → Prop
  | mk (is js : List ι) {i j : ι} (h : unrelated i j) :
      Exchange unrelated (is ++ i :: j :: js) (is ++ j :: i :: js)

theorem Exchange.cons (i : ι) (h : Exchange unrelated is js) :
    Exchange unrelated (i :: is) (i :: js) := by
  obtain ⟨is, js, h⟩ := h
  exact Exchange.mk (i :: is) js h

/-- Unrelated neighbours exchanged, any number of times. -/
def Reordered (unrelated : ι → ι → Prop) : List ι → List ι → Prop :=
  Relation.ReflTransGen (Exchange unrelated)

open Classical in
noncomputable def only (i j : ι) (is : List ι) : List ι := is.filter fun k => k = i ∨ k = j

theorem mem_only {k : ι} : k ∈ only i j is ↔ k ∈ is ∧ (k = i ∨ k = j) := by
  simp [only]

theorem only_append : only i j (is ++ js) = only i j is ++ only i j js := List.filter_append ..

theorem only_cons_left : only i j (i :: is) = i :: only i j is := by
  simp [only]

theorem only_cons_of_ne {k : ι} (h : ¬(k = i ∨ k = j)) : only i j (k :: is) = only i j is := by
  simp [only, h]

theorem only_cons_congr {k : ι} (h : only i j is = only i j js) :
    only i j (k :: is) = only i j (k :: js) := by
  rw [← List.singleton_append, only_append, h, ← only_append, List.singleton_append]

theorem only_cons_inj {k : ι} (h : only i j (k :: is) = only i j (k :: js)) :
    only i j is = only i j js := by
  by_cases hk : k = i ∨ k = j
  · simpa [only, hk] using h
  · rwa [only_cons_of_ne hk, only_cons_of_ne hk] at h

namespace Reordered

theorem cons (i : ι) (h : Reordered unrelated is js) :
    Reordered unrelated (i :: is) (i :: js) :=
  Relation.ReflTransGen.lift (List.cons i) (fun _ _ h => h.cons i) _ _ h

theorem symm (hsymm : ∀ i j, unrelated i j → unrelated j i) (h : Reordered unrelated is js) :
    Reordered unrelated js is := by
  induction h with
  | refl => exact Relation.ReflTransGen.refl
  | tail _ hlast ih =>
    obtain ⟨is, js, h⟩ := hlast
    exact ih.head (Exchange.mk is js (hsymm _ _ h))

theorem perm (h : Reordered unrelated is js) : is.Perm js := by
  induction h with
  | refl => rfl
  | tail _ hlast ih =>
    obtain ⟨is, js, -⟩ := hlast
    exact ih.trans ((List.Perm.swap _ _ _).append_left is)

theorem to_front (h : ∀ u ∈ is, unrelated u i) :
    Reordered unrelated (is ++ i :: js) (i :: (is ++ js)) := by
  induction is with
  | nil => exact Relation.ReflTransGen.refl
  | cons u us ih =>
    obtain ⟨hu, hus⟩ := List.forall_mem_cons.mp h
    exact ((ih hus).cons u).trans (.single (Exchange.mk [] _ hu))

theorem only_eq (hsymm : ∀ i j, unrelated i j → unrelated j i) (h : Reordered unrelated is js)
    (hij : ¬unrelated i j) : only i j is = only i j js := by
  induction h with
  | refl => rfl
  | tail _ hlast ih =>
    obtain @⟨is, js, k, l, hkl⟩ := hlast
    rw [ih, only_append, only_append, List.append_right_inj]
    by_cases hk : k = i ∨ k = j
    · by_cases hl : l = i ∨ l = j
      · -- Two of these that may be exchanged are the same.
        have hsame : k = l := by
          rcases hk with hki | hkj <;> rcases hl with hli | hlj
          · rw [hki, hli]
          · exact absurd (hki ▸ hlj ▸ hkl) hij
          · exact absurd (hsymm _ _ (hkj ▸ hli ▸ hkl)) hij
          · rw [hkj, hlj]
        rw [hsame]
      · rw [only_cons_of_ne hl, only_cons_congr (only_cons_of_ne hl)]
    · rw [only_cons_of_ne hk, only_cons_congr (only_cons_of_ne hk)]

/-- Of two operations that may be exchanged at most one has the property, so those that have
it stay in order. -/
theorem filter_eq {p : ι → Bool} (hp : ∀ i j, unrelated i j → p i = true → p j = false)
    (h : Reordered unrelated is js) : is.filter p = js.filter p := by
  induction h with
  | refl => rfl
  | tail _ hlast ih =>
    obtain @⟨is, js, i, j, hij⟩ := hlast
    rw [ih, List.filter_append, List.filter_append, List.append_right_inj]
    cases hi : p i with
    | true => rw [List.filter_cons_of_pos hi, List.filter_cons, List.filter_cons, hp i j hij hi,
        if_neg Bool.false_ne_true, if_neg Bool.false_ne_true, List.filter_cons_of_pos hi]
    | false =>
      simp only [List.filter_cons, hi, Bool.false_eq_true, if_false]

end Reordered

/-- Orders of the same operations are reached by exchanges exactly if they have the related
ones in the same order. -/
theorem reordered_iff (hsymm : ∀ i j, unrelated i j → unrelated j i) :
    Reordered unrelated is js ↔
      is.Perm js ∧ ∀ i j, ¬unrelated i j → only i j is = only i j js := by
  constructor
  · exact fun h => ⟨h.perm, fun i j hij => h.only_eq hsymm hij⟩
  · rintro ⟨hperm, honly⟩
    induction is generalizing js with
    | nil =>
      rw [hperm.symm.eq_nil]
      exact Relation.ReflTransGen.refl
    | cons i is ih =>
      obtain ⟨us, vs, rfl, hus⟩ := List.eq_append_cons_of_mem (hperm.subset (List.mem_cons_self ..))
      -- Nothing related to `i` comes before its first occurrence.
      have hfront : ∀ u ∈ us, unrelated u i := by
        intro u hu
        by_contra hrelated
        have heq := honly i u fun h => hrelated (hsymm _ _ h)
        rw [only_cons_left, only_append] at heq
        have hmem : u ∈ only i u us := mem_only.mpr ⟨hu, Or.inr rfl⟩
        cases hbefore : only i u us with
        | nil =>
          rw [hbefore] at hmem
          cases hmem
        | cons w ws =>
          rw [hbefore, List.cons_append, List.cons.injEq] at heq
          have hw : w ∈ only i u us := hbefore ▸ List.mem_cons_self ..
          exact hus (heq.1 ▸ (mem_only.mp hw).1)
      have hmove : Reordered unrelated (us ++ i :: vs) (i :: (us ++ vs)) := .to_front hfront
      have hrest : Reordered unrelated is (us ++ vs) := by
        apply ih
        · exact (hperm.trans hmove.perm).cons_inv
        · intro k l hkl
          exact only_cons_inj ((honly k l hkl).trans (hmove.only_eq hsymm hkl))
      exact (hrest.cons i).trans (hmove.symm hsymm)

end Orders

/-! ### Local operations -/

/-- The store after an operation, which a refused one leaves as it is. -/
def after (run : ι → (κ → V) → Option ((κ → V) × β)) (i : ι) (s : κ → V) : κ → V :=
  (run i s).elim s Prod.fst

def afterAll (run : ι → (κ → V) → Option ((κ → V) × β)) (is : List ι) (s : κ → V) : κ → V :=
  is.foldl (fun s i => after run i s) s

/-- Each operation with its answer, if it is not refused. -/
def answers (run : ι → (κ → V) → Option ((κ → V) × β)) : List ι → (κ → V) → List (ι × Option β)
  | [], _ => []
  | i :: is, s => (i, (run i s).map Prod.snd) :: answers run is (after run i s)

/-- On the good stores the operations write only the cells written, and what they do there
depends on the cells named. -/
structure Local (run : ι → (κ → V) → Option ((κ → V) × β)) (named written : ι → Set κ)
    (Good : (κ → V) → Prop) : Prop where
  sub : ∀ i, written i ⊆ named i
  good : ∀ i s s' b, Good s → run i s = some (s', b) → Good s'
  frame : ∀ i s s' b, Good s → run i s = some (s', b) → ∀ a ∉ written i, s' a = s a
  same : ∀ i s t s' b, Good s → Good t → (∀ a ∈ named i, t a = s a) → run i s = some (s', b) →
    ∃ t', run i t = some (t', b) ∧ ∀ a, t a = s a → t' a = s' a

/-- Neither writes a cell the other names. -/
def Unrelated (named written : ι → Set κ) (i j : ι) : Prop :=
  (∀ a ∈ written i, a ∉ named j) ∧ ∀ a ∈ written j, a ∉ named i

theorem Unrelated.symm {named written : ι → Set κ} {i j : ι} (h : Unrelated named written i j) :
    Unrelated named written j i := ⟨h.2, h.1⟩

namespace Local

variable {run : ι → (κ → V) → Option ((κ → V) × β)} {named written : ι → Set κ}
  {Good : (κ → V) → Prop} {s t : κ → V} {i j : ι} {a : κ}

theorem good_after (h : Local run named written Good) (hs : Good s) (i : ι) :
    Good (after run i s) := by
  unfold after
  cases hi : run i s with
  | none => exact hs
  | some r => exact h.good i s r.1 r.2 hs hi

theorem after_eq (h : Local run named written Good) (hs : Good s) (ha : a ∉ written i) :
    after run i s a = s a := by
  unfold after
  cases hi : run i s with
  | none => rfl
  | some r => exact h.frame i s r.1 r.2 hs hi a ha

/-- Where the named cells agree, the answers and all agreement are the same. -/
theorem congr (h : Local run named written Good) (hs : Good s) (ht : Good t)
    (hsame : ∀ a ∈ named i, t a = s a) :
    (run i t).map Prod.snd = (run i s).map Prod.snd ∧
      ∀ a, t a = s a → after run i t a = after run i s a := by
  unfold after
  cases hi : run i s with
  | some r =>
    obtain ⟨t', ht', hagree⟩ := h.same i s t r.1 r.2 hs ht hsame hi
    rw [ht']
    exact ⟨rfl, hagree⟩
  | none =>
    cases hi' : run i t with
    | none => exact ⟨rfl, fun a ha => ha⟩
    | some r =>
      have hback : ∀ a ∈ named i, s a = t a := fun a ha => (hsame a ha).symm
      obtain ⟨s', hs', -⟩ := h.same i t s r.1 r.2 ht hs hback hi'
      rw [hi] at hs'
      cases hs'

theorem congr_after (h : Local run named written Good) (hs : Good s)
    (hij : Unrelated named written i j) :
    (run j (after run i s)).map Prod.snd = (run j s).map Prod.snd ∧
      ∀ a ∉ written i, after run j (after run i s) a = after run j s a := by
  have hnamed : ∀ a ∈ named j, after run i s a = s a := fun a ha =>
    h.after_eq hs fun hwritten => hij.1 a hwritten ha
  obtain ⟨hanswer, hcells⟩ := h.congr hs (h.good_after hs i) hnamed
  exact ⟨hanswer, fun a ha => hcells a (h.after_eq hs ha)⟩

theorem after_comm (h : Local run named written Good) (hs : Good s)
    (hij : Unrelated named written i j) :
    after run j (after run i s) = after run i (after run j s) := by
  have hi : ∀ a ∈ written i, a ∉ written j := fun a ha hj =>
    hij.2 a hj (h.sub i ha)
  funext a
  by_cases ha : a ∈ written i
  · rw [h.after_eq (h.good_after hs i) (hi a ha)]
    exact ((h.congr_after hs hij.symm).2 a (hi a ha)).symm
  · rw [h.after_eq (h.good_after hs j) ha]
    exact (h.congr_after hs hij).2 a ha

theorem afterAll_exchange (h : Local run named written Good) (hs : Good s) {is js : List ι}
    (hswap : Exchange (Unrelated named written) is js) :
    afterAll run is s = afterAll run js s ∧
      Exchange (fun x y => Unrelated named written x.1 y.1) (answers run is s)
        (answers run js s) := by
  obtain @⟨us, vs, i, j, hij⟩ := hswap
  induction us generalizing s with
  | nil =>
    have hcomm := h.after_comm hs hij
    refine ⟨?_, ?_⟩
    · change afterAll run vs (after run j (after run i s)) =
        afterAll run vs (after run i (after run j s))
      rw [hcomm]
    · simp only [List.nil_append, answers, (h.congr_after hs hij).1,
        (h.congr_after hs hij.symm).1, hcomm]
      exact Exchange.mk [] _ hij
  | cons u us ih =>
    obtain ⟨hstore, hanswers⟩ := ih (h.good_after hs u)
    exact ⟨hstore, hanswers.cons _⟩

/-- Orders with the related operations in the same order lead to the same store and give the
same answers. -/
theorem afterAll_reordered (h : Local run named written Good) (hs : Good s) {is js : List ι}
    (horder : Reordered (Unrelated named written) is js) :
    afterAll run is s = afterAll run js s ∧
      Reordered (fun x y => Unrelated named written x.1 y.1) (answers run is s)
        (answers run js s) := by
  induction horder with
  | refl => exact ⟨rfl, Relation.ReflTransGen.refl⟩
  | tail _ hlast ih =>
    obtain ⟨hstore, hanswers⟩ := h.afterAll_exchange hs hlast
    exact ⟨ih.1.trans hstore, ih.2.tail hanswers⟩

end Local

end Footprint
