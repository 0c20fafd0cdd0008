import Mathlib.Data.List.Basic
import Mathlib.Data.List.Infix
import Mathlib.Tactic

/-!
# Exact readers over a cursor

A reader is a stateful computation that consumes cells from the front of a
cursor. `Reads p enc ok` says that `p` accepts exactly the encodings `enc a` of
the values with `ok a`, and then stands right after them. One such fact serves
both directions, what a reader returns on encoded input and what the input was
when it succeeded, and it makes the encoding unambiguous.
-/

namespace BinaryFormat

variable {ε σ α γ β : Type}

/-- A position in a list of cells that only moves forward. -/
class Cursor (σ : Type) (β : outParam Type) where
  rest : σ → List β
  advance : ℕ → σ → σ
  rest_advance : ∀ n s, rest (advance n s) = (rest s).drop n
  advance_zero : ∀ s, advance 0 s = s
  advance_advance : ∀ m n s, advance n (advance m s) = advance (m + n) s

attribute [simp] Cursor.rest_advance Cursor.advance_zero Cursor.advance_advance

open Cursor

theorem bind_ok_iff {p : EStateM ε σ α} {f : α → EStateM ε σ γ} {s s' : σ} {c : γ} :
    (p >>= f) s = .ok c s' ↔ ∃ a s₁, p s = .ok a s₁ ∧ f a s₁ = .ok c s' := by
  change EStateM.bind p f s = _ ↔ _
  unfold EStateM.bind
  cases p s with
  | ok a s₁ => simp
  | error e s₁ => simp

theorem bind_of_ok {p : EStateM ε σ α} {f : α → EStateM ε σ γ} {s s₁ : σ} {a : α}
    (h : p s = .ok a s₁) : (p >>= f) s = f a s₁ := by
  change EStateM.bind p f s = _
  simp [EStateM.bind, h]

theorem bind_of_error {p : EStateM ε σ α} {f : α → EStateM ε σ γ} {s s₁ : σ} {e : ε}
    (h : p s = .error e s₁) : (p >>= f) s = .error e s₁ := by
  change EStateM.bind p f s = _
  simp [EStateM.bind, h]

theorem pure_ok_iff {a b : α} {s s' : σ} :
    (pure a : EStateM ε σ α) s = .ok b s' ↔ b = a ∧ s' = s := by
  change EStateM.Result.ok a s = .ok b s' ↔ _
  simp [eq_comm]

theorem append_prefix_iff {xs ys l : List β} :
    xs ++ ys <+: l ↔ xs <+: l ∧ ys <+: l.drop xs.length := by
  constructor
  · rintro ⟨t, rfl⟩
    exact ⟨⟨ys ++ t, by simp⟩, ⟨t, by simp⟩⟩
  · rintro ⟨⟨t, rfl⟩, u, hu⟩
    rw [List.drop_left] at hu
    exact ⟨u, by simp [hu]⟩

theorem prefix_eq_append {xs l : List β} (h : xs <+: l) : l = xs ++ l.drop xs.length := by
  obtain ⟨t, rfl⟩ := h
  simp

/-- `p` accepts exactly the encodings of the valid values and consumes them. -/
def Reads [Cursor σ β] (p : EStateM ε σ α) (enc : α → List β) (ok : α → Prop) : Prop :=
  ∀ s a s', p s = .ok a s' ↔ ok a ∧ enc a <+: rest s ∧ s' = advance (enc a).length s

/-- `p` read `n` times, collecting what it returned. -/
def collect (p : EStateM ε σ α) : ℕ → EStateM ε σ (List α)
  | 0 => pure []
  | n + 1 => do
    let a ← p
    let as ← collect p n
    pure (a :: as)

namespace Reads

variable [Cursor σ β] {p : EStateM ε σ α} {enc : α → List β} {ok : α → Prop}

theorem run (h : Reads p enc ok) {s : σ} {a : α} (ha : ok a) (hs : enc a <+: rest s) :
    p s = .ok a (advance (enc a).length s) :=
  (h s a _).mpr ⟨ha, hs, rfl⟩

theorem bind_ok_iff (h : Reads p enc ok) {f : α → EStateM ε σ γ} {s s' : σ} {c : γ} :
    (p >>= f) s = .ok c s' ↔
      ∃ a, (ok a ∧ enc a <+: rest s) ∧ f a (advance (enc a).length s) = .ok c s' := by
  rw [BinaryFormat.bind_ok_iff]
  constructor
  · rintro ⟨a, s₁, hp, hf⟩
    obtain ⟨ha, hpre, rfl⟩ := (h s a s₁).mp hp
    exact ⟨a, ⟨ha, hpre⟩, hf⟩
  · rintro ⟨a, ⟨ha, hpre⟩, hf⟩
    exact ⟨a, _, h.run ha hpre, hf⟩

theorem bind_run (h : Reads p enc ok) {f : α → EStateM ε σ γ} {s : σ} {a : α} (ha : ok a)
    (hs : enc a <+: rest s) : (p >>= f) s = f a (advance (enc a).length s) :=
  bind_of_ok (h.run ha hs)

/-- One field of a known input: its value, and a cursor at what follows it. -/
theorem bind_append (h : Reads p enc ok) {s : σ} {a : α} {ys : List β} (ha : ok a)
    (hs : rest s = enc a ++ ys) :
    ∃ s₁ : σ, rest s₁ = ys ∧ ∀ {γ : Type} (f : α → EStateM ε σ γ), (p >>= f) s = f a s₁ := by
  refine ⟨advance (enc a).length s, ?_, fun f => h.bind_run ha (hs ▸ List.prefix_append _ _)⟩
  rw [rest_advance, hs, List.drop_left]

theorem unique (h : Reads p enc ok) {s : σ} {a b : α} (ha : ok a) (hb : ok b)
    (hpa : enc a <+: rest s) (hpb : enc b <+: rest s) : a = b := by
  have he := (h.run ha hpa).symm.trans (h.run hb hpb)
  exact (EStateM.Result.ok.inj he).1

theorem collect (h : Reads p enc ok) (n : ℕ) :
    Reads (collect p n) (List.flatMap enc) fun as => as.length = n ∧ ∀ a ∈ as, ok a := by
  induction n with
  | zero =>
    intro s as s'
    simp only [BinaryFormat.collect, pure_ok_iff]
    constructor
    · rintro ⟨rfl, rfl⟩
      simp
    · rintro ⟨⟨hlen, -⟩, -, rfl⟩
      rw [List.length_eq_zero_iff.mp hlen]
      simp
  | succ n ih =>
    intro s as s'
    simp only [BinaryFormat.collect, h.bind_ok_iff, ih.bind_ok_iff, pure_ok_iff]
    constructor
    · rintro ⟨a, ⟨ha, hpa⟩, bs, ⟨⟨hlen, hbs⟩, hpb⟩, rfl, rfl⟩
      rw [rest_advance] at hpb
      refine ⟨⟨by simp [hlen], by simpa using ⟨ha, hbs⟩⟩, ?_, ?_⟩
      · rw [List.flatMap_cons, append_prefix_iff]
        exact ⟨hpa, hpb⟩
      · simp [advance_advance]
    · rintro ⟨⟨hlen, hok⟩, hpre, rfl⟩
      cases as with
      | nil => simp at hlen
      | cons a bs =>
        rw [List.flatMap_cons, append_prefix_iff] at hpre
        obtain ⟨ha, hbs⟩ := List.forall_mem_cons.mp hok
        refine ⟨a, ⟨ha, hpre.1⟩, bs, ⟨⟨by simpa using hlen, hbs⟩, ?_⟩, rfl, ?_⟩
        · rw [rest_advance]
          exact hpre.2
        · simp [advance_advance]

theorem map (h : Reads p enc ok) {f : α → γ} {enc' : γ → List β} {ok' : γ → Prop}
    (hf : ∀ c, ok' c → ∃ a, ok a ∧ f a = c ∧ enc a = enc' c)
    (hok : ∀ a, ok a → ok' (f a) ∧ enc' (f a) = enc a) :
    Reads (p >>= fun a => pure (f a)) enc' ok' := by
  intro s c s'
  simp only [h.bind_ok_iff, pure_ok_iff]
  constructor
  · rintro ⟨a, ⟨ha, hpre⟩, rfl, rfl⟩
    obtain ⟨hc, henc⟩ := hok a ha
    exact ⟨hc, henc ▸ hpre, by rw [henc]⟩
  · rintro ⟨hc, hpre, rfl⟩
    obtain ⟨a, ha, rfl, henc⟩ := hf c hc
    exact ⟨a, ⟨ha, henc ▸ hpre⟩, rfl, by rw [henc]⟩

end Reads

/-- `p` walks over exactly the encodings of the valid values, whatever it
returns. -/
def Skips [Cursor σ β] (p : EStateM ε σ α) (enc : γ → List β) (ok : γ → Prop) : Prop :=
  ∀ s s', (∃ a, p s = .ok a s') ↔
    ∃ c, (ok c ∧ enc c <+: rest s) ∧ s' = advance (enc c).length s

namespace Skips

variable [Cursor σ β] {δ : Type} {p : EStateM ε σ α} {enc : γ → List β} {ok : γ → Prop}

theorem of_reads {p : EStateM ε σ γ} (h : Reads p enc ok) : Skips p enc ok := by
  intro s s'
  constructor
  · rintro ⟨a, ha⟩
    obtain ⟨hok, hpre, rfl⟩ := (h s a s').mp ha
    exact ⟨a, ⟨hok, hpre⟩, rfl⟩
  · rintro ⟨c, ⟨hok, hpre⟩, rfl⟩
    exact ⟨c, h.run hok hpre⟩

theorem bind_ok_iff (h : Skips p enc ok) {f : EStateM ε σ δ} {s s' : σ} {d : δ} :
    (p >>= fun _ => f) s = .ok d s' ↔
      ∃ c, (ok c ∧ enc c <+: rest s) ∧ f (advance (enc c).length s) = .ok d s' := by
  rw [BinaryFormat.bind_ok_iff]
  constructor
  · rintro ⟨a, s₁, hp, hf⟩
    obtain ⟨c, hc, rfl⟩ := (h s s₁).mp ⟨a, hp⟩
    exact ⟨c, hc, hf⟩
  · rintro ⟨c, hc, hf⟩
    obtain ⟨a, ha⟩ := (h s _).mpr ⟨c, hc, rfl⟩
    exact ⟨a, _, ha, hf⟩

theorem collect (h : Skips p enc ok) (n : ℕ) :
    Skips (collect p n) (List.flatMap enc) fun cs => cs.length = n ∧ ∀ c ∈ cs, ok c := by
  induction n with
  | zero =>
    intro s s'
    simp only [BinaryFormat.collect, pure_ok_iff]
    constructor
    · rintro ⟨_, rfl, rfl⟩
      exact ⟨[], by simp⟩
    · rintro ⟨cs, ⟨⟨hlen, -⟩, -⟩, rfl⟩
      rw [List.length_eq_zero_iff.mp hlen]
      exact ⟨[], rfl, by simp⟩
  | succ n ih =>
    intro s s'
    simp only [BinaryFormat.collect]
    constructor
    · rintro ⟨_, hrun⟩
      obtain ⟨a, s₁, hp, hrest⟩ := BinaryFormat.bind_ok_iff.mp hrun
      obtain ⟨as, s₂, hps, hpure⟩ := BinaryFormat.bind_ok_iff.mp hrest
      obtain ⟨-, rfl⟩ := pure_ok_iff.mp hpure
      obtain ⟨c, ⟨hc, hpc⟩, rfl⟩ := (h s s₁).mp ⟨a, hp⟩
      obtain ⟨cs, ⟨⟨hlen, hcs⟩, hpcs⟩, rfl⟩ := (ih _ _).mp ⟨as, hps⟩
      rw [rest_advance] at hpcs
      refine ⟨c :: cs, ⟨⟨by simp [hlen], by simpa using ⟨hc, hcs⟩⟩, ?_⟩, by simp⟩
      rw [List.flatMap_cons, append_prefix_iff]
      exact ⟨hpc, hpcs⟩
    · rintro ⟨cs, ⟨⟨hlen, hok⟩, hpre⟩, rfl⟩
      cases cs with
      | nil => simp at hlen
      | cons c cs =>
        rw [List.flatMap_cons, append_prefix_iff] at hpre
        obtain ⟨hc, hcs⟩ := List.forall_mem_cons.mp hok
        obtain ⟨a, ha⟩ := (h s _).mpr ⟨c, ⟨hc, hpre.1⟩, rfl⟩
        obtain ⟨as, has⟩ := (ih (advance (enc c).length s) _).mpr
          ⟨cs, ⟨⟨by simpa using hlen, hcs⟩, by rw [rest_advance]; exact hpre.2⟩, rfl⟩
        refine ⟨a :: as, ?_⟩
        rw [bind_of_ok ha, bind_of_ok has]
        simp only [advance_advance, List.flatMap_cons, List.length_append]
        rfl

end Skips

end BinaryFormat
