import BioDidRegistry.Document.Authority
import BioDidRegistry.Document.WellFormed

/-!
# What the lists of a live document come to

An update leaves the methods in the order they were added in, less those removed, and adds
at most one at the end. So the founding method comes first as long as it is there, and a
sixteenth method was added while an authority was among the other fifteen. Flags come and
go, but a method keeps its type.
-/

namespace BioDidRegistry

namespace Body

variable {isCurvePoint : Bytes → Bool} {signer subject key : Address} {b b' : Body}

/-- The names and the types of the methods, in order. -/
def slots (b : Body) : List (Bytes × UInt8) := b.methods.map fun m => (m.fragment, m.methodType)

theorem length_slots (b : Body) : b.slots.length = b.methods.length := List.length_map _

/-- An update removes slots, or adds one that is not named as the founding method. -/
theorem slots_of_apply {op : Op} (h : b.apply isCurvePoint signer subject op = .ok b') :
    b'.slots.Sublist b.slots ∨
      ∃ m : Method, m.fragment ≠ defaultFragment ∧
        b'.slots = b.slots ++ [(m.fragment, m.methodType)] := by
  cases op with
  | addVm m =>
    obtain ⟨hm, -, rfl⟩ := addVm_ok_iff.mp h
    obtain ⟨-, -, -, hname, -⟩ := admits_ok_iff.mp hm
    exact Or.inr ⟨m, hname, by simp [slots]⟩
  | removeVm fragment =>
    obtain ⟨before, m, after, hsplit, -, -, -, rfl⟩ := removeVm_ok h
    refine Or.inl ?_
    rw [slots, slots, hsplit]
    exact ((List.sublist_cons_self m after).append_left before).map _
  | setFlags fragment flags =>
    obtain ⟨before, m, after, hsplit, -, -, -, -, rfl⟩ := setFlags_ok h
    refine Or.inl ?_
    rw [slots, slots, hsplit, List.map_append, List.map_cons, List.map_append, List.map_cons]
  | addService svc =>
    obtain ⟨-, rfl⟩ := addService_ok_iff.mp h
    exact Or.inl (List.Sublist.refl _)
  | updateService svc =>
    obtain ⟨before, old, after, -, -, -, rfl⟩ := updateService_ok h
    exact Or.inl (List.Sublist.refl _)
  | removeService fragment =>
    obtain ⟨before, svc, after, -, -, rfl⟩ := removeService_ok h
    exact Or.inl (List.Sublist.refl _)
  | setControllers natives others =>
    obtain ⟨-, rfl⟩ := setControllers_ok_iff.mp h
    exact Or.inl (List.Sublist.refl _)
  | deactivate =>
    cases h
    exact Or.inl (List.nil_sublist _)

/-- What the lists of a live DID of `subject` satisfy, whose founding key is `key`. -/
structure Attainable (subject key : Address) (b : Body) : Prop where
  wellFormed : b.WellFormed subject
  authority : 0 < b.authorityCount
  names : b.DefaultOnly key
  /-- No method comes before the founding one. -/
  founding : ∀ m ∈ b.methods.tail, m.fragment ≠ defaultFragment
  /-- Somebody had to add the last method. -/
  room : b.methods.length = maxVerificationMethods →
    ∃ m ∈ b.methods.take 15, m.methodType = vmTypeEd25519

/-- The founding method comes first, in terms of the slots. -/
theorem founding_iff : (∀ m ∈ b.methods.tail, m.fragment ≠ defaultFragment) ↔
    ∀ x ∈ b.slots.tail, x.1 ≠ defaultFragment := by
  rw [slots, ← List.map_tail, List.forall_mem_map]

theorem room_iff {n : ℕ} : (∃ m ∈ b.methods.take n, m.methodType = vmTypeEd25519) ↔
    ∃ x ∈ b.slots.take n, x.2 = vmTypeEd25519 := by
  rw [slots, ← List.map_take]
  simp only [List.mem_map, exists_exists_and_eq_and]

theorem exists_slot_of_authorityCount (h : 0 < b.authorityCount) :
    ∃ x ∈ b.slots, x.2 = vmTypeEd25519 := by
  obtain ⟨m, hm, hauthority⟩ := List.countP_pos_iff.mp h
  simp only [Method.isAuthority, Bool.and_eq_true, beq_iff_eq] at hauthority
  exact ⟨_, List.mem_map_of_mem hm, hauthority.1⟩

namespace Attainable

theorem initial {bump : UInt8} {now : Int64} :
    (Document.initial bump subject key now).body.Attainable subject key where
  wellFormed := (Document.initial_wellFormed bump subject key now).body
  authority := List.countP_pos_iff.mpr ⟨_, List.mem_singleton_self _,
    (by decide : (vmTypeEd25519 == vmTypeEd25519 &&
      hasFlag vmFlagsDefault vmFlagCapabilityInvocation) = true)⟩
  names := by
    refine ⟨by simp [Document.initial], ?_⟩
    intro m hm _
    rw [List.mem_singleton.mp hm]
    exact ⟨rfl, rfl⟩
  founding := by simp [Document.initial]
  room := by simp [Document.initial, maxVerificationMethods]

theorem apply {op : Op} (hop : op ≠ .deactivate) (hb : b.Attainable subject key)
    (h : b.apply isCurvePoint signer subject op = .ok b') : b'.Attainable subject key where
  wellFormed := hb.wellFormed.apply h
  authority := authorityCount_pos_of_apply hop h hb.authority
  names := hb.names.apply h
  founding := by
    have hfounding := founding_iff.mp hb.founding
    rw [founding_iff]
    rcases slots_of_apply h with hsub | ⟨m, hname, hadded⟩
    · intro x hx
      exact hfounding x (hsub.tail.subset hx)
    · obtain ⟨y, hy, -⟩ := exists_slot_of_authorityCount hb.authority
      rw [hadded, List.tail_append_of_ne_nil (List.ne_nil_of_mem hy)]
      intro x hx
      rcases List.mem_append.mp hx with hx | hx
      · exact hfounding x hx
      · rw [List.mem_singleton.mp hx]
        exact hname
  room := by
    intro hfull
    rw [← length_slots] at hfull
    rw [room_iff]
    rcases slots_of_apply h with hsub | ⟨m, -, hadded⟩
    · -- Nothing was removed, since there were sixteen at most.
      have hle := hb.wellFormed.methods_le
      rw [← length_slots, ← hfull] at hle
      have hsame : b'.slots = b.slots := hsub.eq_of_length_le hle
      rw [hsame, ← room_iff]
      apply hb.room
      rw [← length_slots, ← hsame, hfull]
    · rw [hadded, List.length_append, List.length_singleton, maxVerificationMethods] at hfull
      have hlen : b.slots.length = 15 := by omega
      rw [hadded, List.take_append_of_le_length hlen.ge, List.take_of_length_le hlen.le]
      exact exists_slot_of_authorityCount hb.authority

end Attainable

end Body

end BioDidRegistry
