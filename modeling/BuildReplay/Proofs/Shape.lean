import BuildReplay.Proofs.Lookup

/-! # What a shape was declared with

Every field, member and factory of a shape comes from a declaration of its name. -/

namespace BuildReplay.Shape

variable {σ : Type} {shape : Shape σ} {ds : List (Declaration σ)}

/-- All that lookups in the shape find is among the declarations. -/
structure DescribedBy (shape : Shape σ) (ds : List (Declaration σ)) : Prop where
  settable : ∀ {name f}, shape.settable? name = some f → .settable f ∈ ds ∧ f.name = name
  readOnly : ∀ {name f}, shape.readOnly? name = some f → .readOnly f ∈ ds ∧ f.name = name
  members : ∀ {name ms}, shape.members? name = some ms →
    ∀ m ∈ ms, .member m ∈ ds ∧ m.name = name
  factories : ∀ {name f}, shape.factory? name = some f → .factory f ∈ ds ∧ f.name = name
  mapLike : shape.mapLike → .mapLike ∈ ds

theorem ofDeclarations_describedBy (type : TypeRef) (ds : List (Declaration σ)) :
    (ofDeclarations type ds).DescribedBy ds where
  settable h := by
    rw [settable?_ofDeclarations] at h
    obtain ⟨d, hd, hf⟩ := List.mem_filterMap.1 (List.mem_of_getLast? h)
    obtain ⟨rfl, hname⟩ := Declaration.settableNamed?_eq_some.1 hf
    exact ⟨hd, hname⟩
  readOnly h := by
    rw [readOnly?_ofDeclarations] at h
    split at h
    · cases h
    obtain ⟨d, hd, hf⟩ := List.mem_filterMap.1 (List.mem_of_getLast? h)
    obtain ⟨rfl, hname⟩ := Declaration.readOnlyNamed?_eq_some.1 hf
    exact ⟨hd, hname⟩
  members h m hm := by
    rw [members?_ofDeclarations] at h
    split at h
    · cases h
    cases h
    obtain ⟨d, hd, hm⟩ := List.mem_filterMap.1 hm
    obtain ⟨rfl, hname⟩ := Declaration.memberNamed?_eq_some.1 hm
    exact ⟨hd, hname⟩
  factories h := by
    rw [factory?_ofDeclarations] at h
    obtain ⟨d, hd, hf⟩ := List.mem_filterMap.1 (List.mem_of_getLast? h)
    obtain ⟨rfl, hname⟩ := Declaration.factoryNamed?_eq_some.1 hf
    exact ⟨hd, hname⟩
  mapLike h := (mapLike_ofDeclarations type ds).1 h

theorem overloads_of_members? {name : String} {ms : List (Member σ)}
    (h : shape.members? name = some ms) (arity : Nat) :
    shape.overloads name arity = ms.filter (·.arity == arity) := by
  rw [overloads, h]
  rfl

theorem mem_overloads {name : String} {ms : List (Member σ)} {m : Member σ}
    (hms : shape.members? name = some ms) (hm : m ∈ ms) : m ∈ shape.overloads name m.arity := by
  rw [overloads_of_members? hms]
  exact List.mem_filter.2 ⟨hm, beq_self_eq_true _⟩

/-- Members that are changed without their arity are the overloads of the same arity. -/
theorem overloads_of_map {τ : Type} {other : Shape τ} {f : Member σ → Member τ} {name : String}
    (h : other.members? name = (shape.members? name).map fun ms => ms.map f)
    (hf : ∀ m, (f m).arity = m.arity) (arity : Nat) :
    other.overloads name arity = (shape.overloads name arity).map f := by
  rw [overloads, overloads, h]
  cases shape.members? name with
  | none => rfl
  | some ms =>
      change (ms.map f).filter (·.arity == arity) = (ms.filter (·.arity == arity)).map f
      simp only [List.filter_map, Function.comp_def, hf]

theorem DescribedBy.overloads (h : shape.DescribedBy ds) {name : String} {arity : Nat}
    {m : Member σ} (hm : m ∈ shape.overloads name arity) :
    .member m ∈ ds ∧ m.name = name ∧ m.arity = arity := by
  rw [Shape.overloads, List.mem_filter] at hm
  obtain ⟨hm, harity⟩ := hm
  cases hms : shape.members? name with
  | none => simp [hms] at hm
  | some ms =>
      rw [hms] at hm
      obtain ⟨hd, hname⟩ := h.members hms m hm
      exact ⟨hd, hname, by simpa using harity⟩

end BuildReplay.Shape
