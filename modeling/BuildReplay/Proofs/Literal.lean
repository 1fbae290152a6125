import BuildReplay.Proofs.Live
import BuildReplay.Proofs.Table
import BuildReplay.Proofs.Walk

/-! # Literals

Some types take nothing but what a value says itself: a scalar, or the call of an enumeration's own
factory. Their values do not depend on the host, and only a table without order matters. -/

namespace BuildReplay

variable {σ : Type}

/-- The type takes scalars only, and says of which kind. -/
def ValueType.isAtomic (t : ValueType) : Bool := t.isScalar && t != .any

/-- The value that a table of one text stands for, for a type without objects. -/
def enumCall (t : ValueType) (path : String) (v : Value) : Except Error (Option Live) :=
  match Frame.factoryCall? v, t with
  | some (factory, argument), .enumeration e =>
    if factory = "valueOf" then (enumConstant e argument path).map some else .ok none
  | _, _ => .ok none

/-- The value that a document value says itself. -/
def Scope.literal (sc : Scope σ) (t : ValueType) (v : Value) : Except Error (Option Live) :=
  if v.isTable then enumCall t sc.keyPath v
  else (coerce sc.options.projectRoot (some v) t sc.keyPath).map some

/-- A literal that is needed. -/
def Scope.required (sc : Scope σ) (t : ValueType) (v : Value) : Except Error Live :=
  match sc.literal t v with
  | .ok (some live) => .ok live
  | .ok none => .error (.unsupportedCoercion sc.keyPath t.text v.describe)
  | .error e => .error e

section Resolve

variable {host : Host σ} {sc : Scope σ} {t : ValueType} {v : Value}

theorem ValueType.isAtomic_iff : t.isAtomic ↔ t.isScalar ∧ t ≠ .any := by
  simp [isAtomic]

theorem ofExcept_map_some {α : Type} (r : Except Error α) :
    (some <$> Act.ofExcept r : Act σ (Option α)) = .ofExcept (r.map some) := by
  cases r <;> rfl

theorem invokeFactory_enumCall (ht : t.isAtomic) {factory argument : String} (path : String)
    (hv : Frame.factoryCall? v = some (factory, argument)) :
    invokeFactory host t factory argument path = .ofExcept (enumCall t path v) := by
  unfold invokeFactory enumCall
  rw [hv]
  cases t with
  | enumeration e =>
      dsimp only
      split <;> rfl
  | object t => cases ht
  | _ => rfl

theorem enumCall_of_factoryCall?_none (t : ValueType) (path : String)
    (hv : Frame.factoryCall? v = none) : enumCall t path v = .ok none := by
  simp only [enumCall, hv]

theorem Frame.resolve_atomic (ht : t.isAtomic) (self : ObjectRef) (shape : Shape σ) (path : String) :
    (Frame.object self shape).resolve host v t path = .ofExcept (enumCall t path v) := by
  rw [Frame.resolve]
  split
  · exact invokeFactory_enumCall ht path ‹_›
  · rw [enumCall_of_factoryCall?_none t path ‹_›]
    rfl

/-- Where no object takes a symbol for anything, none of the frames does. -/
theorem resolveSymbol_atomic_none (ht : t.isAtomic) {path : String} (h : enumCall t path v = .ok none)
    (frames : List (Frame σ)) : resolveSymbol host v t path frames = pure none := by
  induction frames with
  | nil => rfl
  | cons f outer ih =>
      have hf : f.resolve host v t path = pure none := by
        cases f with
        | object self shape =>
            rw [Frame.resolve_atomic ht, h]
            rfl
        | collection element slot =>
            cases t with
            | object t => cases ht
            | _ => rfl
      rw [resolveSymbol, hf, pure_bind]
      exact ih

theorem resolveSymbol_atomic (ht : t.isAtomic) (self : ObjectRef) (shape : Shape σ) (path : String)
    (outer : List (Frame σ)) :
    resolveSymbol host v t path (.object self shape :: outer) = .ofExcept (enumCall t path v) := by
  rw [resolveSymbol, Frame.resolve_atomic ht]
  cases h : enumCall t path v with
  | error e => rfl
  | ok live? =>
      cases live? with
      | some live => rfl
      | none => exact resolveSymbol_atomic_none ht h outer

theorem resolveArgument_atomic (ht : t.isAtomic) :
    resolveArgument host sc t v = .ofExcept (sc.literal t v) := by
  obtain ⟨hscalar, hany⟩ := ValueType.isAtomic_iff.1 ht
  unfold resolveArgument Scope.literal
  by_cases hv : v.isTable
  · simp only [hv, bne_iff_ne, ne_eq, hany, not_false_eq_true, Bool.and_eq_true, and_self, if_true]
    split
    · exact invokeFactory_enumCall ht _ ‹_›
    · rw [enumCall_of_factoryCall?_none t _ ‹_›]
      rfl
  · simp only [hv, Bool.false_and, Bool.false_eq_true, if_false, hscalar, if_true]
    exact ofExcept_map_some _

/-- Below an object, the value for a field is a literal. -/
theorem resolveValue_atomic (ht : t.isAtomic) {self : ObjectRef} {shape : Shape σ}
    {outer : List (Frame σ)} (hframes : sc.frames = .object self shape :: outer) :
    resolveValue host sc t v = .ofExcept (sc.required t v) := by
  obtain ⟨hscalar, hany⟩ := ValueType.isAtomic_iff.1 ht
  unfold resolveValue Scope.required Scope.literal isSymbolic
  by_cases hv : v.isTable
  · simp only [hv, bne_iff_ne, ne_eq, hany, not_false_eq_true, Bool.true_or, Bool.and_true,
      if_true]
    rw [hframes, resolveSymbol_atomic ht]
    rcases enumCall t sc.keyPath v with _ | _ | _ <;> rfl
  · simp only [hv, hscalar, Bool.not_true, Bool.or_self, Bool.and_false, Bool.false_eq_true,
      if_false]
    cases coerce sc.options.projectRoot (some v) t sc.keyPath <;> rfl

theorem Scope.eq_of_required_string {live : Live} (h : sc.required .string v = .ok live) :
    ∃ s, v = .string s ∧ live = .string s := by
  rw [required, literal] at h
  cases v with
  | string s =>
      cases h
      exact ⟨s, rfl, rfl⟩
  | table t =>
      have hnone : enumCall .string sc.keyPath (.table t) = .ok none := by
        unfold enumCall
        split
        · rename_i heq
          cases heq
        · rfl
      simp only [Value.isTable, if_true, hnone] at h
      cases h
  | _ => cases h

end Resolve

/-! ## Shuffled values -/

theorem factoryCall?_of_length {t : Table} (h : t.length ≠ 1) :
    Frame.factoryCall? (.table t) = none := by
  unfold Frame.factoryCall?
  split
  · rename_i heq
    cases heq
    exact absurd rfl h
  · rfl

section Shuffled

variable {v v' : Value} (h : v.Shuffled v')
include h

/-- A table of one text is one in every order. -/
theorem factoryCall?_shuffled : Frame.factoryCall? v' = Frame.factoryCall? v := by
  cases h with
  | same => rfl
  | @table t u t' hmatched hperm =>
      have hlength : t.length = t'.length := by
        rw [← hperm.length_eq]
        exact (hmatched.forall₂ (R := fun _ _ => True) fun _ _ _ _ _ => trivial).length_eq
      by_cases hone : t.length = 1
      · obtain ⟨⟨key, w⟩, rfl⟩ := List.length_eq_one_iff.1 hone
        cases hmatched with
        | @cons _ _ w' _ _ hw hrest =>
            cases hrest
            obtain rfl := List.singleton_perm.1 hperm
            by_cases htable : w.isTable
            · obtain ⟨body, rfl⟩ := Value.exists_of_isTable htable
              obtain ⟨_, body', rfl, -, -⟩ := hw.exists_of_table
              rfl
            · rw [hw.eq_of_not_table (by simpa using htable)]
      · rw [factoryCall?_of_length hone, factoryCall?_of_length (hlength ▸ hone)]

theorem enumCall_shuffled (t : ValueType) (path : String) : enumCall t path v' = enumCall t path v := by
  unfold enumCall
  rw [factoryCall?_shuffled h]

theorem Scope.literal_shuffled (sc : Scope σ) (t : ValueType) : sc.literal t v' = sc.literal t v := by
  unfold Scope.literal
  rw [h.isTable_eq, enumCall_shuffled h]
  by_cases hv : v.isTable
  · rw [if_pos hv, if_pos hv]
  · rw [if_neg hv, if_neg hv, h.eq_of_not_table (by simpa using hv)]

theorem Scope.required_shuffled (sc : Scope σ) (t : ValueType) :
    (sc.required t v').toOption = (sc.required t v).toOption := by
  unfold Scope.required
  rw [Scope.literal_shuffled h]
  rcases sc.literal t v with _ | _ | _ <;> rfl

/-- A table converts to nothing that is asked for by its kind. -/
theorem coerce_shuffled (root : Path) {t : ValueType} (ht : t ≠ .any) (path : String) :
    (coerce root (some v') t path).toOption = (coerce root (some v) t path).toOption := by
  by_cases hv : v.isTable
  · obtain ⟨entries, rfl⟩ := Value.exists_of_isTable hv
    obtain ⟨_, entries', rfl, -, -⟩ := h.exists_of_table
    cases t <;> first | rfl | exact absurd rfl ht
  · rw [h.eq_of_not_table (by simpa using hv)]

end Shuffled

end BuildReplay
