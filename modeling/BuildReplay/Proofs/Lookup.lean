import BuildReplay.Proofs.Dictionary
import BuildReplay.Shape
import Mathlib.Data.List.Induction

/-! # Lookups in a shape

Whatever the order of its declarations, a shape gives for every name the last field that can be
set, else the last one that can only be read, all overloads of the member in order, and the last
factory. -/

namespace BuildReplay

variable {σ : Type}

namespace Declaration

/-- The settable field that the declaration is, if it has the name. -/
def settableNamed? (name : String) : Declaration σ → Option (Field σ)
  | .settable f => if f.name = name then some f else none
  | _ => none

/-- The read-only field that the declaration is, if it has the name. -/
def readOnlyNamed? (name : String) : Declaration σ → Option (Field σ)
  | .readOnly f => if f.name = name then some f else none
  | _ => none

/-- The overload that the declaration is, if it has the name. -/
def memberNamed? (name : String) : Declaration σ → Option (Member σ)
  | .member m => if m.name = name then some m else none
  | _ => none

/-- The factory that a declaration stands for. -/
def factory? : Declaration σ → Option (Factory σ)
  | .factory f => some f
  | _ => none

/-- The factory that the declaration is, if it has the name. -/
def factoryNamed? (name : String) : Declaration σ → Option (Factory σ)
  | .factory f => if f.name = name then some f else none
  | _ => none

section Named

variable {d : Declaration σ} {name : String}

theorem settableNamed?_eq_some {f : Field σ} :
    d.settableNamed? name = some f ↔ d = .settable f ∧ f.name = name := by
  cases d <;> grind [settableNamed?]

theorem readOnlyNamed?_eq_some {f : Field σ} :
    d.readOnlyNamed? name = some f ↔ d = .readOnly f ∧ f.name = name := by
  cases d <;> grind [readOnlyNamed?]

theorem memberNamed?_eq_some {m : Member σ} :
    d.memberNamed? name = some m ↔ d = .member m ∧ m.name = name := by
  cases d <;> grind [memberNamed?]

theorem factoryNamed?_eq_some {f : Factory σ} :
    d.factoryNamed? name = some f ↔ d = .factory f ∧ f.name = name := by
  cases d <;> grind [factoryNamed?]

end Named

end Declaration

section Last

variable {α β : Type} (f : α → Option β) (l : List α)

theorem getLast?_filterMap_concat (a : α) :
    ((l ++ [a]).filterMap f).getLast? = (f a <|> (l.filterMap f).getLast?) := by
  rw [List.filterMap_append, List.getLast?_append]
  cases h : f a <;> simp [h]

theorem isSome_getLast?_filterMap :
    (l.filterMap f).getLast?.isSome = l.any fun a => (f a).isSome := by
  induction l using List.reverseRecOn with
  | nil => rfl
  | append_singleton l a ih =>
      rw [getLast?_filterMap_concat, List.any_append, ← ih]
      cases h : f a <;> simp [h]

end Last

namespace Shape

/-! ## One declaration -/

section Declare

variable (s : Shape σ) (d : Declaration σ) (name : String)

theorem settable?_declare :
    (s.declare d).settable? name = (d.settableNamed? name <|> s.settable? name) := by
  cases d with
  | settable f =>
      rw [declare, settable?, Dictionary.get?_insert, Declaration.settableNamed?]
      split <;> rfl
  | readOnly f =>
      rw [declare]
      split <;> rfl
  | _ => rfl

/-- A field that can only be read is dropped where one that can be set has its name, and not taken
in again. -/
theorem readOnly?_declare :
    (s.declare d).readOnly? name =
      if (d.settableNamed? name).isSome then none
      else if (s.settable? name).isSome then s.readOnly? name
      else d.readOnlyNamed? name <|> s.readOnly? name := by
  cases d with
  | settable f =>
      rw [declare, readOnly?, Dictionary.get?_erase, Declaration.settableNamed?]
      split <;> simp [Declaration.readOnlyNamed?, readOnly?]
  | readOnly f =>
      by_cases hname : f.name = name
      · subst hname
        cases hsettable : s.settable.contains f.name <;>
          simp_all [declare, Declaration.settableNamed?, Declaration.readOnlyNamed?, settable?,
            readOnly?, Dictionary.contains, Dictionary.get?_insert]
      · rw [declare]
        split <;>
          simp [Declaration.settableNamed?, Declaration.readOnlyNamed?, readOnly?,
            Dictionary.get?_insert, hname]
  | _ => simp [declare, Declaration.settableNamed?, Declaration.readOnlyNamed?, readOnly?]

theorem members?_declare :
    (s.declare d).members? name = match d.memberNamed? name with
      | some m => some ((s.members? name).getD [] ++ [m])
      | none => s.members? name := by
  cases d with
  | member m =>
      rw [declare, members?, Dictionary.get?_insert, Declaration.memberNamed?]
      split
      · rename_i hname
        rw [hname]
        rfl
      · rfl
  | readOnly f =>
      rw [declare]
      split <;> rfl
  | _ => rfl

theorem factory?_declare :
    (s.declare d).factory? name = (d.factoryNamed? name <|> s.factory? name) := by
  cases d with
  | factory f =>
      rw [declare, factory?, Dictionary.get?_insert, Declaration.factoryNamed?]
      split <;> rfl
  | readOnly f =>
      rw [declare]
      split <;> rfl
  | _ => rfl

end Declare

/-! ## All declarations -/

section Declarations

variable (type : TypeRef) (ds : List (Declaration σ)) (name : String)

theorem ofDeclarations_concat (d : Declaration σ) :
    ofDeclarations type (ds ++ [d]) = (ofDeclarations type ds).declare d :=
  List.foldl_concat ..

theorem settable?_ofDeclarations :
    (ofDeclarations type ds).settable? name = (ds.filterMap (·.settableNamed? name)).getLast? := by
  induction ds using List.reverseRecOn with
  | nil => rfl
  | append_singleton ds d ih =>
      rw [ofDeclarations_concat, settable?_declare, ih, getLast?_filterMap_concat]

theorem isSome_settable?_ofDeclarations :
    ((ofDeclarations type ds).settable? name).isSome =
      ds.any fun d => (d.settableNamed? name).isSome := by
  rw [settable?_ofDeclarations, isSome_getLast?_filterMap]

/-- A field that can be set takes the name, be it declared before or after. -/
theorem readOnly?_ofDeclarations :
    (ofDeclarations type ds).readOnly? name =
      if ds.any fun d => (d.settableNamed? name).isSome then none
      else (ds.filterMap (·.readOnlyNamed? name)).getLast? := by
  induction ds using List.reverseRecOn with
  | nil => rfl
  | append_singleton ds d ih =>
      rw [ofDeclarations_concat, readOnly?_declare, ih, isSome_settable?_ofDeclarations,
        getLast?_filterMap_concat, List.any_append]
      by_cases hbefore : ds.any fun d => (d.settableNamed? name).isSome
      · simp [hbefore]
      · by_cases hlast : (d.settableNamed? name).isSome <;> simp [hbefore, hlast]

theorem readOnly?_eq_none_of_settable? (h : ((ofDeclarations type ds).settable? name).isSome) :
    (ofDeclarations type ds).readOnly? name = none := by
  rw [isSome_settable?_ofDeclarations] at h
  rw [readOnly?_ofDeclarations, if_pos h]

theorem isSome_field?_ofDeclarations :
    ((ofDeclarations type ds).field? name).isSome ↔
      ∃ d ∈ ds, (d.settableNamed? name).isSome ∨ (d.readOnlyNamed? name).isSome := by
  have hsome : ((ofDeclarations type ds).field? name).isSome =
      ((ds.any fun d => (d.settableNamed? name).isSome) ||
        ds.any fun d => (d.readOnlyNamed? name).isSome) := by
    rw [field?, Option.orElse_eq_orElse, Option.orElse_eq_or, Option.isSome_or,
      isSome_settable?_ofDeclarations, readOnly?_ofDeclarations]
    split
    · simp [*]
    · rw [isSome_getLast?_filterMap]
  rw [hsome]
  simp only [Bool.or_eq_true, List.any_eq_true, ← exists_or, ← and_or_left]

theorem members?_ofDeclarations :
    (ofDeclarations type ds).members? name =
      if (ds.filterMap (·.memberNamed? name)).isEmpty then none
      else some (ds.filterMap (·.memberNamed? name)) := by
  induction ds using List.reverseRecOn with
  | nil => rfl
  | append_singleton ds d ih =>
      rw [ofDeclarations_concat, members?_declare, ih, List.filterMap_append]
      generalize ds.filterMap (·.memberNamed? name) = before
      cases hmember : d.memberNamed? name with
      | none => simp [hmember]
      | some m => cases before <;> simp [hmember]

theorem factory?_ofDeclarations :
    (ofDeclarations type ds).factory? name = (ds.filterMap (·.factoryNamed? name)).getLast? := by
  induction ds using List.reverseRecOn with
  | nil => rfl
  | append_singleton ds d ih =>
      rw [ofDeclarations_concat, factory?_declare, ih, getLast?_filterMap_concat]

theorem mapLike_ofDeclarations : (ofDeclarations type ds).mapLike ↔ .mapLike ∈ ds := by
  induction ds using List.reverseRecOn with
  | nil => simp [ofDeclarations, empty]
  | append_singleton ds d ih =>
      rw [ofDeclarations_concat, List.mem_append, ← ih]
      cases d with
      | readOnly f =>
          rw [declare]
          split <;> simp
      | _ => simp [declare]

/-- What a shape gives for a name, whatever the order of its declarations. The settable field of a
name is the last one declared. The read-only field is the last one too, and there is none where a
settable field of the name is declared anywhere, so no name has both. All overloads of a member are
kept in order, and the last factory of a name holds. -/
theorem ofDeclarations_lookups :
    (ofDeclarations type ds).settable? name = (ds.filterMap (·.settableNamed? name)).getLast? ∧
    ((ofDeclarations type ds).readOnly? name =
      if ds.any fun d => (d.settableNamed? name).isSome then none
      else (ds.filterMap (·.readOnlyNamed? name)).getLast?) ∧
    ¬(((ofDeclarations type ds).settable? name).isSome ∧
      ((ofDeclarations type ds).readOnly? name).isSome) ∧
    ((ofDeclarations type ds).members? name =
      if (ds.filterMap (·.memberNamed? name)).isEmpty then none
      else some (ds.filterMap (·.memberNamed? name))) ∧
    (ofDeclarations type ds).factory? name = (ds.filterMap (·.factoryNamed? name)).getLast? ∧
    (((ofDeclarations type ds).field? name).isSome ↔
      ∃ d ∈ ds, (d.settableNamed? name).isSome ∨ (d.readOnlyNamed? name).isSome) := by
  refine ⟨settable?_ofDeclarations .., readOnly?_ofDeclarations .., ?_,
    members?_ofDeclarations .., factory?_ofDeclarations .., isSome_field?_ofDeclarations ..⟩
  rintro ⟨hsettable, hreadOnly⟩
  rw [readOnly?_eq_none_of_settable? type ds name hsettable] at hreadOnly
  cases hreadOnly

end Declarations

end Shape

end BuildReplay
