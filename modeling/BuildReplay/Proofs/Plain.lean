import BuildReplay.Proofs.Shape
import BuildReplay.Proofs.Table
import BuildReplay.Proofs.Walk
import Mathlib.Data.List.Pairwise

/-! # Plain tables

A table is plain where each of its keys is bound to something of its own: no two of them name one
field, and none names a member that is barred. What the table of a key describes is known from the
declared type of its field. -/

namespace BuildReplay

variable {σ : Type}

/-- What a key of a type stands for. -/
inductive Binding where
  | field (name : String)
  | member (name : String)
deriving DecidableEq, Repr

def Binding.name : Binding → String
  | field name | member name => name

/-- What a declaration is about. -/
def Declaration.binding? : Declaration σ → Option Binding
  | .settable f | .readOnly f => some (.field f.name)
  | .member m => some (.member m.name)
  | .factory _ | .mapLike => none

/-- What a table describes. -/
inductive Subject where
  | object (t : TypeRef)
  /-- The elements of a named collection. -/
  | elements (t : TypeRef)
  /-- The entries of a map. -/
  | entries
  | other
deriving DecidableEq, Repr

def ValueType.subject : ValueType → Subject
  | .object t => .object t
  | .named t => .elements t
  | .map _ => .entries
  | _ => .other

namespace Shape

/-- What a key is bound to; a key that the type does not know is bound to nothing. -/
def binding? (shape : Shape σ) (key : String) : Option Binding :=
  match route shape key with
  | .dispatch => none
  | .settable f | .readOnly f => some (.field f.name)
  | .member =>
    if (shape.members? key).isSome then some (.member key)
    else if (shape.members? (setterName key)).isSome then some (.member (setterName key))
    else none

/-- What the table of a key describes. -/
def subject (shape : Shape σ) (key : String) : Subject :=
  match route shape key with
  | .settable f | .readOnly f => f.type.subject
  | _ => .other

end Shape

/-- No two keys of the table, or of a table below it, are bound to the same, and no key of an object
is barred. -/
inductive Table.Plain (shapes : TypeRef → Option (Shape σ)) (barred : String → Prop) :
    Subject → Table → Prop where
  | object {type : TypeRef} {shape : Shape σ} {t : Table} : shapes type = some shape →
      (∀ key ∈ t.keys, ¬barred key) → (t.keys.filterMap shape.binding?).Nodup →
      (∀ key body, (key, .table body) ∈ t → Plain shapes barred (shape.subject key) body) →
      Plain shapes barred (.object type) t
  | elements {type : TypeRef} {t : Table} : t.keys.Nodup →
      (∀ name body, (name, .table body) ∈ t → Plain shapes barred (.object type) body) →
      Plain shapes barred (.elements type) t
  | entries {t : Table} : t.keys.Nodup → Plain shapes barred .entries t
  | other {t : Table} : Plain shapes barred .other t

/-! ## What keys are bound to -/

section Bound

variable {shape : Shape σ} {ds : List (Declaration σ)} (hds : shape.DescribedBy ds) {key : String}

theorem Shape.binding?_settable {f : Field σ} (h : route shape key = .settable f) :
    shape.binding? key = some (.field f.name) := by
  rw [Shape.binding?, h]

theorem Shape.binding?_readOnly {f : Field σ} (h : route shape key = .readOnly f) :
    shape.binding? key = some (.field f.name) := by
  rw [Shape.binding?, h]

/-- A member is called by its name or set by its key. -/
theorem Shape.name_of_binding?_member {name : String}
    (h : shape.binding? key = some (.member name)) : name = key ∨ name = setterName key := by
  unfold binding? at h
  split at h
  · cases h
  · cases h
  · cases h
  · split_ifs at h
    · cases h
      exact .inl rfl
    · cases h
      exact .inr rfl

include hds in
/-- The overloads that a key calls are those that it is bound to. -/
theorem Shape.binding?_member {ms : List (Member σ)} (h : route shape key = .member)
    (hms : (shape.members? key <|> shape.members? (setterName key)) = some ms) :
    ∀ m ∈ ms, .member m ∈ ds ∧ shape.binding? key = some (.member m.name) := by
  intro m hm
  rw [Shape.binding?, h]
  cases hkey : shape.members? key with
  | some own =>
      rw [hkey] at hms
      cases hms
      obtain ⟨hd, rfl⟩ := hds.members hkey m hm
      exact ⟨hd, rfl⟩
  | none =>
      rw [hkey] at hms
      have hms : shape.members? (setterName key) = some ms := hms
      obtain ⟨hd, hname⟩ := hds.members hms m hm
      refine ⟨hd, ?_⟩
      dsimp only
      rw [if_neg (by simp), if_pos (by simp [hms]), hname]

/-- A key is routed to what a declaration is about: its field, or overloads that are all its
member. -/
def Shape.RoutesTo (shape : Shape σ) (key : String) : Declaration σ → Prop
  | .settable f => route shape key = .settable f
  | .readOnly f => route shape key = .readOnly f
  | .member m => route shape key = .member ∧
    ∃ ms, (shape.members? key <|> shape.members? (setterName key)) = some ms ∧ ∀ m' ∈ ms, m' = m
  | .factory _ | .mapLike => False

theorem eq_of_binding? (hunique : (ds.filterMap Declaration.binding?).Nodup) {d d' : Declaration σ}
    {b : Binding} (hd : d ∈ ds) (hd' : d' ∈ ds) (hb : d.binding? = some b)
    (hb' : d'.binding? = some b) : d' = d := by
  by_contra hne
  have hsymm : Std.Symm fun d d' : Declaration σ =>
      ∀ b, d.binding? = some b → ∀ b', d'.binding? = some b' → b ≠ b' :=
    ⟨fun _ _ h b hb b' hb' heq => h b' hb' b hb heq.symm⟩
  exact (List.pairwise_filterMap.1 hunique).forall hd' hd hne _ hb' _ hb rfl

include hds in
/-- Where declarations are about different things, a key that is bound to what one of them is about
is routed to it. -/
theorem Shape.routesTo_of_binding? (hunique : (ds.filterMap Declaration.binding?).Nodup)
    {d : Declaration σ} {b : Binding} (hd : d ∈ ds) (hb : d.binding? = some b)
    (h : shape.binding? key = some b) : shape.RoutesTo key d := by
  have hsame : ∀ d' ∈ ds, d'.binding? = some b → d' = d := fun d' hd' =>
    eq_of_binding? hunique hd hd' hb
  cases hroute : route shape key with
  | dispatch =>
      rw [binding?, hroute] at h
      cases h
  | settable g =>
      rw [binding?_settable hroute] at h
      obtain ⟨_, -, hg⟩ := settable?_of_route hroute
      rw [← hsame _ (hds.settable hg).1 h]
      exact hroute
  | readOnly g =>
      rw [binding?_readOnly hroute] at h
      rw [← hsame _ (hds.readOnly (readOnly?_of_route hroute)).1 h]
      exact hroute
  | member =>
      cases hms : shape.members? key <|> shape.members? (setterName key) with
      | none =>
          obtain ⟨hkey, hsetter⟩ : shape.members? key = none ∧
              shape.members? (setterName key) = none := by simpa using hms
          simp [binding?, hroute, hkey, hsetter] at h
      | some ms =>
          obtain ⟨name, rfl⟩ : ∃ name, b = .member name := by
            simp only [binding?, hroute] at h
            split_ifs at h <;> exact ⟨_, (Option.some.inj h).symm⟩
          cases d with
          | member m =>
              refine ⟨hroute, ms, hms, fun m' hm' => ?_⟩
              obtain ⟨hdeclared, hbinding⟩ := binding?_member hds hroute hms m' hm'
              exact Declaration.member.inj (hsame _ hdeclared (hbinding.symm.trans h))
          | _ => cases hb

end Bound

end BuildReplay
