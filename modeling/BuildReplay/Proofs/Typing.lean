import BuildReplay.Proofs.Walk
import Mathlib.Data.List.Forall2

/-! # Values of declared types

Conversion and the enclosing frames make nothing but values of the type that is asked for. Whether a
field of the host takes all such values is a property of the field's own type. -/

namespace BuildReplay

/-- The value is one of the declared type. -/
inductive Live.HasType : Live → ValueType → Prop where
  | boolean (b : Bool) : HasType (.boolean b) .bool
  | int (i : Int32) : HasType (.int i) .int
  | long (i : Int64) : HasType (.long i) .long
  | double (x : Double) : HasType (.double x) .double
  | string (s : String) : HasType (.string s) .string
  | enumeration {e : EnumRef} {constant : String} : constant ∈ e.constants →
      HasType (.enumeration e constant) (.enumeration e)
  | path (p : Path) : HasType (.path p) .path
  | raw (v : Value) : HasType (.raw v) .any
  | object {r : ObjectRef} {t : TypeRef} : r.type = t → HasType (.object r) (.object t)

/-- The type of a host field takes all values of a declared type. -/
class Takes (β : Type) [OfLive β] (t : ValueType) : Prop where
  exists_ofLive : ∀ {v : Live}, v.HasType t → ∃ b : β, ofLive v = .ok b

instance : Takes Bool .bool where
  exists_ofLive h := by
    cases h
    exact ⟨_, rfl⟩

instance : Takes Int32 .int where
  exists_ofLive h := by
    cases h
    exact ⟨_, rfl⟩

instance : Takes String .string where
  exists_ofLive h := by
    cases h
    exact ⟨_, rfl⟩

instance : Takes Path .path where
  exists_ofLive h := by
    cases h
    exact ⟨_, rfl⟩

instance {α : Type} [Described α] : Takes (Ref α) (.object (typeRef α)) where
  exists_ofLive h := by
    cases h with
    | @object r _ htype => exact ⟨⟨r.id⟩, if_pos htype⟩

instance {β : Type} [OfLive β] {t : ValueType} [Takes β t] : Takes (Option β) t where
  exists_ofLive {v} h := by
    obtain ⟨b, hb⟩ : ∃ b : β, ofLive v = .ok b := Takes.exists_ofLive h
    have hsome : (ofLive v : Except Error β).map some = .ok (some b) := by
      rw [hb]
      rfl
    refine ⟨some b, ?_⟩
    cases h <;> exact hsome

/-! ## Conversion -/

theorem EnumRef.mem_of_valueOf? {e : EnumRef} {name constant : String}
    (h : e.valueOf? name = some constant) : constant ∈ e.constants :=
  List.mem_of_find?_eq_some h

theorem convert?_hasType {root : Path} {t : ValueType} {v : Value} {live : Live}
    (h : convert? root t v = some live) : live.HasType t := by
  unfold convert? at h
  split at h
  · cases h
    exact .boolean _
  · split at h
    · cases h
      exact .int _
    · cases h
  · cases h
    exact .long _
  · cases h
    exact .double _
  · cases h
    exact .double _
  · cases h
    exact .string _
  · obtain ⟨constant, hconstant, rfl⟩ := Option.map_eq_some_iff.1 h
    exact .enumeration (EnumRef.mem_of_valueOf? hconstant)
  · cases h
    exact .path _
  · cases h
    exact .raw _
  · cases h

/-- Nothing converts to an object. -/
theorem convert?_object (root : Path) (t : TypeRef) (v : Value) :
    convert? root (.object t) v = none := by
  cases v <;> rfl

theorem coerce_eq_ok {root : Path} {v? : Option Value} {t : ValueType} {path : String} {live : Live}
    (h : coerce root v? t path = .ok live) : ∃ v, convert? root t v = some live := by
  cases v? with
  | none => cases h
  | some v =>
      simp only [coerce] at h
      split at h
      · cases h
        exact ⟨v, ‹_›⟩
      · cases h

theorem coerce_hasType {root : Path} {v? : Option Value} {t : ValueType} {path : String}
    {live : Live} (h : coerce root v? t path = .ok live) : live.HasType t := by
  obtain ⟨v, hv⟩ := coerce_eq_ok h
  exact convert?_hasType hv

/-- The parameters of a call are values of the declared types, none of them an object. -/
theorem coerceParams_hasType {root : Path} {params : List Value} {path : String}
    {types : List ValueType} {args : List Live}
    (h : Frame.coerceParams root params path types = .ok args) :
    List.Forall₂ Live.HasType args types ∧ ∀ r, .object r ∉ args := by
  have hitems : ∀ (types : List ValueType) (k : Nat) (args : List Live),
      (types.zipIdx k).mapM (fun e => coerceItem root params e.2 e.1 path) =
        .ok args → List.Forall₂ Live.HasType args types ∧ ∀ r, .object r ∉ args := by
    intro types
    induction types with
    | nil =>
        intro k args h
        cases h
        exact ⟨.nil, fun r => List.not_mem_nil⟩
    | cons type types ih =>
        intro k args h
        rw [List.zipIdx_cons, List.mapM_cons] at h
        cases hitem : coerceItem root params k type path with
        | error e =>
            simp only [hitem] at h
            cases h
        | ok live =>
            simp only [hitem] at h
            cases hrest : (types.zipIdx (k + 1)).mapM
                (fun e => coerceItem root params e.2 e.1 path) with
            | error e =>
                rw [hrest] at h
                cases h
            | ok rest =>
                rw [hrest] at h
                cases h
                obtain ⟨htypes, hobjects⟩ := ih _ _ hrest
                refine ⟨.cons (coerce_hasType hitem) htypes, fun r hmem => ?_⟩
                rcases List.mem_cons.1 hmem with rfl | hmem
                · cases coerce_hasType hitem
                  obtain ⟨v, hv⟩ := coerce_eq_ok hitem
                  rw [convert?_object] at hv
                  cases hv
                · exact hobjects r hmem
  exact hitems types 0 args h

/-! ## Resolution -/

section Resolution

variable {σ : Type} {host : Host σ} {sc : Scope σ} {v : Value} {s s' : σ} {live : Live}

/-- What factories make and what collections hold is of the type that stands for it. -/
structure Typed (host : Host σ) (sc : Scope σ) : Prop where
  build : ∀ {t s shape s' name f argument s₁ live s₂}, (host.shapeOf t).Gives s shape s' →
    shape.factory? name = some f → (f.build argument).Gives s₁ live s₂ → live.HasType (.object t)
  element : ∀ {element slot name s r s'}, Frame.collection element slot ∈ sc.frames →
    (host.getByName slot name).Gives s (some r) s' → r.type = element

/-- A symbol stands for what some frame takes it for. -/
theorem resolveSymbol_gives {t : ValueType} {path : String} {frames : List (Frame σ)}
    (h : (resolveSymbol host v t path frames).Gives s (some live) s') :
    ∃ f ∈ frames, ∃ s₁, (f.resolve host v t path).Gives s₁ (some live) s' := by
  induction frames generalizing s with
  | nil => cases (Act.pure_gives.1 h).1
  | cons f outer ih =>
      obtain ⟨live?, s₁, hf, h⟩ := Act.bind_gives.1 h
      cases live? with
      | some found =>
          obtain ⟨heq, rfl⟩ := Act.pure_gives.1 h
          cases heq
          exact ⟨f, List.mem_cons_self, s, hf⟩
      | none =>
          obtain ⟨f', hf', hgives⟩ := ih h
          exact ⟨f', List.mem_cons_of_mem f hf', hgives⟩

/-- A collection takes the name of an element for the element. -/
theorem Frame.resolve_collection_gives {element : TypeRef} {slot : Slot} {t : ValueType}
    {path : String}
    (h : ((Frame.collection element slot).resolve host v t path).Gives s (some live) s') :
    ∃ name r, v = .string name ∧ t = .object element ∧ live = .object r ∧
      (host.getByName slot name).Gives s (some r) s' := by
  unfold Frame.resolve at h
  dsimp only at h
  split at h
  · split at h
    · rename_i name htype
      subst htype
      obtain ⟨r?, s₁, hget, h⟩ := Act.bind_gives.1 h
      obtain ⟨hr, rfl⟩ := Act.pure_gives.1 h
      obtain ⟨r, rfl, rfl⟩ := Option.map_eq_some_iff.1 hr
      exact ⟨name, r, rfl, rfl, rfl, hget⟩
    · cases (Act.pure_gives.1 h).1
  · cases (Act.pure_gives.1 h).1

/-- Where no type has factories, an argument of an object type is an element around the key. -/
theorem resolveArgument_object
    (hfactory : ∀ {t s shape s'}, (host.shapeOf t).Gives s shape s' →
      ∀ name, shape.factory? name = none) {t : TypeRef}
    (h : (resolveArgument host sc (.object t) v).Gives s (some live) s') :
    ∃ name slot r, v = .string name ∧ live = .object r ∧ Frame.collection t slot ∈ sc.frames ∧
      (host.getByName slot name).Gives s' (some r) s' := by
  have hmade : ∀ {factory argument path s}, ¬(invokeFactory host (.object t) factory argument
      path).Gives s (some live) s' := by
    intro factory argument path s h
    obtain ⟨shape, s₁, hshape, h⟩ := Act.bind_gives.1 h
    rw [hfactory hshape] at h
    cases (Act.pure_gives.1 h).1
  unfold resolveArgument at h
  split at h
  · split at h
    · exact absurd h hmade
    · cases (Act.pure_gives.1 h).1
  · obtain ⟨f, hf, s₁, hresolve⟩ := resolveSymbol_gives h
    cases f with
    | object self shape =>
        simp only [Frame.resolve] at hresolve
        split at hresolve
        · exact absurd hresolve hmade
        · cases (Act.pure_gives.1 hresolve).1
    | collection element slot =>
        obtain ⟨name, r, hv, htype, hlive, hget⟩ := Frame.resolve_collection_gives hresolve
        cases htype
        obtain rfl := Host.getByName_state hget
        exact ⟨name, slot, r, hv, hlive, hf, hget⟩

variable (htyped : Typed host sc)
include htyped

theorem invokeFactory_hasType {t : ValueType} {factory argument path : String}
    (h : (invokeFactory host t factory argument path).Gives s (some live) s') :
    live.HasType t := by
  unfold invokeFactory at h
  split at h
  · split at h
    · rename_i e _
      obtain ⟨hmap, -⟩ := Act.ofExcept_gives.1 h
      unfold enumConstant at hmap
      split at hmap
      · cases hmap
        exact .enumeration (EnumRef.mem_of_valueOf? ‹_›)
      · cases hmap
    · cases (Act.pure_gives.1 h).1
  · obtain ⟨shape, s₁, hshape, h⟩ := Act.bind_gives.1 h
    split at h
    · obtain ⟨made, hbuild, heq⟩ := Act.map_gives.1 h
      cases heq
      exact htyped.build hshape ‹_› hbuild
    · cases (Act.pure_gives.1 h).1
  · cases (Act.pure_gives.1 h).1

theorem Frame.resolve_hasType {f : Frame σ} (hf : f ∈ sc.frames) {t : ValueType} {path : String}
    (h : (f.resolve host v t path).Gives s (some live) s') : live.HasType t := by
  cases f with
  | object self shape =>
      simp only [Frame.resolve] at h
      split at h
      · exact invokeFactory_hasType htyped h
      · cases (Act.pure_gives.1 h).1
  | collection element slot =>
      obtain ⟨name, r, -, rfl, rfl, hget⟩ := Frame.resolve_collection_gives h
      exact .object (htyped.element hf hget)

theorem resolveSymbol_hasType {t : ValueType} {path : String}
    (h : (resolveSymbol host v t path sc.frames).Gives s (some live) s') : live.HasType t := by
  obtain ⟨f, hf, s₁, hresolve⟩ := resolveSymbol_gives h
  exact Frame.resolve_hasType htyped hf hresolve

theorem resolveArgument_hasType {t : ValueType}
    (h : (resolveArgument host sc t v).Gives s (some live) s') : live.HasType t := by
  unfold resolveArgument at h
  split at h
  · split at h
    · exact invokeFactory_hasType htyped h
    · cases (Act.pure_gives.1 h).1
  · split at h
    · obtain ⟨made, hcoerce, heq⟩ := Act.map_gives.1 h
      cases heq
      exact coerce_hasType (Act.ofExcept_gives.1 hcoerce).1
    · exact resolveSymbol_hasType htyped h

theorem resolveValue_hasType {t : ValueType} (h : (resolveValue host sc t v).Gives s live s') :
    live.HasType t := by
  unfold resolveValue at h
  split at h
  · obtain ⟨live?, s₁, hsymbol, h⟩ := Act.bind_gives.1 h
    cases live? with
    | some found =>
        obtain ⟨rfl, -⟩ := Act.pure_gives.1 h
        exact resolveSymbol_hasType htyped hsymbol
    | none => exact absurd h Act.not_throw_gives
  · exact coerce_hasType (Act.ofExcept_gives.1 h).1

end Resolution

end BuildReplay
