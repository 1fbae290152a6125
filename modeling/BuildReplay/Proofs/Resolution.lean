import BuildReplay.Android.Shapes
import BuildReplay.Proofs.Course
import BuildReplay.Shape.Cache

/-! # Parameters and fields of one type

A parameter of a member takes the values that a field of its type takes. For a parameter a table is
put to the factories of the type once; for a field each enclosing object puts it to them again. The
two agree because a host that was asked for a shape gives the same one again. -/

namespace BuildReplay

variable {σ : Type}

/-! ## Shapes that are given again -/

/-- Asked again for a shape that it gave, the host gives the same one and changes nothing. A host
with a cache is one of these. -/
def Host.Recalls (host : Host σ) : Prop :=
  ∀ {t s shape s'}, (host.shapeOf t).Gives s shape s' → (host.shapeOf t).Gives s' shape s'

namespace ShapeCache

theorem get?_add {c : ShapeCache σ} {t : TypeRef} (h : c.get? t = none) (shape : Shape σ) :
    (c.add t shape).2.get? t = some (c.add t shape).1 := by
  have hfind : c.entries.find? (·.1 == t) = none := Option.map_eq_none_iff.1 h
  simp [add, get?, List.find?_append, hfind]

theorem shapeOf_gives_of_get? {host : Host σ} {t : TypeRef} {s : σ × ShapeCache σ}
    {built : BuiltShape σ} (h : s.2.get? t = some built) : (shapeOf host t).Gives s built s := by
  simp only [Act.Gives, shapeOf, h]

/-- A shape that was given is in the cache. -/
theorem get?_of_shapeOf_gives {host : Host σ} {t : TypeRef} {s s' : σ × ShapeCache σ}
    {built : BuiltShape σ} (h : (shapeOf host t).Gives s built s') : s'.2.get? t = some built := by
  obtain ⟨s, c⟩ := s
  simp only [Act.Gives, shapeOf] at h
  split at h
  · cases h
    assumption
  · rename_i hnone
    split at h
    · cases h
      exact get?_add hnone _
    · cases h

end ShapeCache

/-- With a cache every host gives its shapes again. -/
theorem Host.cached_recalls (host : Host σ) : host.cached.Recalls := by
  intro t s shape s' h
  obtain ⟨built, hbuilt, rfl⟩ := Act.map_gives.1 h
  have hcached := ShapeCache.get?_of_shapeOf_gives hbuilt
  exact Act.map_gives.2 ⟨built, ShapeCache.shapeOf_gives_of_get? hcached, rfl⟩

/-! ## Tables in the frames -/

section Tables

variable {host : Host σ} {t : ValueType} {v : Value} {path : String} {self : ObjectRef}
  {shape : Shape σ} {s s' : σ}

theorem invokeFactory_again (hhost : host.Recalls) {factory argument : String}
    (h : (invokeFactory host t factory argument path).Gives s none s') :
    (invokeFactory host t factory argument path).Gives s' none s' := by
  unfold invokeFactory at h ⊢
  split at h
  · split at h
    · rw [if_pos ‹_›]
      obtain ⟨hconstant, rfl⟩ := Act.ofExcept_gives.1 h
      exact Act.ofExcept_gives.2 ⟨hconstant, rfl⟩
    · rw [if_neg ‹_›]
      exact Act.pure_gives.2 ⟨rfl, rfl⟩
  · obtain ⟨shape, s₁, hshape, h⟩ := Act.bind_gives.1 h
    split at h
    · obtain ⟨live, -, hlive⟩ := Act.map_gives.1 h
      cases hlive
    · rename_i hnone
      obtain ⟨-, rfl⟩ := Act.pure_gives.1 h
      refine Act.bind_gives.2 ⟨shape, s₁, hhost hshape, ?_⟩
      rw [hnone]
      exact Act.pure_gives.2 ⟨rfl, rfl⟩
  · exact Act.pure_gives.2 ⟨rfl, rfl⟩

/-- A table that an object's frame knew nothing of is unknown to it again. -/
theorem Frame.resolve_again (hhost : host.Recalls)
    (h : ((Frame.object self shape).resolve host v t path).Gives s none s') :
    ((Frame.object self shape).resolve host v t path).Gives s' none s' := by
  simp only [Frame.resolve] at h ⊢
  split at h
  · exact invokeFactory_again hhost h
  · exact Act.pure_gives.2 ⟨rfl, rfl⟩

theorem Frame.resolve_collection_table (element : TypeRef) (slot : Slot) (entries : Table) :
    (Frame.collection element slot).resolve host (.table entries) t path = pure none := by
  simp only [Frame.resolve]

/-- What one object's frame does not know of a table, no frame around it does. -/
theorem resolveSymbol_table_none {entries : Table}
    (h : ((Frame.object self shape).resolve host (.table entries) t path).Gives s none s)
    (frames : List (Frame σ)) :
    (resolveSymbol host (.table entries) t path frames).Gives s none s := by
  induction frames with
  | nil => exact Act.pure_gives.2 ⟨rfl, rfl⟩
  | cons f outer ih =>
      refine Act.bind_gives.2 ⟨none, s, ?_, ih⟩
      cases f with
      | object self' shape' => exact h
      | collection element slot =>
          rw [Frame.resolve_collection_table]
          exact Act.pure_gives.2 ⟨rfl, rfl⟩

/-- A table stands for what the frame of any enclosing object says. -/
theorem resolveSymbol_table (hhost : host.Recalls) {entries : Table} {frames : List (Frame σ)}
    (hframe : Frame.object self shape ∈ frames) :
    resolveSymbol host (.table entries) t path frames =
      (Frame.object self shape).resolve host (.table entries) t path := by
  induction frames with
  | nil => exact absurd hframe List.not_mem_nil
  | cons f outer ih =>
      cases f with
      | collection element slot =>
          have houter : Frame.object self shape ∈ outer := by simpa using hframe
          rw [resolveSymbol, Frame.resolve_collection_table, pure_bind]
          exact ih houter
      | object self' shape' =>
          -- the innermost object has the last word, and the frame of any other would say the same
          change resolveSymbol host (.table entries) t path (.object self' shape' :: outer) =
            (Frame.object self' shape').resolve host (.table entries) t path
          funext s
          rcases Act.gives_or_raises
              ((Frame.object self' shape').resolve host (.table entries) t path) s with
            ⟨live?, s', h⟩ | ⟨e, s', h⟩
          · rw [resolveSymbol, h.bind_eq, h]
            cases live? with
            | some live => rfl
            | none => exact resolveSymbol_table_none (Frame.resolve_again hhost h) outer
          · rw [resolveSymbol, h.bind, h]

end Tables

/-! ## The two lookups -/

section Lookups

variable {host : Host σ} {sc : Scope σ}

theorem resolveArgument_table {t : ValueType} (ht : t ≠ .any) (entries : Table) (self : ObjectRef)
    (shape : Shape σ) :
    resolveArgument host sc t (.table entries) =
      (Frame.object self shape).resolve host (.table entries) t sc.keyPath := by
  have htable : (Value.isTable (.table entries) && t != .any) = true := by simp [Value.isTable, ht]
  rewrite [resolveArgument, if_pos htable, Frame.resolve]
  rfl

/-- The value for a field is the argument for a parameter of the type, and none is an error. -/
theorem resolveValue_eq (hhost : host.Recalls)
    (hframes : ∃ self shape, .object self shape ∈ sc.frames) (t : ValueType) (v : Value) :
    resolveValue host sc t v = (do
      match ← resolveArgument host sc t v with
      | some live => return live
      | none => throw (.unsupportedCoercion sc.keyPath t.text v.describe)) := by
  obtain ⟨self, shape, hframe⟩ := hframes
  by_cases hsymbolic : isSymbolic t v
  · have hany : t ≠ .any := by
      rintro rfl
      cases hsymbolic
    rw [resolveValue, if_pos hsymbolic]
    by_cases htable : v.isTable
    · obtain ⟨entries, rfl⟩ := Value.exists_of_isTable htable
      rewrite [resolveSymbol_table hhost hframe, ← resolveArgument_table hany]
      rfl
    · have hscalar : ¬t.isScalar := by simpa [isSymbolic, hany, htable] using hsymbolic
      rewrite [resolveArgument, if_neg (by simp [htable]), if_neg hscalar]
      rfl
  · have hscalar : t.isScalar ∧ ¬(v.isTable && t != .any) := by
      by_cases hany : t = .any
      · subst hany
        exact ⟨rfl, by simp⟩
      · have h : v.isTable = false ∧ t.isScalar := by simpa [isSymbolic, hany] using hsymbolic
        exact ⟨h.2, by simp [h.1]⟩
    rw [resolveValue, if_neg hsymbolic, resolveArgument, if_neg hscalar.2, if_pos hscalar.1,
      bind_map_left, bind_pure]

/-- A parameter and a field of one type take the same values, in every scope with an enclosing
object: one gives a value exactly where the other does, they fail with the same errors, and where
nothing fits a parameter, a field refuses the value. -/
theorem resolveArgument_agrees (hhost : host.Recalls)
    (hframes : ∃ self shape, .object self shape ∈ sc.frames) (t : ValueType) (v : Value) (s : σ) :
    (∀ live s', (resolveArgument host sc t v).Gives s (some live) s' ↔
      (resolveValue host sc t v).Gives s live s') ∧
    (∀ e s', (resolveArgument host sc t v).Raises s e s' →
      (resolveValue host sc t v).Raises s e s') ∧
    ∀ s', (resolveArgument host sc t v).Gives s none s' →
      (resolveValue host sc t v).Raises s
        (.unsupportedCoercion sc.keyPath t.text v.describe) s' := by
  rw [resolveValue_eq hhost hframes]
  refine ⟨fun live s' => ⟨fun h => ?_, fun h => ?_⟩, fun e s' h => h.bind _, fun s' h => ?_⟩
  · exact Act.bind_gives.2 ⟨some live, s', h, Act.pure_gives.2 ⟨rfl, rfl⟩⟩
  · obtain ⟨live?, s₁, hargument, h⟩ := Act.bind_gives.1 h
    cases live? with
    | some live' =>
        obtain ⟨rfl, rfl⟩ := Act.pure_gives.1 h
        exact hargument
    | none => exact absurd h Act.not_throw_gives
  · exact Act.bind_raises.2 (.inr ⟨none, s', h, Act.throw_raises.2 ⟨rfl, rfl⟩⟩)

open Android in
/-- No factory makes a build type, so a key of a build type that takes another one refuses a call
for it, after both enclosing objects were asked. -/
theorem resolveArgument_agrees_initWith :
    ∃ s', (resolveValue Android.host.cached
      ⟨⟨.lenient, ⟨"/"⟩⟩, ["android", "buildTypes", "debug", "initWith"],
        [.object ⟨typeRef BuildType, 0⟩
            ((Shape.ofDeclarations (typeRef BuildType) BuildType.declarations).within .fst),
          .collection (typeRef BuildType) ⟨⟨typeRef ApplicationExtension, 0⟩, "buildTypes"⟩,
          .object ⟨typeRef ApplicationExtension, 0⟩
            ((Shape.ofDeclarations (typeRef ApplicationExtension)
              ApplicationExtension.declarations).within .fst)]⟩
      (.object (typeRef BuildType)) (.table [("named", .string "release")])).Raises
        (Model.empty, .empty)
        (.unsupportedCoercion "android.buildTypes.debug.initWith" "BuildType" "table") s' := by
  refine ⟨_, (resolveArgument_agrees Android.host.cached_recalls ⟨_, _, List.mem_cons_self⟩ _ _
    _).2.2 (Model.empty, ⟨[(typeRef BuildType, ⟨.ofDeclarations (typeRef BuildType)
      BuildType.declarations, 0⟩)], 1⟩) ?_⟩
  rfl

end Lookups

end BuildReplay
