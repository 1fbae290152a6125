import BuildReplay.Proofs.Placement.Walk
import BuildReplay.Proofs.Setter

/-! # Fields under two keys

A settable field of a boolean may go by its accessor name, and then it takes keys with and without
the `is`. Both keys find the field and do the same with it, but for one thing: where the field has
no storage, the member that sets it goes by the key as it stands in the document. -/

namespace BuildReplay

open Act (Parallel ParallelFrom)

variable {σ : Type}

/-! ## Both keys of a field -/

theorem isName_ne_dispatchKey (key : String) : isName key ≠ dispatchKey := by
  intro h
  have hfirst := congrArg (fun s : String => s.toList.head?) h
  simp [isName, dispatchKey] at hfirst

section Keys

variable {shape : Shape σ} {key : String} {f : Field σ}

theorem route_of_accessor (hkey : key ≠ dispatchKey) (hfree : shape.settable? key = none)
    (h : shape.settable? (isName key) = some f) : route shape key = .settable f := by
  rw [route, if_neg hkey, hfree, h]
  rfl

theorem route_accessor (h : shape.settable? (isName key) = some f) :
    route shape (isName key) = .settable f := by
  rw [route, if_neg (isName_ne_dispatchKey key), h]
  rfl

variable {host : Host σ} {outer : Scope σ} {self : ObjectRef} {v : Value} {s : σ}

/-- The scopes of two keys of one table stand at the same place. -/
theorem Scope.facing_key (outer : Scope σ) (key key' : String) :
    (outer.key key).Facing (outer.key key).keyPath (outer.key key').keyPath
      (outer.key key').path where
  ne_nil := by simp [Scope.key]
  other_ne_nil := by simp [Scope.key]
  place := .refl _ _

/-- Plain writes of a field by two keys, where it has storage or the keys set it by one member. -/
theorem assign_parallel_keys {key' : String}
    (h : f.write? = none → ∃ m, shape.setter? key = some m ∧ shape.setter? key' = some m) :
    Parallel (outer.key key).keyPath (outer.key key').keyPath
      (assign host (outer.key key) shape self f key v)
      (assign host (outer.key key') shape self f key' v) := by
  have hvalue : Parallel (outer.key key).keyPath (outer.key key').keyPath
      (resolveValue host (outer.key key) f.type v) (resolveValue host (outer.key key') f.type v) :=
    resolveValue_parallel (outer.facing_key key key').place f.type
  cases hwrite : f.write? with
  | some write =>
      rw [assign, assign, hwrite]
      exact hvalue.bind fun live => .refl _ _ _
  | none =>
      obtain ⟨m, hm, hm'⟩ := h hwrite
      rw [assign_without_storage hwrite, assign_without_storage hwrite]
      refine hvalue.bind fun live => ?_
      rw [setThrough_of_setter hm, setThrough_of_setter hm']
      exact .refl _ _ _

/-- What is left of a key does not depend on the key. -/
theorem walkKey_parallel {key' : String}
    (h : ParallelFrom (outer.key key).keyPath (outer.key key').keyPath s
      (keyStep host (outer.key key) shape self key v)
      (keyStep host (outer.key key') shape self key' v)) :
    ParallelFrom (outer.key key).keyPath (outer.key key').keyPath s
      (walkKey host (outer.key key) shape self key v)
      (walkKey host (outer.key key') shape self key' v) :=
  h.bind fun next s' _ => walkNext_parallel (outer.facing_key key key') next v s'

/-- The keys set a field without storage by members of their own: they come to the same value, and
each hands it to the member that goes by it. -/
structure SetsApart (host : Host σ) (outer : Scope σ) (shape : Shape σ) (r : ObjectRef)
    (f : Field σ) (key key' : String) (v : Value) (s : σ) : Prop where
  storage : f.write? = none
  setters : ∀ m, shape.setter? key = some m → shape.setter? key' ≠ some m
  writes : ∃ live s', (resolveValue host (outer.key key) f.type v).Gives s live s' ∧
    (resolveValue host (outer.key key') f.type v).Gives s live s' ∧
    walkKey host (outer.key key) shape r key v s =
      setThrough (outer.key key) shape r f key live s' ∧
    walkKey host (outer.key key') shape r key' v s =
      setThrough (outer.key key') shape r f key' live s'

/-- Two keys that are one settable field do the same, and their errors differ in the key's part of
the path only, unless they set a field without storage by members of their own. -/
theorem walkKey_parallel_or_setsApart {key' : String} (hroute : route shape key = .settable f)
    (hroute' : route shape key' = .settable f) :
    ParallelFrom (outer.key key).keyPath (outer.key key').keyPath s
        (walkKey host (outer.key key) shape self key v)
        (walkKey host (outer.key key') shape self key' v) ∨
      SetsApart host outer shape self f key key' v s := by
  have hplace := (outer.facing_key key key').place
  rcases settableStep_parallel_or_assigns hplace key key' s with hparallel | ⟨hassign, hassign'⟩
  · left
    apply walkKey_parallel
    rw [keyStep, hroute, keyStep, hroute']
    exact hparallel
  have hwalk := walkKey_of_assigns hroute hassign
  have hwalk' : walkKey host (outer.key key') shape self key' v s =
      assign host (outer.key key') shape self f key' v s := walkKey_of_assigns hroute' hassign'
  by_cases hcommon :
      f.write? = none → ∃ m, shape.setter? key = some m ∧ shape.setter? key' = some m
  · left
    rw [ParallelFrom, hwalk, hwalk']
    exact assign_parallel_keys hcommon s
  · obtain ⟨hstorage, hsetters⟩ := Classical.not_imp.1 hcommon
    have hvalue : ParallelFrom (outer.key key).keyPath (outer.key key').keyPath s
        (resolveValue host (outer.key key) f.type v)
        (resolveValue host (outer.key key') f.type v) := resolveValue_parallel hplace f.type s
    rw [assign_without_storage hstorage] at hwalk hwalk'
    rcases Act.gives_or_raises (resolveValue host (outer.key key) f.type v) s with
      ⟨live, s', hlive⟩ | ⟨e, s', hraises⟩
    · right
      have hlive' := hvalue.gives hlive
      refine ⟨hstorage, fun m hm hm' => hsetters ⟨m, hm, hm'⟩, live, s', hlive, hlive', ?_, ?_⟩
      · rw [hwalk, hlive.bind_eq]
      · rw [hwalk', hlive'.bind_eq]
    · left
      rw [ParallelFrom, hwalk, hwalk']
      exact hvalue.bind fun live s₁ hlive => absurd hraises hlive.not_raises

/-- A settable field that goes by its accessor name takes the key without the `is` as it takes the
accessor name: the objects end up the same, and so does the outcome, but for the key's own part of
the path of an error. A field without storage is set, under each key, through the setter of that
key. -/
theorem walkKey_accessor (hkey : key ≠ dispatchKey) (hfree : shape.settable? key = none)
    (hfield : shape.settable? (isName key) = some f) (host : Host σ) (outer : Scope σ)
    (self : ObjectRef) (v : Value) (s : σ) :
    ParallelFrom (outer.key key).keyPath (outer.key (isName key)).keyPath s
        (walkKey host (outer.key key) shape self key v)
        (walkKey host (outer.key (isName key)) shape self (isName key) v) ∨
      SetsApart host outer shape self f key (isName key) v s :=
  walkKey_parallel_or_setsApart (route_of_accessor hkey hfree hfield) (route_accessor hfield)

end Keys

namespace Lab

/-- A shape with a field whose accessor name is that of the key of requests. -/
def Options.dispatching : Shape World :=
  .ofDeclarations (typeRef Options)
    [.stored (isName dispatchKey) .bool Options.verbose fun v o => { o with verbose := v }]

end Lab

/-- No text is a boolean, and both keys of `isDone` say so, each with its own path. -/
theorem walkKey_accessor_done :
    ParallelFrom (Lab.outer.key "done").keyPath (Lab.outer.key "isDone").keyPath Lab.World.empty
      (walkKey Lab.host (Lab.outer.key "done") Lab.Broken.shape ⟨typeRef Lab.Broken, 0⟩ "done"
        (.string "yes"))
      (walkKey Lab.host (Lab.outer.key "isDone") Lab.Broken.shape ⟨typeRef Lab.Broken, 0⟩ "isDone"
        (.string "yes")) :=
  (walkKey_accessor (by decide) rfl (Option.some_get rfl).symm Lab.host Lab.outer
    ⟨typeRef Lab.Broken, 0⟩ (.string "yes") Lab.World.empty).resolve_right
      fun h => Option.some_ne_none _ h.storage

/-- The two keys of `isLost`, which has no storage, call a setter each. And the key of requests is
the key of no field, whatever has its accessor name. -/
theorem walkKey_accessor_lost :
    (Lab.Broken.shape.settable? "lost" = none ∧
      (Lab.Broken.shape.settable? (isName "lost")).isSome ∧
      ¬ParallelFrom (Lab.outer.key "lost").keyPath (Lab.outer.key (isName "lost")).keyPath
        Lab.World.empty
        (walkKey Lab.host (Lab.outer.key "lost") Lab.Broken.shape ⟨typeRef Lab.Broken, 0⟩ "lost"
          (.boolean true))
        (walkKey Lab.host (Lab.outer.key (isName "lost")) Lab.Broken.shape ⟨typeRef Lab.Broken, 0⟩
          (isName "lost") (.boolean true))) ∧
    (Lab.Options.dispatching.settable? dispatchKey = none ∧
      (Lab.Options.dispatching.settable? (isName dispatchKey)).isSome ∧
      ¬ParallelFrom (Lab.outer.key dispatchKey).keyPath
        (Lab.outer.key (isName dispatchKey)).keyPath Lab.World.empty
        (walkKey Lab.host (Lab.outer.key dispatchKey) Lab.Options.dispatching
          ⟨typeRef Lab.Options, 0⟩ dispatchKey (.boolean true))
        (walkKey Lab.host (Lab.outer.key (isName dispatchKey)) Lab.Options.dispatching
          ⟨typeRef Lab.Options, 0⟩ (isName dispatchKey) (.boolean true))) := by
  refine ⟨⟨rfl, rfl, fun ⟨_, hstate⟩ => ?_⟩, rfl, rfl, fun ⟨hresult, _⟩ => ?_⟩
  · have hlog : ["lost true"] = ["isLost true"] :=
      congrArg (fun w => ((Ref.mk 0 : Ref Lab.Broken).get w : Lab.Broken).log) hstate
    simp at hlog
  · have hmalformed : SameResult (α := Unit) (Lab.outer.key dispatchKey).keyPath
        (Lab.outer.key (isName dispatchKey)).keyPath
        (.error (.malformedDispatch "module._dispatch_" "expected a table, found boolean true"))
        (.ok ()) := hresult
    cases hmalformed

end BuildReplay
