import BuildReplay.Android.Project
import BuildReplay.Proofs.Android.Collections
import BuildReplay.Proofs.Project
import BuildReplay.Proofs.Lifting

/-! # What an application project refuses

The errors of the parts of a project that are not the mapper's, and the laws about errors that the
whole project obeys. -/

namespace BuildReplay.Android

open Act (Law)

namespace ApplicationProject

/-- Only a plugin that nobody knows is refused. -/
theorem applyPlugin_raises {id : String} {p p' : ApplicationProject} {e : Error}
    (h : (applyPlugin id).Raises p e p') :
    id ≠ applicationPlugin ∧ id ∉ passivePlugins ∧
      e = .host ("Plugin with id '" ++ id ++ "' not found") ∧ p' = p := by
  unfold Act.Raises applyPlugin at h
  split at h
  · cases h
  · split at h
    · cases h
    · split at h
      · cases h
      · cases h
        exact ⟨‹_›, ‹_›, rfl, rfl⟩

theorem validate_error {p : ApplicationProject} {e : Error} (h : validate p = .error e) :
    ∃ path reason, e = .invalidDeclaration path reason := by
  unfold validate at h
  split at h
  · cases h
  · dsimp only at h
    split at h
    · cases h
    · exact ⟨_, _, (Except.error.inj h).symm⟩

/-- An object is configured in the model alone. -/
theorem configure_object (options : Options) (name : String) (t : Table) (r : ObjectRef) :
    project.configure options name t (.object r) =
      (replay Android.host options name t r).within modelLens :=
  replay_within modelLens Android.host options name t r

theorem configure_components (options : Options) (name : String) (t : Table) (typeName : String) :
    project.configure options name t (.components typeName) =
      if typeName = applicationComponents.typeName then
        (applicationComponents.within registrationsLens).configure options name t
      else throw (.host ("no components " ++ typeName)) := by
  by_cases h : typeName = applicationComponents.typeName <;> simp [Project.configure, project, h]

/-- What replaying a table and registering a callback obey, configuring an extension does. -/
theorem configure_obeys {L : Law ApplicationProject} {options : Options}
    (hreplay : ∀ name t r, L.Obeys ((replay Android.host options name t r).within modelLens))
    (hown : ∀ e, e.path?.isSome → (∀ path key, e ≠ .unresolvedArgument path key) → L.Allows e)
    (hregister : ∀ {point}, point ∈ applicationComponents.points → ∀ path key body,
      L.Obeys ((applicationComponents.within registrationsLens).register
        (registration options path point key body)))
    (hmissing : ∀ message, L.Allows (.host message)) (name : String) (t : Table) (e : Extension) :
    L.Obeys (project.configure options name t e) := by
  cases e with
  | object r =>
      rw [configure_object]
      exact hreplay name t r
  | components typeName =>
      rw [configure_components]
      split
      · exact Components.configure_obeys hown hregister name t
      · exact L.throw (hmissing _)

section Errors

variable {P : Error → Prop} {options : Options} (hP : ∀ message, P (.host message))
  (hL : Law.Tolerates (Law.keeps (fun _ : ApplicationProject => True) P) options.strictness)
include hP hL

/-- A kind of errors with all refusals of hosts and all that the mapper words itself holds all
errors of a project. -/
theorem project_obeys : project.Obeys (Law.keeps (fun _ => True) P) options where
  applyPlugin id p _ := by
    refine ⟨trivial, fun e p' he => ?_⟩
    obtain ⟨-, -, rfl, -⟩ := applyPlugin_raises he
    exact hP _
  registry := Law.keeps_read _
  configure := by
    refine configure_obeys (fun name t r => ?_)
      (fun e _ hne => hL e fun path key heq => absurd heq (hne path key))
      (fun _ _ _ _ => Law.keeps_modify fun _ _ => trivial) hP
    have hreplay : (Law.keeps (fun _ : Model => True) P).Obeys
        (replay Android.host options name t r) := by
      refine (host_obeys (fun _ _ => trivial) hP).replay ?_ hL name t r
      refine fun slot element m _ => ⟨trivial, fun e m' he => ?_⟩
      obtain ⟨-, rfl, -⟩ := host_maybeCreate_raises he
      exact hP _
    exact Law.keeps_within modelLens hreplay
  dependencies v := Law.keeps_modify fun _ _ => trivial
  afterEvaluate p _ := by
    refine ⟨trivial, fun e p' he => ?_⟩
    obtain ⟨path, reason, rfl⟩ := validate_error (Act.readExcept_raises.1 he).1
    exact hL _ fun _ _ h => by cases h

end Errors

end ApplicationProject

end BuildReplay.Android
