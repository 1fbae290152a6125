import BuildReplay.Proofs.Android.Project
import BuildReplay.Proofs.Strictness.Walk

/-! # Whole documents under both strictnesses

Two runs of one document on one project, strict and lenient, are kept side by side. Their projects
differ in the strictness that the callbacks have captured, and in nothing else, until the strict run
ends with an error of strict mode. -/

namespace BuildReplay.Android.ApplicationProject

open Act (Law)

variable {α β : Type}

/-- The callback with its captured strictness forgotten. -/
def forgetCallback : Callback → Callback
  | .replay path payload options body =>
    .replay path payload { options with strictness := .lenient } body
  | .refuse reason => .refuse reason

theorem forgetCallback_eq {c d : Callback} (h : c.Relaxes d) :
    forgetCallback c = forgetCallback d := by
  cases h <;> rfl

/-- The project with the captured strictness of its callbacks forgotten. -/
def forget (p : ApplicationProject) : ApplicationProject :=
  { p with registrations :=
    p.registrations.map fun r => { r with callback := forgetCallback r.callback } }

/-- The projects are the same, but for callbacks that strict mode has kept in the first and lenient
mode in the second. -/
structure Relaxes (p q : ApplicationProject) : Prop where
  rest : q = { p with registrations := q.registrations }
  registrations : List.Forall₂ Registration.Relaxes p.registrations q.registrations

theorem Relaxes.refl (p : ApplicationProject) : p.Relaxes p :=
  ⟨rfl, List.forall₂_same.2 fun r _ => .refl r⟩

theorem Relaxes.forget {p q : ApplicationProject} (h : p.Relaxes q) : p.forget = q.forget := by
  have hmap : ∀ {rs qs : List Registration}, List.Forall₂ Registration.Relaxes rs qs →
      rs.map (fun r => { r with callback := forgetCallback r.callback }) =
        qs.map fun r => { r with callback := forgetCallback r.callback } := by
    intro rs qs h
    induction h with
    | nil => rfl
    | @cons r q rs qs hrq _ ih =>
        rw [List.map_cons, List.map_cons, ih, hrq.point, hrq.selector,
          forgetCallback_eq hrq.callback]
  rw [ApplicationProject.forget, ApplicationProject.forget, hmap h.registrations, h.rest]

/-- Side by side, the acts end in the same way, unless the first ends with an error of strict
mode. -/
structure Simulates (x y : Act ApplicationProject α) : Prop where
  gives : ∀ {p q a p'}, Relaxes p q → x.Gives p a p' → ∃ q', y.Gives q a q' ∧ Relaxes p' q'
  raises : ∀ {p q e p'}, Relaxes p q → x.Raises p e p' → e.isSkip = false →
    ∃ q', y.Raises q e q' ∧ Relaxes p' q'

namespace Simulates

theorem bind {x y : Act ApplicationProject α} {f g : α → Act ApplicationProject β}
    (h : Simulates x y) (hfg : ∀ a, Simulates (f a) (g a)) : Simulates (x >>= f) (y >>= g) where
  gives {p q b p'} hpq hx := by
    obtain ⟨a, p₁, hx, hf⟩ := Act.bind_gives.1 hx
    obtain ⟨q₁, hy, hpq₁⟩ := h.gives hpq hx
    obtain ⟨q', hg, hpq'⟩ := (hfg a).gives hpq₁ hf
    exact ⟨q', Act.bind_gives.2 ⟨a, q₁, hy, hg⟩, hpq'⟩
  raises {p q e p'} hpq hx he := by
    rcases Act.bind_raises.1 hx with hx | ⟨a, p₁, hx, hf⟩
    · obtain ⟨q', hy, hpq'⟩ := h.raises hpq hx he
      exact ⟨q', hy.bind g, hpq'⟩
    · obtain ⟨q₁, hy, hpq₁⟩ := h.gives hpq hx
      obtain ⟨q', hg, hpq'⟩ := (hfg a).raises hpq₁ hf he
      exact ⟨q', Act.bind_raises.2 (.inr ⟨a, q₁, hy, hg⟩), hpq'⟩

/-- One act, whose outcome and effect are the same on both projects. -/
theorem of_apply {x y : Act ApplicationProject α}
    (h : ∀ {p q}, Relaxes p q → (y q).1 = (x p).1 ∧ Relaxes (x p).2 (y q).2) : Simulates x y where
  gives {p q a p'} hpq hx := by
    obtain ⟨hfst, hsnd⟩ := h hpq
    rw [hx] at hfst hsnd
    exact ⟨(y q).2, Prod.ext hfst rfl, hsnd⟩
  raises {p q e p'} hpq hx _ := by
    obtain ⟨hfst, hsnd⟩ := h hpq
    rw [hx] at hfst hsnd
    exact ⟨(y q).2, Prod.ext hfst rfl, hsnd⟩

theorem pure (a : α) : Simulates (pure a) (pure a) := of_apply fun h => ⟨rfl, h⟩

theorem throw (e : Error) :
    Simulates (throw e : Act ApplicationProject α) (throw e) := of_apply fun h => ⟨rfl, h⟩

theorem ofExcept (r : Except Error α) : Simulates (.ofExcept r) (.ofExcept r) :=
  of_apply fun h => ⟨rfl, h⟩

/-- Reading what both projects have in common. -/
theorem read {f : ApplicationProject → α} (h : ∀ p rs, f { p with registrations := rs } = f p) :
    Simulates (.read f) (.read f) :=
  of_apply fun {p q} hpq => ⟨by rw [hpq.rest]; exact congrArg Except.ok (h p _), hpq⟩

/-- Acts on the model that refine one another. -/
theorem onModel {x y : Act ApplicationProject α} (hxy : Refines x y)
    (hy : (Law.onPart modelLens).Obeys y) : Simulates x y := by
  have happly : ∀ {p q}, Relaxes p q → (y q).1 = (y p).1 ∧ Relaxes (y p).2 (y q).2 := by
    intro p q hpq
    obtain ⟨r, m, hr⟩ := hy p.model
    have hmodel : modelLens.get q = p.model := by rw [hpq.rest]; rfl
    rw [hr p rfl, hr q hmodel]
    refine ⟨rfl, ?_, hpq.registrations⟩
    exact congrArg (modelLens.set m) hpq.rest
  constructor
  · intro p q a p' hpq hx
    rcases hxy p with heq | ⟨e, s', -, hraises⟩
    · obtain ⟨hfst, hsnd⟩ := happly hpq
      rw [← heq, hx] at hfst hsnd
      exact ⟨(y q).2, Prod.ext hfst rfl, hsnd⟩
    · exact absurd hraises hx.not_raises
  · intro p q e p' hpq hx he
    rcases hxy p with heq | ⟨e', s', he', hraises⟩
    · obtain ⟨hfst, hsnd⟩ := happly hpq
      rw [← heq, hx] at hfst hsnd
      exact ⟨(y q).2, Prod.ext hfst rfl, hsnd⟩
    · obtain ⟨rfl, -⟩ := hraises.unique hx
      rw [he] at he'
      cases he'

end Simulates

/-! ## Extensions -/

theorem register_simulates {r q : Registration} (h : r.Relaxes q) :
    Simulates ((applicationComponents.within registrationsLens).register r)
      ((applicationComponents.within registrationsLens).register q) := by
  refine Simulates.of_apply fun {p p'} hpq => ⟨rfl, ?_, ?_⟩
  · rw [hpq.rest]
    rfl
  · exact List.rel_append hpq.registrations (.cons h .nil)

theorem registerEntries_simulates (root : Path) (path : String) (point : CallbackPoint)
    (entries : Table) :
    Simulates
      (registerEntries ⟨.strict, root⟩ path point
        (applicationComponents.within registrationsLens).register entries)
      (registerEntries ⟨.lenient, root⟩ path point
        (applicationComponents.within registrationsLens).register entries) := by
  induction entries with
  | nil => exact .pure ()
  | cons e rest ih =>
      obtain ⟨key, v⟩ := e
      cases v with
      | table body =>
          have hrelaxes : (registration ⟨.strict, root⟩ path point key body).Relaxes
              (registration ⟨.lenient, root⟩ path point key body) :=
            ⟨rfl, rfl, .replay _ _ _ _⟩
          exact (register_simulates hrelaxes).bind fun _ => ih
      | _ => exact .throw _

/-- The two runs register the same callbacks, each with its own strictness. -/
theorem configure_components_simulates (root : Path) (path : String) (t : Table) :
    Simulates ((applicationComponents.within registrationsLens).configure ⟨.strict, root⟩ path t)
      ((applicationComponents.within registrationsLens).configure ⟨.lenient, root⟩ path t) := by
  induction t with
  | nil => exact .pure ()
  | cons e rest ih =>
      obtain ⟨key, v⟩ := e
      simp only [Components.configure]
      split
      · exact .throw _
      · refine Simulates.bind ?_ fun _ => ih
        unfold registerCallbacks
        split
        · exact registerEntries_simulates _ _ _ _
        · exact .throw _

theorem configure_simulates (root : Path) (name : String) (t : Table) (e : Extension) :
    Simulates (project.configure ⟨.strict, root⟩ name t e)
      (project.configure ⟨.lenient, root⟩ name t e) := by
  cases e with
  | object r =>
      have hrefines := (replay_refines Android.host_steady root name t r).within modelLens
      rw [configure_object, configure_object]
      exact .onModel hrefines (Law.onPart_within _ _)
  | components typeName =>
      rw [configure_components, configure_components]
      split
      · exact configure_components_simulates root name t
      · exact .throw _

/-! ## Documents -/

theorem applyPlugin_simulates (id : String) : Simulates (applyPlugin id) (applyPlugin id) := by
  refine Simulates.of_apply fun {p q} hpq => ?_
  have hplugins : q.plugins = p.plugins := by rw [hpq.rest]
  unfold applyPlugin
  rw [hplugins]
  split
  · exact ⟨rfl, hpq⟩
  · split
    · have happlication : q.addApplication = p.addApplication := by rw [hpq.rest]; rfl
      refine ⟨rfl, ?_⟩
      dsimp only
      rw [happlication]
      exact .refl _
    · split
      · refine ⟨rfl, ?_, hpq.registrations⟩
        rw [hpq.rest]
      · exact ⟨rfl, hpq⟩

theorem applyKeys_simulates (root : Path) (t : Table) :
    Simulates (project.applyKeys ⟨.strict, root⟩ t) (project.applyKeys ⟨.lenient, root⟩ t) := by
  induction t with
  | nil => exact .pure ()
  | cons e rest ih =>
      obtain ⟨key, v⟩ := e
      have hkey : Simulates (project.applyKey ⟨.strict, root⟩ key v)
          (project.applyKey ⟨.lenient, root⟩ key v) := by
        cases v with
        | table t =>
            refine Simulates.bind (.read fun _ _ => rfl) fun registry => ?_
            split
            · exact configure_simulates root key t _
            · exact .throw _
        | _ => exact .throw _
      simp only [Project.applyKeys]
      split
      · exact hkey.bind fun _ => ih
      · exact ih

theorem apply_simulates (root : Path) (document : Table) :
    Simulates (project.apply ⟨.strict, root⟩ document) (project.apply ⟨.lenient, root⟩ document) := by
  have hplugins : ∀ ids, Simulates (project.applyPlugins ids) (project.applyPlugins ids) := by
    intro ids
    induction ids with
    | nil => exact .pure ()
    | cons id rest ih => exact (applyPlugin_simulates id).bind fun _ => ih
  rw [Project.apply_eq, Project.apply_eq]
  refine Simulates.bind ?_ fun _ => (applyKeys_simulates root document).bind fun _ =>
    Simulates.bind ?_ fun _ => ?_
  · unfold Project.applyListed
    split
    · exact .bind (.ofExcept _) hplugins
    · exact .pure ()
  · unfold Project.takeDependencies
    split
    · refine Simulates.of_apply fun {p q} hpq => ⟨rfl, ?_, hpq.registrations⟩
      rw [hpq.rest]
      rfl
    · exact .pure ()
  · refine Simulates.of_apply fun {p q} hpq => ⟨?_, hpq⟩
    rw [hpq.rest]
    rfl

/-! ## Variants -/

theorem runVariants_refines {rs qs : List Registration}
    (h : List.Forall₂ Registration.Relaxes rs qs) (names : List String) :
    Refines (runVariants rs names) (runVariants qs names) := by
  induction names with
  | nil => exact .refl _
  | cons name rest ih =>
      simp only [runVariants]
      refine .bind (.refl _) fun builder => ?_
      refine .bind (fire_refines Android.host_steady h _ _ _) fun _ => ?_
      refine .bind (.refl _) fun enabled => ?_
      split
      · refine .bind (.refl _) fun variant => ?_
        refine .bind (fire_refines Android.host_steady h _ _ _) fun _ => ?_
        exact .bind ih fun _ => .refl _
      · exact ih

theorem finish_simulates : Simulates finish finish := by
  have hfinish : ∀ {p q : ApplicationProject}, Relaxes p q →
      ∃ x y : Act ApplicationProject (List (Ref Variant)),
        Simulates x y ∧ finish p = x p ∧ finish q = y q := by
    intro p q hpq
    have happlication : q.application = p.application := by rw [hpq.rest]
    have hnames : q.variantNames = p.variantNames := by rw [hpq.rest]; rfl
    cases ha : p.application with
    | none =>
        refine ⟨pure [], pure [], .pure [], ?_, ?_⟩
        · simp only [finish, ha]
          rfl
        · simp only [finish, happlication, ha]
          rfl
    | some a =>
        refine ⟨(runVariants p.registrations p.variantNames).within modelLens,
          (runVariants q.registrations p.variantNames).within modelLens,
          .onModel ((runVariants_refines hpq.registrations _).within modelLens)
            (Law.onPart_within _ _), ?_, ?_⟩
        · simp only [finish, ha]
        · simp only [finish, happlication, ha, hnames]
  constructor
  · intro p q a p' hpq hp
    obtain ⟨x, y, hxy, hx, hy⟩ := hfinish hpq
    obtain ⟨q', hq, hpq'⟩ := hxy.gives hpq (hx.symm.trans hp)
    exact ⟨q', hy.trans hq, hpq'⟩
  · intro p q e p' hpq hp he
    obtain ⟨x, y, hxy, hx, hy⟩ := hfinish hpq
    obtain ⟨q', hq, hpq'⟩ := hxy.raises hpq (hx.symm.trans hp) he
    exact ⟨q', hy.trans hq, hpq'⟩

/-! ## What lenient mode never says -/

/-- In lenient mode no key is refused because nothing fits. -/
theorem apply_lenient_obeys (root : Path) (document : Table) :
    (Law.keeps (fun _ => True) fun e => ∀ path key, e ≠ .unresolvedArgument path key).Obeys
      (project.apply ⟨.lenient, root⟩ document) := by
  have hL : Law.Tolerates (Law.keeps (fun _ : ApplicationProject => True)
      fun e => ∀ path key, e ≠ .unresolvedArgument path key) .lenient := by
    intro e he path key heq
    cases he path key heq
  have hproject : project.Obeys _ ⟨.lenient, root⟩ :=
    project_obeys (fun _ _ _ h => by cases h) hL
  exact hproject.apply hL document

/-- Strict mode only adds failures. Where it applies a document, lenient mode applies it to the same
effect, and so with the variants that are made afterwards; where it fails with an error that is not
its own, lenient mode fails with that error and to the same effect. Lenient mode refuses no key
because nothing fits. -/
theorem apply_strict_lenient (p : ApplicationProject) (root : Path) (document : Table) :
    (∀ p', (project.apply ⟨.strict, root⟩ document).Gives p () p' →
      ∃ q', (project.apply ⟨.lenient, root⟩ document).Gives p () q' ∧ q'.forget = p'.forget ∧
        ∀ variants p'', finish.Gives p' variants p'' →
          ∃ q'', finish.Gives q' variants q'' ∧ q''.forget = p''.forget) ∧
    (∀ e p', (project.apply ⟨.strict, root⟩ document).Raises p e p' → e.isSkip = false →
      ∃ q', (project.apply ⟨.lenient, root⟩ document).Raises p e q' ∧ q'.forget = p'.forget) ∧
    ∀ path key q',
      ¬(project.apply ⟨.lenient, root⟩ document).Raises p (.unresolvedArgument path key) q' := by
  have hsimulates := apply_simulates root document
  refine ⟨fun p' hstrict => ?_, fun e p' hstrict he => ?_, fun path key q' hlenient => ?_⟩
  · obtain ⟨q', hlenient, hpq⟩ := hsimulates.gives (.refl p) hstrict
    refine ⟨q', hlenient, hpq.forget.symm, fun variants p'' hfinish => ?_⟩
    obtain ⟨q'', hfinish', hpq'⟩ := finish_simulates.gives hpq hfinish
    exact ⟨q'', hfinish', hpq'.forget.symm⟩
  · obtain ⟨q', hlenient, hpq⟩ := hsimulates.raises (.refl p) hstrict he
    exact ⟨q', hlenient, hpq.forget.symm⟩
  · exact (apply_lenient_obeys root document p trivial).2 _ q' hlenient path key rfl

/-- A new project with a callback for every variant, which the two modes keep with their own
strictness. -/
theorem apply_strict_lenient_callback :
    ∃ q', (project.apply ⟨.lenient, ⟨"/"⟩⟩ [("plugins", .array [.string applicationPlugin]),
        ("androidComponents", .table [("onVariants", .table [("all", .table [])])])]).Gives
        (new ⟨"/"⟩) () q' ∧
      q'.registrations.map (fun r => forgetCallback r.callback) =
        [.replay "androidComponents.onVariants.all" (typeRef Variant) ⟨.lenient, ⟨"/"⟩⟩ []] := by
  obtain ⟨q', hlenient, hforget, -⟩ := (apply_strict_lenient (new ⟨"/"⟩) ⟨"/"⟩
    [("plugins", .array [.string applicationPlugin]),
      ("androidComponents", .table [("onVariants", .table [("all", .table [])])])]).1 _ rfl
  refine ⟨q', hlenient, ?_⟩
  have hregistrations := congrArg (fun p => p.registrations.map (·.callback)) hforget
  simp only [forget, List.map_map] at hregistrations
  exact hregistrations

end BuildReplay.Android.ApplicationProject
