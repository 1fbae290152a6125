import BuildReplay.Proofs.Android.Project
import BuildReplay.Proofs.Relocation.Model

/-! # Whole documents from two roots

One document is applied to one project from two roots. The two projects hold the same objects and
the same callbacks, and differ in paths and in the roots that the callbacks have captured. -/

namespace BuildReplay.Android

open Act (Mirrors)

variable {R : Path → Path → Prop} {root root' : Path} {strictness : Strictness}

/-! ## New applications -/

/-- A new application is the same one, and so is all that it holds. -/
theorem create_moved (hR : ∀ p, R p p) (dir : Path) {m m' : Model} (hm : m.Moved R m') :
    (ApplicationExtension.create dir m').1 = (ApplicationExtension.create dir m).1 ∧
      (ApplicationExtension.create dir m).2.Moved R (ApplicationExtension.create dir m').2 := by
  obtain ⟨hdebug, hm₁⟩ :=
    alloc_moved (.refl hR ({ BuildType.new "debug" with debuggable := true } : BuildType)) hm
  obtain ⟨hrelease, hm₂⟩ := alloc_moved (.refl hR (BuildType.new "release")) hm₁
  obtain ⟨hdefault, hm₃⟩ := alloc_moved (.refl hR DefaultConfig.new) hm₂
  obtain ⟨hcompile, hm₄⟩ := alloc_moved (.refl hR CompileOptions.new) hm₃
  simp only [ApplicationExtension.create, hdebug, hrelease, hdefault, hcompile]
  exact alloc_moved (.refl hR _) hm₄

namespace ApplicationProject

variable {α β : Type}

/-- The projects are the same, but for related paths of their models and for callbacks that replay
one table from the two roots. -/
structure Moved (R : Path → Path → Prop) (root root' : Path) (p q : ApplicationProject) : Prop where
  rest : q = { p with model := q.model, registrations := q.registrations }
  model : p.model.Moved R q.model
  registrations : List.Forall₂ (Registration.Relocated R root root') p.registrations q.registrations

theorem Moved.refl (hR : ∀ p, R p p) (p : ApplicationProject) : p.Moved R root root' p :=
  ⟨rfl, .refl hR _, List.forall₂_same.2 fun r _ => .refl r⟩

/-- Acts on the models. -/
theorem onModel_mirrors {V : α → β → Prop} {x : Act Model α} {y : Act Model β}
    (h : Mirrors (Model.Moved R) V x y) :
    Mirrors (Moved R root root') V (x.within modelLens) (y.within modelLens) := by
  intro p q hpq
  obtain ⟨hout, hm⟩ := h p.model q.model hpq.model
  refine ⟨hout, ?_, hm, hpq.registrations⟩
  exact congrArg (modelLens.set _) hpq.rest

/-! ## Callbacks -/

theorem register_mirrors {r q : Registration} (h : r.Relocated R root root' q) :
    Mirrors (Moved R root root') Eq
      ((applicationComponents.within registrationsLens).register r)
      ((applicationComponents.within registrationsLens).register q) := by
  intro p p' hpq
  refine ⟨.ok rfl, ?_, hpq.model, List.rel_append hpq.registrations (.cons h .nil)⟩
  exact congrArg (registrationsLens.set _) hpq.rest

theorem registerEntries_mirrors (path : String) (point : CallbackPoint) {entries : Table}
    (h : Value.Relocates R root root' (.table entries)) :
    Mirrors (Moved R root root') Eq
      (registerEntries ⟨strictness, root⟩ path point
        (applicationComponents.within registrationsLens).register entries)
      (registerEntries ⟨strictness, root'⟩ path point
        (applicationComponents.within registrationsLens).register entries) := by
  induction entries with
  | nil => exact .pure rfl
  | cons e rest ih =>
      obtain ⟨key, v⟩ := e
      cases v with
      | table body =>
          exact (register_mirrors (registration_relocated h.head)).andThen fun _ => ih h.tail
      | _ => exact .throw (.refl _)

/-- The two runs register the same callbacks, each with its own root. -/
theorem configure_components_mirrors (path : String) {t : Table}
    (h : Value.Relocates R root root' (.table t)) :
    Mirrors (Moved R root root') Eq
      ((applicationComponents.within registrationsLens).configure ⟨strictness, root⟩ path t)
      ((applicationComponents.within registrationsLens).configure ⟨strictness, root'⟩ path t) := by
  induction t with
  | nil => exact .pure rfl
  | cons e rest ih =>
      obtain ⟨key, v⟩ := e
      simp only [Components.configure]
      split
      · exact .throw (.refl _)
      · refine Mirrors.andThen ?_ fun _ => ih h.tail
        cases v with
        | table entries => exact registerEntries_mirrors _ _ h.head
        | _ => exact .throw (.refl _)

section Documents

variable (hR : ∀ p, R p p)
include hR

theorem configure_mirrors (name : String) {t : Table}
    (h : Value.Relocates R root root' (.table t)) (e : Extension) :
    Mirrors (Moved R root root') Eq (project.configure ⟨strictness, root⟩ name t e)
      (project.configure ⟨strictness, root'⟩ name t e) := by
  cases e with
  | object r =>
      rw [configure_object, configure_object]
      exact onModel_mirrors ((host_mirrored hR).replay h name r)
  | components typeName =>
      rw [configure_components, configure_components]
      split
      · exact configure_components_mirrors name h
      · exact .throw (.refl _)

/-! ## Documents -/

theorem addApplication_moved {p q : ApplicationProject} (hpq : p.Moved R root root' q) :
    p.addApplication.Moved R root root' q.addApplication := by
  obtain ⟨hnew, hm⟩ := create_moved hR p.projectDir hpq.model
  rw [hpq.rest]
  refine ⟨?_, hm, .nil⟩
  simp only [addApplication, hnew]

theorem applyPlugin_mirrors (id : String) :
    Mirrors (Moved R root root') Eq (applyPlugin id) (applyPlugin id) := by
  intro p q hpq
  have hplugins : q.plugins = p.plugins := by rw [hpq.rest]
  have hlisted : ∀ {p q : ApplicationProject}, p.Moved R root root' q →
      Moved R root root' { p with plugins := p.plugins ++ [id] }
        { q with plugins := q.plugins ++ [id] } := by
    intro p q hpq
    refine ⟨?_, hpq.model, hpq.registrations⟩
    rw [hpq.rest]
  unfold applyPlugin
  by_cases hid : id ∈ p.plugins
  · rw [if_pos hid, if_pos (show id ∈ q.plugins from hplugins ▸ hid)]
    exact ⟨.ok rfl, hpq⟩
  · rw [if_neg hid, if_neg (show id ∉ q.plugins from hplugins ▸ hid)]
    split
    · exact ⟨.ok rfl, hlisted (addApplication_moved hR hpq)⟩
    · split
      · exact ⟨.ok rfl, hlisted hpq⟩
      · exact ⟨.error (.refl _), hpq⟩

theorem applyKeys_mirrors {t : Table} (h : Value.Relocates R root root' (.table t)) :
    Mirrors (Moved R root root') Eq (project.applyKeys ⟨strictness, root⟩ t)
      (project.applyKeys ⟨strictness, root'⟩ t) := by
  induction t with
  | nil => exact .pure rfl
  | cons e rest ih =>
      obtain ⟨key, v⟩ := e
      have hkey : Mirrors (Moved R root root') Eq (project.applyKey ⟨strictness, root⟩ key v)
          (project.applyKey ⟨strictness, root'⟩ key v) := by
        cases v with
        | table t =>
            have hregistry : Mirrors (Moved R root root') Eq (.read registry) (.read registry) :=
              .read fun hpq => by rw [hpq.rest]
            refine hregistry.andThen fun registry => ?_
            split
            · exact configure_mirrors hR key h.head _
            · exact .throw (.refl _)
        | _ => exact .throw (.refl _)
      simp only [Project.applyKeys]
      split
      · exact hkey.andThen fun _ => ih h.tail
      · exact ih h.tail

omit hR in
/-- What a project checks does not depend on its paths. -/
theorem validate_moved {p q : ApplicationProject} (hpq : p.Moved R root root' q) :
    validate q = validate p := by
  have happlication : q.application = p.application := by rw [hpq.rest]
  have hsigning : ∀ b : Ref BuildType,
      (b.get q.model).signingConfig = (b.get p.model).signingConfig :=
    fun b => (keeps_moved.get hpq.model b).congr fun _ _ => rfl
  have hunsigned : ∀ declared entries, unsigned? q.model declared entries =
      unsigned? p.model declared entries := by
    intro declared entries
    induction entries with
    | nil => rfl
    | cons e rest ih => simp only [unsigned?, hsigning, ih]
  simp only [validate, happlication, hpq.model.application, hunsigned]

theorem apply_mirrors {document : Table} (h : Value.Relocates R root root' (.table document)) :
    Mirrors (Moved R root root') Eq (project.apply ⟨strictness, root⟩ document)
      (project.apply ⟨strictness, root'⟩ document) := by
  have hplugins : ∀ ids, Mirrors (Moved R root root') Eq (project.applyPlugins ids)
      (project.applyPlugins ids) := by
    intro ids
    induction ids with
    | nil => exact .pure rfl
    | cons id rest ih => exact (applyPlugin_mirrors hR id).andThen fun _ => ih
  rw [Project.apply_eq, Project.apply_eq]
  refine Mirrors.andThen ?_ fun _ => (applyKeys_mirrors hR h).andThen fun _ =>
    Mirrors.andThen ?_ fun _ => ?_
  · unfold Project.applyListed
    split
    · exact (Mirrors.ofExcept (.refl (fun _ => rfl) _)).andThen hplugins
    · exact .pure rfl
  · unfold Project.takeDependencies
    split
    · refine .modify fun hpq => ⟨?_, hpq.model, hpq.registrations⟩
      rw [hpq.rest]
    · exact .pure rfl
  · refine .readExcept fun {p q} hpq => ?_
    rw [validate_moved hpq]
    exact .refl (fun _ => rfl) _

/-! ## Variants -/

theorem runVariants_mirrors {rs qs : List Registration}
    (h : List.Forall₂ (Registration.Relocated R root root') rs qs) (names : List String) :
    Mirrors (Model.Moved R) Eq (runVariants rs names) (runVariants qs names) := by
  have hrun : ∀ {γ : Type} [Stored Model γ] [HasPaths γ] [Movable γ] (c : γ),
      Mirrors (Model.Moved R) Eq (.run (alloc c)) (.run (alloc c)) := by
    intro γ _ _ _ c m m' hm
    obtain ⟨hnew, hm⟩ := alloc_moved (.refl hR c) hm
    exact ⟨.ok hnew.symm, hm⟩
  induction names with
  | nil => exact .pure rfl
  | cons name rest ih =>
      simp only [runVariants]
      refine (hrun _).andThen fun builder => ?_
      refine (fire_mirrors (host_mirrored hR) hR h _ _ _).andThen fun _ => ?_
      refine (Mirrors.read fun hm =>
        ((keeps_moved.get hm builder).congr fun _ _ => rfl).symm).andThen fun enabled => ?_
      split
      · refine (hrun _).andThen fun variant => ?_
        refine (fire_mirrors (host_mirrored hR) hR h _ _ _).andThen fun _ => ?_
        exact ih.andThen fun _ => .pure rfl
      · exact ih

theorem finish_mirrors : Mirrors (Moved R root root') Eq finish finish := by
  intro p q hpq
  have happlication : q.application = p.application := by rw [hpq.rest]
  have hnames : q.variantNames = p.variantNames := by
    simp only [variantNames, happlication, hpq.model.application]
  cases ha : p.application with
  | none =>
      simp only [finish, happlication, ha]
      exact ⟨.ok rfl, hpq⟩
  | some a =>
      simp only [finish, happlication, ha, hnames]
      exact onModel_mirrors (runVariants_mirrors hR hpq.registrations _) p q hpq

end Documents

/-! ## The influence of the root -/

/-- The paths are the same, or one relative text of the document seen from the two roots. -/
def SeenFrom (document : Table) (root root' : Path) (p q : Path) : Prop :=
  p = q ∨ ∃ s, (Value.table document).Mentions s ∧ ¬(Path.mk s).isAbsolute ∧
    p = root.join ⟨s⟩ ∧ q = root'.join ⟨s⟩

theorem relocates_seenFrom (document : Table) (root root' : Path) :
    Value.Relocates (SeenFrom document root root') root root' (.table document) := by
  intro s hs
  by_cases habsolute : (Path.mk s).isAbsolute
  · exact .inl (by rw [resolvePath, resolvePath, if_pos habsolute, if_pos habsolute])
  · exact .inr ⟨s, hs, habsolute, if_neg habsolute, if_neg habsolute⟩

/-- The root of a project has a say in paths only. Applied to a project from two roots, a document
is accepted from both, or refused from both with the same error but for the wording of the host. The
projects hold the same objects either way, and so they do once the variants are made, but for paths
that are one relative text of the document seen from the two roots. -/
theorem apply_seenFrom (p : ApplicationProject) (strictness : Strictness) (root root' : Path)
    (document : Table) :
    let q := project.apply ⟨strictness, root⟩ document p
    let q' := project.apply ⟨strictness, root'⟩ document p
    (Outcome Eq q.1 q'.1 ∧ q.2.Moved (SeenFrom document root root') root root' q'.2) ∧
      Outcome Eq (finish q.2).1 (finish q'.2).1 ∧
        (finish q.2).2.Moved (SeenFrom document root root') root root' (finish q'.2).2 := by
  have hR : ∀ p, SeenFrom document root root' p p := fun p => .inl rfl
  have happly : Mirrors (Moved (SeenFrom document root root') root root') Eq
      (project.apply ⟨strictness, root⟩ document) (project.apply ⟨strictness, root'⟩ document) :=
    apply_mirrors hR (relocates_seenFrom document root root')
  obtain ⟨hout, hpq⟩ := happly p p (.refl hR p)
  exact ⟨⟨hout, hpq⟩, finish_mirrors hR _ _ hpq⟩

end ApplicationProject

end BuildReplay.Android
