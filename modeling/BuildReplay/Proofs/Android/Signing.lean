import BuildReplay.Proofs.Android.HostErrors

/-! # Signing references

A build type names the configuration that it is to be signed with, whether or not it is declared
already. Where a document is accepted, every such name stands for a configuration in the end. -/

namespace BuildReplay.Android

/-- A build type is to be signed with a configuration that is not among the declared ones. -/
def Dangles (m : Model) (declared : List String) (b : Ref BuildType) (signing : String) : Prop :=
  (b.get m).signingConfig = some signing ∧ signing ∉ declared

/-- The first of some build types that dangles. -/
def FirstDangling (m : Model) (declared : List String) (l : List (String × Ref BuildType))
    (name signing : String) : Prop :=
  ∃ before b after, l = before ++ (name, b) :: after ∧ Dangles m declared b signing ∧
    ∀ e ∈ before, ∀ signing', ¬Dangles m declared e.2 signing'

namespace ApplicationProject

open Act Law

/-! ## The check -/

section Check

variable {m : Model} {declared : List String} {l : List (String × Ref BuildType)}
  {name signing : String} {b : Ref BuildType}

theorem not_dangles_iff :
    (∀ signing, ¬Dangles m declared b signing) ↔
      ∀ signing, (b.get m).signingConfig = some signing → signing ∈ declared := by
  simp [Dangles]

/-- A build type that does not dangle is passed over. -/
theorem unsigned?_cons_of_not_dangles (hb : ∀ signing, ¬Dangles m declared b signing) :
    unsigned? m declared ((name, b) :: l) = unsigned? m declared l := by
  rw [not_dangles_iff] at hb
  cases hsigning : (b.get m).signingConfig with
  | none => simp only [unsigned?, hsigning]
  | some signing =>
      simp only [unsigned?, hsigning]
      exact if_pos (hb signing hsigning)

theorem unsigned?_cons_of_dangles (hb : Dangles m declared b signing) :
    unsigned? m declared ((name, b) :: l) = some (name, signing) := by
  simp only [unsigned?, hb.1]
  exact if_neg hb.2

theorem unsigned?_eq_none_iff :
    unsigned? m declared l = none ↔ ∀ e ∈ l, ∀ signing, ¬Dangles m declared e.2 signing := by
  induction l with
  | nil => simp [unsigned?]
  | cons e l ih =>
      obtain ⟨name, b⟩ := e
      rw [List.forall_mem_cons, ← ih]
      by_cases hb : ∃ signing, Dangles m declared b signing
      · obtain ⟨signing, hb⟩ := hb
        rw [unsigned?_cons_of_dangles hb]
        exact ⟨nofun, fun h => absurd hb (h.1 signing)⟩
      · rw [not_exists] at hb
        rw [unsigned?_cons_of_not_dangles hb]
        exact ⟨fun h => ⟨hb, h⟩, fun h => h.2⟩

/-- The check finds the first build type that dangles. -/
theorem firstDangling_of_unsigned? (h : unsigned? m declared l = some (name, signing)) :
    FirstDangling m declared l name signing := by
  induction l with
  | nil => cases h
  | cons e l ih =>
      obtain ⟨name', b⟩ := e
      by_cases hb : ∃ signing, Dangles m declared b signing
      · obtain ⟨signing', hb⟩ := hb
        rw [unsigned?_cons_of_dangles hb] at h
        cases h
        exact ⟨[], b, l, rfl, hb, fun e he => absurd he List.not_mem_nil⟩
      · rw [not_exists] at hb
        rw [unsigned?_cons_of_not_dangles hb] at h
        obtain ⟨before, b', after, rfl, hdangles, hbefore⟩ := ih h
        exact ⟨(name', b) :: before, b', after, rfl, hdangles,
          List.forall_mem_cons.2 ⟨hb, hbefore⟩⟩

end Check

/-! ## The application that documents configure -/

/-- The key of the settings stands for the application, once there is one. -/
def Coherent (p : ApplicationProject) : Prop :=
  p.registry.get? applicationKey = p.application.map fun a => .object a.object

theorem addApplication_coherent (p : ApplicationProject) : p.addApplication.Coherent := by
  change ((p.registry.register applicationKey _).register componentsKey _).get? applicationKey = _
  rw [Registry.get?_register, Registry.get?_register]
  rfl

theorem applyPlugin_coherent (id : String) :
    (keeps Coherent fun _ => True).Obeys (applyPlugin id) := by
  refine fun p hp => ⟨?_, fun _ _ _ => trivial⟩
  unfold applyPlugin
  split
  · exact hp
  · split
    · exact p.addApplication_coherent
    · split
      · exact hp
      · exact hp

theorem project_coherent (options : Options) :
    project.Obeys (keeps Coherent fun _ => True) options where
  applyPlugin := applyPlugin_coherent
  registry := keeps_read _
  configure := configure_obeys (fun _ _ _ _ hp => ⟨hp, fun _ _ _ => trivial⟩)
    (fun _ _ _ => trivial) (fun _ _ _ _ => keeps_modify fun _ hp => hp) fun _ => trivial
  dependencies _ := keeps_modify fun _ hp => hp
  afterEvaluate _ hp := ⟨hp, fun _ _ _ => trivial⟩

theorem Coherent.get?_eq_some_iff {p : ApplicationProject} (hp : p.Coherent)
    {a : Ref ApplicationExtension} :
    p.registry.get? applicationKey = some (.object a.object) ↔ p.application = some a := by
  rw [hp]
  cases p.application with
  | none => simp
  | some b =>
      obtain ⟨id⟩ := a
      obtain ⟨id'⟩ := b
      simp [Ref.object]

/-! ## Projects without dangling references -/

/-- The names of the signing configurations of an application. -/
def declaredConfigs (p : ApplicationProject) (a : Ref ApplicationExtension) : List String :=
  (CollectionField.signingConfigs.collection a).names p.model

/-- Every build type of the application that documents configure is signed with a configuration of
the application, if it is to be signed at all. -/
def Signed (p : ApplicationProject) : Prop :=
  ∀ a : Ref ApplicationExtension, p.registry.get? applicationKey = some (.object a.object) →
    ∀ e ∈ (a.get p.model).buildTypes, ∀ signing,
      (e.2.get p.model).signingConfig = some signing →
        ∃ r, (CollectionField.signingConfigs.collection a).getByName signing p.model = some r

/-- The error about a build type that dangles. -/
def unsignedError (name signing : String) (declared : List String) : Error :=
  .invalidDeclaration ("android.buildTypes." ++ name ++ ".signingConfig")
    ("no signing config named `" ++ signing ++ "`, declared: " ++ ", ".intercalate declared)

theorem exists_getByName_iff {p : ApplicationProject} {a : Ref ApplicationExtension}
    {signing : String} :
    (∃ r, (CollectionField.signingConfigs.collection a).getByName signing p.model = some r) ↔
      signing ∈ p.declaredConfigs a := by
  rw [declaredConfigs, ← NamedCollection.find?_isSome_iff, ← Option.isSome_iff_exists,
    NamedCollection.getByName, Option.isSome_map]

theorem signed_iff {p : ApplicationProject} :
    p.Signed ↔ ∀ a : Ref ApplicationExtension,
      p.registry.get? applicationKey = some (.object a.object) →
        ∀ e ∈ (a.get p.model).buildTypes, ∀ signing,
          ¬Dangles p.model (p.declaredConfigs a) e.2 signing := by
  simp only [Signed, exists_getByName_iff, not_dangles_iff]

/-- The check of a project passes exactly when nothing dangles. -/
theorem validate_eq_ok_iff {p : ApplicationProject} (hp : p.Coherent) :
    validate p = .ok () ↔ p.Signed := by
  rw [signed_iff]
  constructor
  · intro h a ha
    rw [hp.get?_eq_some_iff] at ha
    simp only [validate, ha] at h
    split at h
    · exact unsigned?_eq_none_iff.1 ‹_›
    · cases h
  · intro h
    unfold validate
    split
    · rfl
    · rename_i a ha
      have hnone := unsigned?_eq_none_iff.2 (h a (hp.get?_eq_some_iff.2 ha))
      dsimp only
      split
      · rfl
      · rename_i hsome
        cases hnone.symm.trans hsome

/-- Where the check fails, it says so of the first build type that dangles. -/
theorem validate_eq_error {p : ApplicationProject} (hp : p.Coherent) {e : Error}
    (h : validate p = .error e) :
    ∃ (a : Ref ApplicationExtension) (name signing : String),
      p.registry.get? applicationKey = some (.object a.object) ∧
      FirstDangling p.model (p.declaredConfigs a) (a.get p.model).buildTypes name signing ∧
      e = unsignedError name signing (p.declaredConfigs a) := by
  unfold validate at h
  split at h
  · cases h
  · rename_i a ha
    dsimp only at h
    split at h
    · cases h
    · rename_i name signing hunsigned
      exact ⟨a, name, signing, hp.get?_eq_some_iff.2 ha, firstDangling_of_unsigned? hunsigned,
        (Except.error.inj h).symm⟩

/-! ## Whole documents -/

section Documents

variable {projectDir : Path} {options : Options} {document : Table} {p p' : ApplicationProject}

theorem prepare_coherent (h : (project.prepare options document).Gives (new projectDir) () p) :
    p.Coherent := by
  have hnew : (new projectDir).Coherent := rfl
  exact keeps_gives ((project_coherent options).prepare (fun _ _ => trivial) document) hnew h

/-- The check reads what the phases before it have made, and changes nothing. -/
theorem apply_gives_iff :
    (project.apply options document).Gives (new projectDir) () p ↔
      (project.prepare options document).Gives (new projectDir) () p ∧ p.Signed := by
  rw [Project.apply_eq_prepare, bind_gives]
  constructor
  · rintro ⟨⟨⟩, p₁, hprepare, hcheck⟩
    obtain ⟨hvalid, rfl⟩ := readExcept_gives.1 hcheck
    exact ⟨hprepare, (validate_eq_ok_iff (prepare_coherent hprepare)).1 hvalid⟩
  · rintro ⟨hprepare, hsigned⟩
    exact ⟨(), p, hprepare,
      readExcept_gives.2 ⟨(validate_eq_ok_iff (prepare_coherent hprepare)).2 hsigned, rfl⟩⟩

/-- After phases that succeed, only the check can fail. -/
theorem apply_raises_of_prepare {e : Error}
    (hprepare : (project.prepare options document).Gives (new projectDir) () p)
    (h : (project.apply options document).Raises (new projectDir) e p') :
    p' = p ∧ validate p = .error e := by
  rw [Project.apply_eq_prepare] at h
  rcases bind_raises.1 h with h | ⟨_, p₁, hgives, h⟩
  · exact absurd h hprepare.not_raises
  · obtain ⟨-, rfl⟩ := hprepare.unique hgives
    obtain ⟨hvalid, rfl⟩ := readExcept_raises.1 h
    exact ⟨rfl, hvalid⟩

end Documents

/-- A document that a new project accepts leaves no build type that is to be signed with a
configuration nobody declared, whatever order it declares them in. Where nothing else is wrong
with a document, it is refused exactly for such a build type, and the error is about the first of
them. -/
theorem apply_signed (projectDir : Path) (options : Options) (document : Table) :
    (∀ p, (project.apply options document).Gives (new projectDir) () p → p.Signed) ∧
    ∀ p, (project.prepare options document).Gives (new projectDir) () p →
      ((∃ e p', (project.apply options document).Raises (new projectDir) e p') ↔ ¬p.Signed) ∧
      ∀ e p', (project.apply options document).Raises (new projectDir) e p' →
        p' = p ∧ ∃ (a : Ref ApplicationExtension) (name signing : String),
          p.registry.get? applicationKey = some (.object a.object) ∧
          FirstDangling p.model (p.declaredConfigs a) (a.get p.model).buildTypes name signing ∧
          e = unsignedError name signing (p.declaredConfigs a) := by
  refine ⟨fun p h => (apply_gives_iff.1 h).2, fun p hprepare => ⟨⟨?_, fun hp => ?_⟩, ?_⟩⟩
  · rintro ⟨e, p', h⟩ hsigned
    exact (apply_gives_iff.2 ⟨hprepare, hsigned⟩).not_raises h
  · rcases gives_or_raises (project.apply options document) (new projectDir) with
      ⟨_, p', h⟩ | ⟨e, p', h⟩
    · obtain ⟨hprepare', hsigned⟩ := apply_gives_iff.1 h
      obtain ⟨-, rfl⟩ := hprepare.unique hprepare'
      exact absurd hsigned hp
    · exact ⟨e, p', h⟩
  · intro e p' h
    obtain ⟨rfl, hvalid⟩ := apply_raises_of_prepare hprepare h
    exact ⟨rfl, validate_eq_error (prepare_coherent hprepare) hvalid⟩

/-- A release that is to be signed, with the configuration declared after it or not at all. -/
def signedRelease (configs : Table) : Table := [
  (pluginsKey, .array [.string applicationPlugin]),
  (applicationKey, .table [
    ("buildTypes", .table [("release", .table [("signingConfig", .string "upload")])]),
    ("signingConfigs", .table configs)])]

/-- The release is signed where its configuration is declared, and refused where it is not. -/
theorem apply_signed_release :
    (∃ p, (project.apply ⟨.strict, ⟨"/"⟩⟩ (signedRelease [("upload", .table [])])).Gives
      (new ⟨"/"⟩) () p ∧ p.Signed) ∧
    ∃ p, (project.apply ⟨.strict, ⟨"/"⟩⟩ (signedRelease [])).Raises (new ⟨"/"⟩)
      (unsignedError "release" "upload" []) p ∧ ¬p.Signed := by
  have haccepts := apply_signed ⟨"/"⟩ ⟨.strict, ⟨"/"⟩⟩ (signedRelease [("upload", .table [])])
  have hrefuses := apply_signed ⟨"/"⟩ ⟨.strict, ⟨"/"⟩⟩ (signedRelease [])
  exact ⟨⟨_, rfl, haccepts.1 _ rfl⟩, ⟨_, rfl, (hrefuses.2 _ rfl).1.1 ⟨_, _, rfl⟩⟩⟩

end ApplicationProject

end BuildReplay.Android
