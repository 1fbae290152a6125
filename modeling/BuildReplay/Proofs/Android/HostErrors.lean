import BuildReplay.Proofs.Android.Payload
import BuildReplay.Proofs.Android.Project
import BuildReplay.Proofs.Registry

/-! # When the host refuses a document

An error of the host has one of three causes in the document. What the declarations borrow and
convert is never refused otherwise, although each of them asks for its object anew. A project that
was configured makes its variants without an error of the host. -/

namespace BuildReplay.Android.ApplicationProject

open Act Law

/-! ## Invariants of a project -/

/-- What plugins have registered is what documents may name, and callbacks are of their points. -/
structure Sound (p : ApplicationProject) : Prop where
  object : ∀ {key r}, p.registry.get? key = some (.object r) → key = applicationKey ∧
    ∃ a : Ref ApplicationExtension, r = a.object ∧ Intact a p.model
  components : ∀ {key typeName}, p.registry.get? key = some (.components typeName) →
    typeName = applicationComponents.typeName
  registrations : ∀ r ∈ p.registrations, Fits r

theorem new_sound (projectDir : Path) : (new projectDir).Sound where
  object h := by cases h
  components h := by cases h
  registrations _ h := absurd h List.not_mem_nil

theorem Sound.addApplication {p : ApplicationProject} (h : p.Sound) : p.addApplication.Sound where
  object {key r} hget := by
    change ((p.registry.register applicationKey _).register componentsKey _).get? key = _ at hget
    rw [Registry.get?_register, Registry.get?_register] at hget
    split at hget
    · cases hget
    · split at hget
      · cases hget
        exact ⟨Eq.symm ‹_›, _, rfl, create_intact _ _⟩
      · obtain ⟨rfl, -⟩ := h.object hget
        exact absurd rfl ‹_›
  components {key typeName} hget := by
    change ((p.registry.register applicationKey _).register componentsKey _).get? key = _ at hget
    rw [Registry.get?_register, Registry.get?_register] at hget
    split at hget
    · cases hget
      rfl
    · split at hget
      · cases hget
      · exact h.components hget
  registrations _ h := absurd h List.not_mem_nil

/-! ## What a document keeps -/

theorem applyPlugin_sound (id : String) :
    (keeps Sound fun _ => True).Obeys (applyPlugin id) := by
  refine fun p hp => ⟨?_, fun _ _ _ => trivial⟩
  unfold applyPlugin
  split
  · exact hp
  · split
    · have happlication := hp.addApplication
      exact ⟨happlication.object, happlication.components, happlication.registrations⟩
    · split
      · exact ⟨hp.object, hp.components, hp.registrations⟩
      · exact hp

/-- A change of the model keeps what holds of a project, where it keeps applications intact. -/
theorem within_sound {α : Type} {x : Act Model α}
    (h : ∀ a : Ref ApplicationExtension, (keeps (Intact a) fun _ => True).Obeys x) :
    (keeps Sound fun _ => True).Obeys (x.within modelLens) := by
  refine fun p hp => ⟨⟨fun hget => ?_, hp.components, hp.registrations⟩, fun _ _ _ => trivial⟩
  obtain ⟨hkey, a, hr, hm⟩ := hp.object hget
  exact ⟨hkey, a, hr, (h a p.model hm).1⟩

theorem register_sound {options : Options} {path : String} {point : CallbackPoint} {key : String}
    {body : Table} (hpoint : point ∈ applicationComponents.points) :
    (keeps Sound fun _ => True).Obeys ((applicationComponents.within registrationsLens).register
      (registration options path point key body)) := by
  refine keeps_modify fun p hp => ⟨hp.object, hp.components, fun r hr => ?_⟩
  rcases List.mem_append.1 hr with hr | hr
  · exact hp.registrations r hr
  · rw [List.mem_singleton.1 hr]
    exact ⟨point, hpoint, rfl, _, _, _, rfl⟩

theorem project_sound (options : Options) :
    project.Obeys (keeps Sound fun _ => True) options where
  applyPlugin := applyPlugin_sound
  registry := keeps_read _
  configure := by
    refine configure_obeys (fun name t r => within_sound fun a => ?_) (fun _ _ _ => trivial)
      (fun hpoint path key body => register_sound hpoint) fun _ => trivial
    refine (host_obeys Intact.edits fun _ => trivial).replay ?_ (fun _ _ => trivial) name t r
    exact fun slot name m hm => ⟨maybeCreate_intact slot name hm, fun _ _ _ => trivial⟩
  dependencies v := keeps_modify fun p hp => ⟨hp.object, hp.components, hp.registrations⟩
  afterEvaluate p hp := ⟨hp, fun _ _ _ => trivial⟩

/-! ## Causes -/

/-- The document lists a plugin that nobody knows. -/
def ListsUnknownPlugin (document : Table) (id : String) : Prop :=
  ∃ plugins ids, document.get? pluginsKey = some plugins ∧ pluginIds plugins = .ok ids ∧
    id ∈ ids ∧ id ≠ applicationPlugin ∧ id ∉ passivePlugins

/-- The document initializes the build type of this name with itself. -/
def InitializesBuildTypeWithItself (document : Table) (name : String) : Prop :=
  ∃ t, (applicationKey, .table t) ∈ document ∧ InitializesSelf t name

/-- Applied to the project, the document comes to a request for a list that does not take what the
method has returned. -/
def ComesToRefusedDispatch (p : ApplicationProject) (options : Options) (document : Table)
    (message : String) : Prop :=
  ∃ before t after p₀ p₁ r c, document = before ++ (applicationKey, .table t) :: after ∧
    (project.applyListed document).Gives p () p₀ ∧
    (project.applyKeys options before).Gives p₀ () p₁ ∧
    p₁.registry.get? applicationKey = some (.object r) ∧
    Task.Reaches Android.host (.document options applicationKey t r, p₁.model) c ∧
    AtRefusedDispatch c.1 c.2 message

theorem applyListed_host_error {document : Table} {p p' : ApplicationProject} {message : String}
    (h : (project.applyListed document).Raises p (.host message) p') :
    ∃ id, ListsUnknownPlugin document id ∧ message = "Plugin with id '" ++ id ++ "' not found" := by
  have hplugins : ∀ {ids p}, (project.applyPlugins ids).Raises p (.host message) p' →
      ∃ id ∈ ids, id ≠ applicationPlugin ∧ id ∉ passivePlugins ∧
        message = "Plugin with id '" ++ id ++ "' not found" := by
    intro ids
    induction ids with
    | nil => exact fun h => absurd h not_pure_raises
    | cons id rest ih =>
        intro p h
        rcases bind_raises.1 h with h | ⟨_, p₁, -, h⟩
        · obtain ⟨hne, hpassive, hmessage, -⟩ := applyPlugin_raises h
          exact ⟨id, List.mem_cons_self, hne, hpassive, Error.host.inj hmessage⟩
        · obtain ⟨id', hmem, hunknown⟩ := ih h
          exact ⟨id', List.mem_cons_of_mem id hmem, hunknown⟩
  unfold Project.applyListed at h
  split at h
  · rename_i plugins hget
    rcases bind_raises.1 h with h | ⟨ids, p₁, hids, h⟩
    · obtain ⟨path, reason, heq⟩ := pluginIds_error (ofExcept_raises.1 h).1
      cases heq
    · obtain ⟨id, hmem, hne, hpassive, hmessage⟩ := hplugins h
      exact ⟨id, ⟨plugins, ids, hget, (ofExcept_gives.1 hids).1, hmem, hne, hpassive⟩, hmessage⟩
  · exact absurd h not_pure_raises

/-- Registering callbacks is not refused. -/
theorem configure_components_unrefused (options : Options) (name : String) (t : Table) :
    (unrefused ApplicationProject).Obeys
      ((applicationComponents.within registrationsLens).configure options name t) := by
  refine Components.configure_obeys ?_ (fun _ _ _ _ => keeps_modify fun _ _ => trivial) name t
  rintro _ hpath - message rfl
  cases hpath

/-- A key is refused by the host where its application is. -/
theorem Sound.applyKey_host_error {p p' : ApplicationProject} (hp : p.Sound) {options : Options}
    {key : String} {v : Value} {message : String}
    (h : (project.applyKey options key v).Raises p (.host message) p') :
    ∃ t r, key = applicationKey ∧ v = .table t ∧ p.registry.get? applicationKey = some (.object r) ∧
      ((∃ name, InitializesSelf t name ∧ message = BuildType.selfRefusal name) ∨
        ∃ c, Task.Reaches Android.host (.document options applicationKey t r, p.model) c ∧
          AtRefusedDispatch c.1 c.2 message) := by
  cases v with
  | table t =>
      rcases bind_raises.1 h with h | ⟨registry, p₁, hread, h⟩
      · exact absurd h not_read_raises
      · obtain ⟨rfl, rfl⟩ := read_gives.1 hread
        split at h
        · rename_i e hget
          cases e with
          | object r =>
              obtain ⟨rfl, a, rfl, hm⟩ := hp.object hget
              rw [configure_object] at h
              have hreplay : (replay Android.host options applicationKey t a.object).Raises p.model
                  (.host message) p'.model := h.of_within
              exact ⟨t, _, rfl, rfl, hget, replay_host_error hm hreplay⟩
          | components typeName =>
              obtain rfl := hp.components hget
              exact absurd rfl ((configure_components_unrefused options key t p trivial).2 _ p' h
                message)
        · cases (throw_raises.1 h).1
  | _ => cases (throw_raises.1 h).1

/-- Configuring the extensions of a new project is refused by the host in its application alone. -/
theorem applyKeys_host_error {projectDir : Path} {options : Options} {document : Table}
    {p₀ p' : ApplicationProject} {message : String}
    (hlisted : (project.applyListed document).Gives (new projectDir) () p₀)
    (h : (project.applyKeys options document).Raises p₀ (.host message) p') :
    (∃ name, InitializesBuildTypeWithItself document name ∧
        message = BuildType.selfRefusal name) ∨
      ComesToRefusedDispatch (new projectDir) options document message := by
  obtain ⟨before, key, v, after, p₁, rfl, hbefore, hkey⟩ := Project.exists_failing_key h
  have hsound := project_sound options
  have hp₀ : p₀.Sound :=
    keeps_gives (hsound.applyListed (fun _ _ => trivial) _) (new_sound projectDir) hlisted
  have hp₁ : p₁.Sound := keeps_gives (hsound.applyKeys (fun _ _ => trivial) _) hp₀ hbefore
  obtain ⟨t, r, rfl, rfl, hget, ⟨name, hself, hmessage⟩ | ⟨c, hreaches, hdispatch⟩⟩ :=
    hp₁.applyKey_host_error hkey
  · exact .inl ⟨name, ⟨t, List.mem_append_right _ List.mem_cons_self, hself⟩, hmessage⟩
  · exact .inr ⟨before, t, after, p₀, p₁, r, c, rfl, hlisted, hbefore, hget, hreaches, hdispatch⟩

/-- A sound project makes its variants without a refusal. -/
theorem Sound.finish_unrefused {p : ApplicationProject} (hp : p.Sound) (message : String)
    (p' : ApplicationProject) : ¬finish.Raises p (.host message) p' := by
  intro h
  have hvariants := runVariants_unrefused hp.registrations p.variantNames p.model trivial
  unfold Raises finish at h
  split at h
  · cases h
  · exact absurd rfl (hvariants.2 _ p'.model (Raises.of_within h) message)

/-! ## Handles -/

/-- The refusal of a handle to an object of the model: the object is lent already, or it is of
another type. -/
def HandleRefused (e : Error) : Prop :=
  ∃ o : ObjectRef, o.type ∈ modelTypes ∧ (e = o.busy ∨ ∃ type, e = o.accessedAs type)

/-- The refusal of a handle begins with the name of a type. -/
theorem not_handleRefused {start rest : String}
    (h : ∀ t ∈ modelTypes,
      ¬(t.name.toList <+: start.toList ∨ start.toList <+: t.name.toList)) :
    ¬HandleRefused (.host (start ++ rest)) := by
  rintro ⟨o, ho, hrefused⟩
  have hname : o.type.name.toList <+: (start ++ rest).toList := by
    rcases hrefused with hbusy | ⟨type, haccessed⟩
    · rw [Error.host.inj hbusy, String.toList_append]
      exact List.prefix_append _ _
    · rw [Error.host.inj haccessed, String.append_assoc, String.toList_append]
      exact List.prefix_append _ _
  have hstart : start.toList <+: (start ++ rest).toList := by
    rw [String.toList_append]
    exact List.prefix_append _ _
  exact h _ ho (List.prefix_or_prefix_of_prefix hname hstart)

/-- A list of the model refuses an item as one of another kind. -/
theorem list?_refusal {slot : Slot} {c : Collection Model} {item : Live} {e : Error}
    (hc : list? slot = some c) (h : c.accept item = .error e) :
    ∃ expected, e = item.mismatch expected := by
  unfold list? at hc
  split at hc <;> cases hc
  all_goals cases item <;> first | exact ⟨_, (Except.error.inj h).symm⟩ | cases h

theorem AtRefusedDispatch.not_handleRefused {task : Task Model} {m : Model} {message : String}
    (h : AtRefusedDispatch task m message) : ¬HandleRefused (.host message) := by
  obtain ⟨_, _, _, _, _, -, _, _, _, _, _, _, _, _, -, -, -, hc, -, -, haccept⟩ := h
  obtain ⟨expected, hmismatch⟩ := list?_refusal hc haccept
  rw [Error.host.inj hmismatch, String.append_assoc, String.append_assoc]
  exact ApplicationProject.not_handleRefused (by decide)

/-! ## Documents -/

/-- What makes the host refuse a document, with the message that it gives. -/
inductive HostCause (projectDir : Path) (options : Options) (document : Table) : String → Prop where
  | plugin {id : String} : ListsUnknownPlugin document id →
      HostCause projectDir options document ("Plugin with id '" ++ id ++ "' not found")
  | initWith {name : String} : InitializesBuildTypeWithItself document name →
      HostCause projectDir options document (BuildType.selfRefusal name)
  | dispatch {message : String} :
      ComesToRefusedDispatch (new projectDir) options document message →
      HostCause projectDir options document message

theorem HostCause.not_handleRefused {projectDir : Path} {options : Options} {document : Table}
    {message : String} (h : HostCause projectDir options document message) :
    ¬HandleRefused (.host message) := by
  cases h with
  | @plugin id _ =>
      rw [String.append_assoc]
      exact ApplicationProject.not_handleRefused (by decide)
  | @initWith name _ =>
      rw [BuildType.selfRefusal, String.append_assoc]
      exact ApplicationProject.not_handleRefused (by decide)
  | dispatch hdispatch =>
      obtain ⟨_, _, _, _, _, _, _, -, -, -, -, -, hrefused⟩ := hdispatch
      exact AtRefusedDispatch.not_handleRefused hrefused

theorem apply_hostCause {projectDir : Path} {options : Options} {document : Table}
    {message : String} {p' : ApplicationProject}
    (h : (project.apply options document).Raises (new projectDir) (.host message) p') :
    HostCause projectDir options document message := by
  rw [Project.apply_eq] at h
  rcases bind_raises.1 h with h | ⟨_, p₀, hlisted, h⟩
  · obtain ⟨id, hid, rfl⟩ := applyListed_host_error h
    exact .plugin hid
  · rcases bind_raises.1 h with h | ⟨_, p₁, -, h⟩
    · rcases applyKeys_host_error hlisted h with ⟨name, hname, rfl⟩ | hdispatch
      · exact .initWith hname
      · exact .dispatch hdispatch
    · rcases bind_raises.1 h with h | ⟨_, p₂, -, h⟩
      · unfold Project.takeDependencies at h
        split at h
        · exact absurd h not_modify_raises
        · exact absurd h not_pure_raises
      · obtain ⟨path, reason, heq⟩ := validate_error (readExcept_raises.1 h).1
        cases heq

/-- The host refuses a document for one of three causes only, and the message tells the cause: an
unknown plugin, a build type that is initialized with itself, or a request whose result its list
does not take. No object is ever found lent already, or of another type than it is asked for. A
project that a document has configured makes its variants without a refusal. -/
theorem apply_host_error (projectDir : Path) (options : Options) (document : Table) :
    (∀ message p', (project.apply options document).Raises (new projectDir) (.host message) p' →
      HostCause projectDir options document message ∧ ¬HandleRefused (.host message)) ∧
    ∀ p', (project.apply options document).Gives (new projectDir) () p' →
      ∀ message p'', ¬finish.Raises p' (.host message) p'' := by
  constructor
  · intro message p' h
    have hcause := apply_hostCause h
    exact ⟨hcause, hcause.not_handleRefused⟩
  · intro p' h message p'' hfinish
    have hp' : p'.Sound :=
      keeps_gives ((project_sound options).apply (fun _ _ => trivial) document)
        (new_sound projectDir) h
    exact hp'.finish_unrefused message p'' hfinish

/-- An unknown plugin, and a project whose variants take a table each. -/
theorem apply_host_error_plugin :
    (∃ id, ListsUnknownPlugin [(pluginsKey, .array [.string "kotlin"])] id) ∧
      ∃ p', (project.apply ⟨.strict, ⟨"/"⟩⟩ [(pluginsKey, .array [.string applicationPlugin]),
          (componentsKey, .table [("onVariants", .table [("all",
            .table [("applicationId", .string "org.example")])])])]).Gives (new ⟨"/"⟩) () p' ∧
        ∀ message p'', ¬finish.Raises p' (.host message) p'' := by
  constructor
  · have hfree : ∀ t,
        (applicationKey, .table t) ∉ [(pluginsKey, Value.array [.string "kotlin"])] := by
      intro t hmem
      have hkey : applicationKey = pluginsKey := congrArg Prod.fst (List.mem_singleton.1 hmem)
      exact absurd hkey (by decide)
    have hcause := ((apply_host_error ⟨"/"⟩ ⟨.strict, ⟨"/"⟩⟩
      [(pluginsKey, .array [.string "kotlin"])]).1 _ _ rfl).1
    generalize "Plugin with id '" ++ "kotlin" ++ "' not found" = message at hcause
    cases hcause with
    | plugin hplugin => exact ⟨_, hplugin⟩
    | initWith hself =>
        obtain ⟨t, hmem, -⟩ := hself
        exact absurd hmem (hfree t)
    | dispatch hdispatch =>
        obtain ⟨before, t, after, -, -, -, -, hdocument, -⟩ := hdispatch
        exact absurd (hdocument ▸ List.mem_append_right _ List.mem_cons_self) (hfree t)
  · refine ⟨_, rfl, ?_⟩
    exact (apply_host_error ⟨"/"⟩ ⟨.strict, ⟨"/"⟩⟩
      [(pluginsKey, .array [.string applicationPlugin]),
        (componentsKey, .table [("onVariants", .table [("all",
          .table [("applicationId", .string "org.example")])])])]).2 _ rfl

/-- A build type is lent to the member that initializes it, so it cannot be had once more. -/
example : ((project.apply ⟨.strict, ⟨"/"⟩⟩ [(pluginsKey, .array [.string applicationPlugin]),
      (applicationKey, .table [("buildTypes", .table [("debug",
        .table [("initWith", .string "debug")])])])]) (new ⟨"/"⟩)).1 =
    .error (.host (BuildType.selfRefusal "debug")) := by rfl

end BuildReplay.Android.ApplicationProject
