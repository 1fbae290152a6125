import BuildReplay.Proofs.Android.History
import BuildReplay.Proofs.Android.Project
import BuildReplay.Proofs.Occurrences

/-! # Plugins and the extensions that they register

Plugins are applied in any order and any number of times, and the extensions that they have
registered are configured in between. A plugin counts once, and what it has registered stays. -/

namespace BuildReplay.Android.ApplicationProject

open Act Law

/-! ## Applying a plugin -/

/-- All plugins that there are. -/
def knownPlugins : List String := applicationPlugin :: passivePlugins

/-- The error about a plugin that there is not. -/
def unknownPlugin (id : String) : Error := .host ("Plugin with id '" ++ id ++ "' not found")

section Apply

variable {p : ApplicationProject} {id : String}

theorem applyPlugin_of_mem (h : id ∈ p.plugins) : applyPlugin id p = (.ok (), p) := if_pos h

theorem applyPlugin_application (h : applicationPlugin ∉ p.plugins) :
    applyPlugin applicationPlugin p =
      (.ok (), { p.addApplication with plugins := p.plugins ++ [applicationPlugin] }) :=
  if_neg h

theorem applyPlugin_passive (h : id ∉ p.plugins) (hid : id ∈ passivePlugins) :
    applyPlugin id p = (.ok (), { p with plugins := p.plugins ++ [id] }) := by
  have hne : id ≠ applicationPlugin := by
    rintro rfl
    exact absurd hid (by decide)
  rw [applyPlugin, if_neg h, if_neg hne, if_pos hid]

theorem applyPlugin_unknown (h : id ∉ p.plugins) (hid : id ∉ knownPlugins) :
    applyPlugin id p = (.error (unknownPlugin id), p) := by
  obtain ⟨hne, hpassive⟩ := not_or.1 (mt List.mem_cons.2 hid)
  rw [applyPlugin, if_neg h, if_neg hne, if_neg hpassive]
  rfl

end Apply

/-! ## Projects in order -/

/-- What is registered once there is an application. -/
def extensions (application : Option (Ref ApplicationExtension)) : List (String × Extension) :=
  match application with
  | none => []
  | some a => [(applicationKey, .object a.object),
      (componentsKey, .components applicationComponents.typeName)]

/-- Plugins, registry and application are in step, and the application has a history. -/
structure Orderly (p : ApplicationProject) : Prop where
  known : p.plugins ⊆ knownPlugins
  application : p.application.isSome ↔ applicationPlugin ∈ p.plugins
  registry : p.registry.entries = extensions p.application
  reachable : ∀ {a}, p.application = some a → Reachable a p.model

theorem new_orderly (projectDir : Path) : (new projectDir).Orderly where
  known _ h := absurd h List.not_mem_nil
  application := iff_of_false nofun List.not_mem_nil
  registry := rfl
  reachable := nofun

/-- A project gets its application at most once, into a registry that is still empty. -/
theorem Orderly.applyPlugin_application {p : ApplicationProject} (hp : p.Orderly)
    (h : applicationPlugin ∉ p.plugins) :
    Orderly { p.addApplication with plugins := p.plugins ++ [applicationPlugin] } where
  known := List.append_subset.2 ⟨hp.known, List.cons_subset.2 ⟨List.mem_cons_self, nofun⟩⟩
  application := iff_of_true rfl (List.mem_append_right _ List.mem_cons_self)
  registry := by
    have hnone : p.application = none := Option.not_isSome_iff_eq_none.1 (mt hp.application.1 h)
    have hentries : p.registry.entries = [] := by rw [hp.registry, hnone, extensions]
    have hempty : p.registry = ⟨[]⟩ := by rw [← hentries]
    change ((p.registry.register applicationKey _).register componentsKey _).entries = _
    rw [hempty]
    rfl
  reachable ha := .create (Option.some.inj ha)

theorem applyPlugin_orderly (id : String) :
    (keeps Orderly fun _ => True).Obeys (applyPlugin id) := by
  refine fun p hp => ⟨?_, fun _ _ _ => trivial⟩
  by_cases hmem : id ∈ p.plugins
  · rwa [applyPlugin_of_mem hmem]
  by_cases happlication : id = applicationPlugin
  · subst happlication
    rw [ApplicationProject.applyPlugin_application hmem]
    exact hp.applyPlugin_application hmem
  by_cases hpassive : id ∈ passivePlugins
  · rw [applyPlugin_passive hmem hpassive]
    refine ⟨?_, hp.application.trans ?_, hp.registry, hp.reachable⟩
    · exact List.append_subset.2 ⟨hp.known,
        List.cons_subset.2 ⟨List.mem_cons_of_mem _ hpassive, nofun⟩⟩
    · simp [Ne.symm happlication]
  · rwa [applyPlugin_unknown hmem (mt List.mem_cons.1 (not_or.2 ⟨happlication, hpassive⟩))]

/-- Whatever is done to a project, its plugins, its registry and its application stay in step. -/
theorem project_orderly (options : Options) :
    project.Obeys (keeps Orderly fun _ => True) options where
  applyPlugin := applyPlugin_orderly
  registry := keeps_read _
  configure := by
    refine configure_obeys (fun name t r p hp => ⟨?_, fun _ _ _ => trivial⟩) (fun _ _ _ => trivial)
      (fun _ _ _ _ => keeps_modify fun p hp => ?_) fun _ => trivial
    · exact ⟨hp.known, hp.application, hp.registry, fun ha => (hp.reachable ha).replay _ _ _ _⟩
    · exact ⟨hp.known, hp.application, hp.registry, hp.reachable⟩
  dependencies _ := keeps_modify fun p hp => ⟨hp.known, hp.application, hp.registry, hp.reachable⟩
  afterEvaluate _ hp := ⟨hp, fun _ _ _ => trivial⟩

/-! ## What stays -/

/-- The handles are the same, the callbacks registered before are still there, and no object has
lost anything. -/
structure Continues (p q : ApplicationProject) : Prop where
  application : q.application = p.application
  registry : q.registry = p.registry
  registrations : p.registrations <+: q.registrations
  model : p.model.Grows q.model

theorem Continues.refl (p : ApplicationProject) : p.Continues p :=
  ⟨rfl, rfl, List.prefix_rfl, .refl _⟩

theorem Continues.trans {p q r : ApplicationProject} (h : p.Continues q) (h' : q.Continues r) :
    p.Continues r where
  application := h'.application.trans h.application
  registry := h'.registry.trans h.registry
  registrations := h.registrations.trans h'.registrations
  model := h.model.trans h'.model

/-- Configuring an extension is no matter of plugins, and only adds to the project. -/
theorem configure_continues (options : Options) (name : String) (t : Table) (e : Extension)
    (p : ApplicationProject) :
    p.Continues (project.configure options name t e p).2 ∧
      (project.configure options name t e p).2.plugins = p.plugins := by
  have hkeeps : (keeps (fun q => p.Continues q ∧ q.plugins = p.plugins) fun _ => True).Obeys
      (project.configure options name t e) := by
    refine configure_obeys ?_ (fun _ _ _ => trivial) ?_ (fun _ => trivial) name t e
    · refine fun name t r q hq => ⟨⟨hq.1.trans ?_, hq.2⟩, fun _ _ _ => trivial⟩
      exact ⟨rfl, rfl, List.prefix_rfl, replay_grows options name t r q.model⟩
    · refine fun _ _ _ _ => keeps_modify fun q hq => ⟨hq.1.trans ?_, hq.2⟩
      exact ⟨rfl, rfl, List.prefix_append _ _, .refl _⟩
  exact (hkeeps p ⟨.refl p, rfl⟩).1

theorem configure_application {options : Options} {name : String} {t : Table} {e : Extension}
    {p p' : ApplicationProject} (h : (project.configure options name t e).Gives p () p') :
    p'.application = p.application := by
  have hcontinues := (configure_continues options name t e p).1
  rw [h] at hcontinues
  exact hcontinues.application

/-- Where there is an application, a plugin is at most listed. -/
theorem Orderly.applyPlugin_listed {p : ApplicationProject} (hp : p.Orderly)
    (happlication : p.application.isSome) (id : String) :
    (applyPlugin id p).2 = { p with plugins := (applyPlugin id p).2.plugins } := by
  by_cases hmem : id ∈ p.plugins
  · rw [applyPlugin_of_mem hmem]
  by_cases hpassive : id ∈ passivePlugins
  · rw [applyPlugin_passive hmem hpassive]
  · have hne : id ≠ applicationPlugin := by
      rintro rfl
      exact hmem (hp.application.1 happlication)
    rw [applyPlugin_unknown hmem (mt List.mem_cons.1 (not_or.2 ⟨hne, hpassive⟩))]

/-! ## Sequences of events -/

/-- What may happen to a project before it is finished. -/
inductive Event where
  | applyPlugin (id : String)
  /-- A table is parsed into the extension that is registered under the key, if there is one. -/
  | configure (key : String) (options : Options) (name : String) (t : Table)

namespace Event

def act : Event → Act ApplicationProject Unit
  | applyPlugin id => ApplicationProject.applyPlugin id
  | configure key options name t => do
    match (← .read registry).get? key with
    | some e => project.configure options name t e
    | none => pure ()

/-- The plugin that is accepted. -/
def accepted? : Event → Option String
  | applyPlugin id => if id ∈ knownPlugins then some id else none
  | configure .. => none

end Event

/-- The project after some events, whether each of them has succeeded or failed. -/
def after (p : ApplicationProject) (events : List Event) : ApplicationProject :=
  events.foldl (fun p e => (e.act p).2) p

/-- The plugins that are accepted, as often as they are. -/
def accepted (events : List Event) : List String := events.filterMap Event.accepted?

section Events

variable {p : ApplicationProject} {events : List Event}

theorem configure_act (key : String) (options : Options) (name : String) (t : Table)
    (p : ApplicationProject) :
    (Event.configure key options name t).act p = match p.registry.get? key with
      | some e => project.configure options name t e p
      | none => (.ok (), p) := by
  rw [Event.act, (read_gives.2 ⟨rfl, rfl⟩ : (Act.read registry).Gives p _ p).bind_eq]
  cases p.registry.get? key <;> rfl

theorem Orderly.act (hp : p.Orderly) (e : Event) : (e.act p).2.Orderly := by
  cases e with
  | applyPlugin id => exact (applyPlugin_orderly id p hp).1
  | configure key options name t =>
      rw [configure_act]
      split
      · exact ((project_orderly options).configure _ _ _ p hp).1
      · exact hp

theorem Orderly.act_continues (hp : p.Orderly) (happlication : p.application.isSome) (e : Event) :
    p.Continues (e.act p).2 := by
  cases e with
  | applyPlugin id =>
      rw [Event.act, hp.applyPlugin_listed happlication id]
      exact ⟨rfl, rfl, List.prefix_rfl, .refl _⟩
  | configure key options name t =>
      rw [configure_act]
      split
      · exact (configure_continues _ _ _ _ p).1
      · exact .refl p

/-- An accepted plugin is listed behind the others, unless it is listed already. -/
theorem Orderly.act_plugins (hp : p.Orderly) {before : List String}
    (h : p.plugins = before.eraseDups) (e : Event) :
    (e.act p).2.plugins = (before ++ e.accepted?.toList).eraseDups := by
  have hlisted : ∀ id, id ∈ p.plugins ↔ id ∈ before := fun id => by rw [h, List.mem_eraseDups]
  cases e with
  | applyPlugin id =>
      change (ApplicationProject.applyPlugin id p).2.plugins =
        (before ++ (if id ∈ knownPlugins then some id else none).toList).eraseDups
      by_cases hmem : id ∈ p.plugins
      · rw [applyPlugin_of_mem hmem, if_pos (hp.known hmem), Option.toList_some, eraseDups_concat,
          if_pos ((hlisted id).1 hmem), h]
      by_cases hknown : id ∈ knownPlugins
      · rw [if_pos hknown, Option.toList_some, eraseDups_concat, if_neg (mt (hlisted id).2 hmem), ← h]
        rcases List.mem_cons.1 hknown with rfl | hpassive
        · rw [ApplicationProject.applyPlugin_application hmem]
        · rw [applyPlugin_passive hmem hpassive]
      · rw [applyPlugin_unknown hmem hknown, if_neg hknown, Option.toList_none, List.append_nil, h]
  | configure key options name t =>
      have hplugins : (before ++ (Event.configure key options name t).accepted?.toList) = before :=
        List.append_nil before
      rw [configure_act, hplugins, ← h]
      split
      · exact (configure_continues _ _ _ _ p).2
      · rfl

theorem Orderly.after (hp : p.Orderly) (events : List Event) : (p.after events).Orderly := by
  induction events generalizing p with
  | nil => exact hp
  | cons e rest ih => exact ih (hp.act e)

theorem Orderly.after_continues (hp : p.Orderly) (happlication : p.application.isSome)
    (events : List Event) : p.Continues (p.after events) := by
  induction events generalizing p with
  | nil => exact .refl p
  | cons e rest ih =>
      have hstep := hp.act_continues happlication e
      exact hstep.trans (ih (hp.act e) (hstep.application ▸ happlication))

theorem Orderly.after_plugins (hp : p.Orderly) {before : List String}
    (h : p.plugins = before.eraseDups) (events : List Event) :
    (p.after events).plugins = (before ++ accepted events).eraseDups := by
  induction events generalizing p before with
  | nil => exact h.trans (congrArg _ (List.append_nil before).symm)
  | cons e rest ih =>
      have haccepted : accepted (e :: rest) = e.accepted?.toList ++ accepted rest := by
        rw [accepted, List.filterMap_cons]
        cases e.accepted? <;> rfl
      rw [haccepted, ← List.append_assoc]
      exact ih (hp.act e) (hp.act_plugins h e)

end Events

/-! ## The result -/

/-- The handles denote the objects that they denoted, and nothing that was configured is lost. -/
structure Retains (a : Ref ApplicationExtension) (p q : ApplicationProject) : Prop where
  application : q.application = some a
  registry : q.registry = p.registry
  registrations : p.registrations <+: q.registrations
  kept : Kept a p.model q.model

/-- What a project is after some events, and what plugins and later events do to it. -/
structure Settled (events : List Event) (p : ApplicationProject) : Prop where
  plugins : p.plugins = (accepted events).eraseDups
  application : p.application.isSome ↔ applicationPlugin ∈ accepted events
  registry : p.registry.entries = extensions p.application
  known : ∀ id ∈ knownPlugins, ∃ q, (applyPlugin id).Gives p () q
  unknown : ∀ id, id ∉ knownPlugins → (applyPlugin id).Raises p (unknownPlugin id) p
  again : ∀ id ∈ p.plugins, (applyPlugin id).Gives p () p
  listed : p.application.isSome →
    ∀ id, (applyPlugin id p).2 = { p with plugins := (applyPlugin id p).2.plugins }
  retained : ∀ a, p.application = some a → ∀ later, Retains a p (p.after later)

/-- Plugins may be applied in any order and any number of times, known or not, while the extensions
that they have registered are configured with any outcome. Each accepted plugin is listed once, in
the order in which it came first. The application plugin registers two extensions, nothing else
registers any, and from then on these stand for the same objects, which lose nothing. -/
theorem after_settled (projectDir : Path) (events : List Event) :
    Settled events ((new projectDir).after events) := by
  have hnew := new_orderly projectDir
  have hp := hnew.after events
  have hplugins : ((new projectDir).after events).plugins = (accepted events).eraseDups :=
    hnew.after_plugins List.eraseDups_nil.symm events
  refine ⟨hplugins, ?_, hp.registry, fun id hid => ?_, fun id hid => ?_, fun id hid => ?_,
    hp.applyPlugin_listed, fun a ha later => ?_⟩
  · rw [hp.application, hplugins, List.mem_eraseDups]
  · rcases gives_or_raises (applyPlugin id) ((new projectDir).after events) with
      ⟨⟨⟩, q, h⟩ | ⟨e, q, h⟩
    · exact ⟨q, h⟩
    · obtain ⟨hne, hpassive, -⟩ := applyPlugin_raises h
      exact absurd (List.mem_cons.1 hid) (not_or.2 ⟨hne, hpassive⟩)
  · exact applyPlugin_unknown (mt (@hp.known id) hid) hid
  · exact applyPlugin_of_mem hid
  · have hcontinues := hp.after_continues (Option.isSome_iff_exists.2 ⟨a, ha⟩) later
    exact ⟨hcontinues.application.trans ha, hcontinues.registry, hcontinues.registrations,
      .of_grows (hp.reachable ha).intact.sound hcontinues.model⟩

/-- A plugin that comes again after the application was configured, and one that nobody knows. -/
example :
    ((new ⟨"/"⟩).after [.applyPlugin "kotlin-android", .applyPlugin applicationPlugin,
      .configure applicationKey ⟨.strict, ⟨"/"⟩⟩ "android" [("compileSdk", .integer 34)],
      .applyPlugin "kotlin", .applyPlugin applicationPlugin]).plugins =
        ["kotlin-android", applicationPlugin] := rfl

end BuildReplay.Android.ApplicationProject
