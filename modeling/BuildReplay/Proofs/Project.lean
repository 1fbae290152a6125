import BuildReplay.Project
import BuildReplay.Proofs.Obedience
import BuildReplay.Proofs.Track

/-! # The phases of a document

A document is applied in four phases. A law that each of them obeys is obeyed by the whole. -/

namespace BuildReplay

open Act (Law)

variable {σ : Type}

namespace Project

/-- The first phase: the plugins that the document lists. -/
def applyListed (p : Project σ) (document : Table) : Act σ Unit :=
  match document.get? pluginsKey with
  | some plugins => do p.applyPlugins (← .ofExcept (pluginIds plugins))
  | none => pure ()

/-- The third phase: the dependencies that the document declares. -/
def takeDependencies (p : Project σ) (document : Table) : Act σ Unit :=
  match document.get? dependenciesKey with
  | some declarations => p.dependencies declarations
  | none => pure ()

/-- The phases before the project checks itself. -/
def prepare (p : Project σ) (options : Options) (document : Table) : Act σ Unit := do
  p.applyListed document
  p.applyKeys options document
  p.takeDependencies document

theorem apply_eq (p : Project σ) (options : Options) (document : Table) :
    p.apply options document = (do
      p.applyListed document
      p.applyKeys options document
      p.takeDependencies document
      p.afterEvaluate) := by
  unfold apply applyListed takeDependencies
  cases document.get? pluginsKey <;> cases document.get? dependenciesKey <;>
    simp only [pure_bind, bind_assoc]

theorem apply_eq_prepare (p : Project σ) (options : Options) (document : Table) :
    p.apply options document = (do
      p.prepare options document
      p.afterEvaluate) := by
  simp only [apply_eq, prepare, bind_assoc]

section Keys

variable (p : Project σ) (options : Options)

/-- A key that names an extension is applied before the rest. -/
theorem applyKeys_cons {key : String} (h : key != pluginsKey && key != dependenciesKey) (v : Value)
    (rest : Table) : p.applyKeys options ((key, v) :: rest) = (do
      p.applyKey options key v
      p.applyKeys options rest) := by
  simp only [applyKeys]
  exact if_pos h

/-- The keys of other phases are passed over. -/
theorem applyKeys_cons_of_not {key : String} (h : ¬(key != pluginsKey && key != dependenciesKey))
    (v : Value) (rest : Table) :
    p.applyKeys options ((key, v) :: rest) = p.applyKeys options rest := by
  simp only [applyKeys]
  exact if_neg h

theorem applyKeys_append (t u : Table) : p.applyKeys options (t ++ u) = (do
    p.applyKeys options t
    p.applyKeys options u) := by
  induction t with
  | nil => rfl
  | cons entry rest ih =>
      obtain ⟨key, v⟩ := entry
      by_cases hkey : key != pluginsKey && key != dependenciesKey
      · simp only [List.cons_append, applyKeys_cons _ _ hkey, ih, bind_assoc]
      · simp only [List.cons_append, applyKeys_cons_of_not _ _ hkey, ih]

/-- The keys are applied one after the other. -/
theorem applyKeys_eq_inOrder (t : Table) :
    p.applyKeys options t = inOrder (fun e => p.applyKeys options [e]) t := by
  induction t with
  | nil => rfl
  | cons e t ih =>
      rw [inOrder, ← ih]
      exact p.applyKeys_append options [e] t

end Keys

/-- Where the second phase fails, it fails at a key, in the state that the keys before it leave. -/
theorem exists_failing_key {p : Project σ} {options : Options} {t : Table} {s s' : σ} {e : Error}
    (h : (p.applyKeys options t).Raises s e s') :
    ∃ before key v after s₁, t = before ++ (key, v) :: after ∧
      (p.applyKeys options before).Gives s () s₁ ∧ (p.applyKey options key v).Raises s₁ e s' := by
  induction t generalizing s with
  | nil => exact absurd h Act.not_pure_raises
  | cons entry rest ih =>
      obtain ⟨key, v⟩ := entry
      by_cases hkey : key != pluginsKey && key != dependenciesKey
      · rw [applyKeys_cons _ _ hkey] at h
        rcases Act.bind_raises.1 h with h | ⟨_, s₁, hfirst, h⟩
        · exact ⟨[], key, v, rest, s, rfl, rfl, h⟩
        · obtain ⟨before, key', v', after, s₂, rfl, hbefore, hraises⟩ := ih h
          refine ⟨(key, v) :: before, key', v', after, s₂, rfl, ?_, hraises⟩
          rw [applyKeys_cons _ _ hkey]
          exact Act.bind_gives.2 ⟨(), s₁, hfirst, hbefore⟩
      · rw [applyKeys_cons_of_not _ _ hkey] at h
        obtain ⟨before, key', v', after, s₂, rfl, hbefore, hraises⟩ := ih h
        refine ⟨(key, v) :: before, key', v', after, s₂, rfl, ?_, hraises⟩
        rwa [applyKeys_cons_of_not _ _ hkey]

end Project

/-! ## Laws -/

section Laws

variable {L : Law σ} {options : Options}

/-- A list of plugins that cannot be read is an invalid declaration. -/
theorem pluginIds_error {v : Value} {e : Error} (h : pluginIds v = .error e) :
    ∃ path reason, e = .invalidDeclaration path reason := by
  unfold pluginIds at h
  split at h
  · obtain ⟨⟨u, index⟩, -, hid⟩ := exists_of_mapM_error h
    change pluginId index u = .error e at hid
    unfold pluginId at hid
    split at hid
    · cases hid
    · split at hid
      · cases hid
      · exact ⟨_, _, (Except.error.inj hid).symm⟩
    · exact ⟨_, _, (Except.error.inj hid).symm⟩
  · exact ⟨_, _, (Except.error.inj h).symm⟩

/-- Registering callbacks obeys the law, where each registration for a point does, and what is said
of declarations that are none. -/
theorem Components.configure_obeys {c : Components σ}
    (hown : ∀ e, e.path?.isSome → (∀ path key, e ≠ .unresolvedArgument path key) → L.Allows e)
    (hregister : ∀ {point}, point ∈ c.points → ∀ path key body,
      L.Obeys (c.register (registration options path point key body)))
    (path : String) (t : Table) : L.Obeys (c.configure options path t) := by
  have hentries : ∀ {point}, point ∈ c.points → ∀ path entries,
      L.Obeys (registerEntries options path point c.register entries) := by
    intro point hpoint path entries
    induction entries with
    | nil => exact L.pure _
    | cons e rest ih =>
        obtain ⟨key, v⟩ := e
        cases v with
        | table body => exact L.andThen (hregister hpoint _ _ _) fun _ => ih
        | _ => exact L.throw (hown _ rfl fun _ _ h => by cases h)
  induction t with
  | nil => exact L.pure _
  | cons e rest ih =>
      obtain ⟨key, v⟩ := e
      simp only [Components.configure]
      split
      · exact L.throw (hown _ rfl fun _ _ h => by cases h)
      · refine L.andThen ?_ fun _ => ih
        unfold registerCallbacks
        split
        · exact hentries (List.mem_of_find?_eq_some ‹_›) _ _
        · exact L.throw (hown _ rfl fun _ _ h => by cases h)

variable (hL : Law.Tolerates L options.strictness)
include hL

/-- All that a project does obeys the law. -/
structure Project.Obeys (L : Law σ) (options : Options) (p : Project σ) : Prop where
  applyPlugin : ∀ id, L.Obeys (p.applyPlugin id)
  registry : L.Obeys (.read p.registry)
  configure : ∀ name t e, L.Obeys (p.configure options name t e)
  dependencies : ∀ v, L.Obeys (p.dependencies v)
  afterEvaluate : L.Obeys p.afterEvaluate

/-- All that a project does for one document obeys the law. -/
structure Project.ObeysOn (L : Law σ) (options : Options) (document : Table) (p : Project σ) :
    Prop where
  applyPlugin : ∀ id, L.Obeys (p.applyPlugin id)
  registry : L.Obeys (.read p.registry)
  configure : ∀ {name t s e}, (name, .table t) ∈ document → L.Start s →
    (p.registry s).get? name = some e → L.Obeys (p.configure options name t e)
  dependencies : ∀ v, L.Obeys (p.dependencies v)
  afterEvaluate : L.Obeys p.afterEvaluate

variable {p : Project σ}

omit hL in
theorem Project.Obeys.on (h : p.Obeys L options) (document : Table) :
    p.ObeysOn L options document :=
  { h with configure := fun _ _ _ => h.configure _ _ _ }

theorem Project.applyListed_obeys (h : ∀ id, L.Obeys (p.applyPlugin id)) (document : Table) :
    L.Obeys (p.applyListed document) := by
  have hplugins : ∀ ids, L.Obeys (p.applyPlugins ids) := by
    intro ids
    induction ids with
    | nil => exact L.pure _
    | cons id rest ih => exact L.andThen (h id) fun _ => ih
  unfold Project.applyListed
  split
  · refine L.andThen (L.ofExcept fun e he => ?_) hplugins
    obtain ⟨path, reason, rfl⟩ := pluginIds_error he
    exact hL _ fun _ _ h => by cases h
  · exact L.pure _

section Document

variable {document : Table} (h : p.ObeysOn L options document)
include h

theorem Project.ObeysOn.applyKeys {t : Table} (ht : t ⊆ document) :
    L.Obeys (p.applyKeys options t) := by
  induction t with
  | nil => exact L.pure _
  | cons e rest ih =>
      obtain ⟨key, v⟩ := e
      obtain ⟨hmem, hrest⟩ := List.cons_subset.1 ht
      have hkey : L.Obeys (p.applyKey options key v) := by
        cases v with
        | table t =>
            refine L.bind h.registry fun hs hgives => ?_
            split
            · refine h.configure hmem hs ?_
              rw [(Act.read_gives.1 hgives).1]
              assumption
            · exact L.throw (hL _ fun _ _ h => by cases h)
        | _ => exact L.throw (hL _ fun _ _ h => by cases h)
      simp only [Project.applyKeys]
      split
      · exact L.andThen hkey fun _ => ih hrest
      · exact ih hrest

theorem Project.ObeysOn.applyListed : L.Obeys (p.applyListed document) :=
  Project.applyListed_obeys hL h.applyPlugin document

omit hL in
theorem Project.ObeysOn.takeDependencies (t : Table) : L.Obeys (p.takeDependencies t) := by
  unfold Project.takeDependencies
  split
  · exact h.dependencies _
  · exact L.pure _

theorem Project.ObeysOn.prepare : L.Obeys (p.prepare options document) :=
  L.andThen (h.applyListed hL) fun _ => L.andThen (h.applyKeys hL (List.Subset.refl _)) fun _ =>
    h.takeDependencies document

/-- A law that all phases obey is obeyed by the whole document. -/
theorem Project.ObeysOn.apply : L.Obeys (p.apply options document) := by
  rw [Project.apply_eq_prepare]
  exact L.andThen (h.prepare hL) fun _ => h.afterEvaluate

end Document

variable (h : p.Obeys L options)
include h

theorem Project.Obeys.applyKeys (t : Table) : L.Obeys (p.applyKeys options t) :=
  (h.on t).applyKeys hL (List.Subset.refl _)

theorem Project.Obeys.applyListed (document : Table) : L.Obeys (p.applyListed document) :=
  (h.on document).applyListed hL

omit hL in
theorem Project.Obeys.takeDependencies (t : Table) : L.Obeys (p.takeDependencies t) :=
  (h.on t).takeDependencies t

theorem Project.Obeys.prepare (document : Table) : L.Obeys (p.prepare options document) :=
  (h.on document).prepare hL

theorem Project.Obeys.apply (document : Table) : L.Obeys (p.apply options document) :=
  (h.on document).apply hL

end Laws

end BuildReplay
