import BuildReplay.Proofs.Android.Project
import BuildReplay.Proofs.Caching.History

/-! # Caches that cannot be told

Whatever a cache was asked before, a document does to a host with the cache what it does to the host
without it, and so do the callbacks that are fired later with the same cache. -/

namespace BuildReplay

variable {σ α β : Type} {shapes : TypeRef → Except Error (Shape σ)}

/-- The second act is the first one at the side of a cache: with whatever filled cache it starts, it
ends in the same way and leaves the same state, and fills the cache further at most. -/
def Act.Caches (host : Host σ) (x : Act σ α) (y : Act (σ × ShapeCache σ) α) : Prop :=
  ∀ s c, c.FilledBy host → ∃ c', c'.FilledBy host ∧ y (s, c) = ((x s).1, (x s).2, c')

namespace Act.Caches

variable {host : Host σ} {x : Act σ α} {y : Act (σ × ShapeCache σ) α}

theorem bind {f : α → Act σ β} {g : α → Act (σ × ShapeCache σ) β} (h : Caches host x y)
    (hfg : ∀ a, Caches host (f a) (g a)) : Caches host (x >>= f) (y >>= g) := by
  intro s c hc
  obtain ⟨c₁, hc₁, hy⟩ := h s c hc
  rcases gives_or_raises x s with ⟨a, s₁, hx⟩ | ⟨e, s₁, hx⟩
  · rw [hx] at hy
    have hy : y.Gives (s, c) a (s₁, c₁) := hy
    rw [hx.bind_eq, hy.bind_eq]
    exact hfg a s₁ c₁ hc₁
  · rw [hx] at hy
    have hy : y.Raises (s, c) e (s₁, c₁) := hy
    refine ⟨c₁, hc₁, ?_⟩
    rw [hx.bind, hy.bind]

/-- Acts that know of no cache, and all that is made of acts at the side of one. -/
def lifting (host : Host σ) : Lifting (Lens.fst : Lens (σ × ShapeCache σ) σ) where
  Lifts := Caches host
  within _ s c hc := ⟨c, hc, rfl⟩
  bind := bind
  attempt h s c hc := by
    obtain ⟨c', hc', hy⟩ := h s c hc
    exact ⟨c', hc', by rw [attempt, attempt, hy]⟩

end Act.Caches

open Act.Caches (lifting)

/-- A shape out of a filled cache is the host's own. -/
theorem Host.ShapedBy.liftsShapes {host : Host σ} (h : host.ShapedBy shapes) :
    (lifting host).LiftsShapes host host.cached.shapeOf := by
  intro α t f g hfg s c hc
  obtain ⟨r, c', hc', hrun, hshape⟩ := hc.shapeOf h t s
  cases r with
  | ok built =>
      have hcached : (host.cached.shapeOf t).Gives (s, c) (built.shape.within .fst) (s, c') :=
        Act.map_gives.2 ⟨built, hrun, rfl⟩
      have hown : (host.shapeOf t).Gives s built.shape s := by
        rw [h t]
        exact Act.ofExcept_gives.2 ⟨hshape.symm, rfl⟩
      rw [hcached.bind_eq, hown.bind_eq]
      exact hfg built.shape s c' hc'
  | error e =>
      have hcached : (host.cached.shapeOf t).Raises (s, c) e (s, c') := Act.map_raises.2 hrun
      have hown : (host.shapeOf t).Raises s e s := by
        rw [h t]
        exact Act.ofExcept_raises.2 ⟨hshape.symm, rfl⟩
      refine ⟨c', hc', ?_⟩
      rw [hcached.bind, hown.bind]

theorem Host.ShapedBy.within {τ : Type} {host : Host σ} (h : host.ShapedBy shapes)
    (l : Lens τ σ) : (host.within l).ShapedBy fun t => (shapes t).map (·.within l) := by
  intro t
  rw [shapeOf_within, h t, Act.within_ofExcept]
  change _ = Act.ofExcept ((shapes t).map (·.within l))
  cases shapes t <;> rfl

theorem Android.host_shapedBy : host.ShapedBy fun t => match shape? t with
    | some shape => .ok shape
    | none => .error (.host ("unknown type " ++ t.name)) := by
  intro t
  cases h : shape? t with
  | some shape => simp only [host_shapeOf_some h, h]; rfl
  | none => simp only [host_shapeOf_none h, h]; rfl

/-! ## Callbacks -/

section Callbacks

variable {host : Host σ} (h : host.ShapedBy shapes)
include h

theorem Callback.run_caches (c : Callback) (payload : ObjectRef) :
    (c.run host payload).Caches host (c.run host.cached payload) := by
  cases c with
  | replay path expected options body =>
      simp only [run]
      split
      · exact replay_lifts h.liftsShapes options path body payload
      · exact (lifting host).throw _
  | refuse reason => exact (lifting host).throw _

theorem fire_caches (point name : String) (payload : ObjectRef) (rs : List Registration) :
    (fire host point name payload rs).Caches host (fire host.cached point name payload rs) := by
  induction rs with
  | nil => exact (lifting host).pure ()
  | cons r rest ih =>
      simp only [fire]
      split
      · exact (r.callback.run_caches h payload).bind fun _ => ih
      · exact ih

end Callbacks

/-! ## Registration -/

section Components

variable {host : Host σ} (c : Components σ) (options : Options)

theorem registerEntries_caches (path : String) (point : CallbackPoint) (t : Table) :
    (registerEntries options path point c.register t).Caches host
      (registerEntries options path point (c.within Lens.fst).register t) := by
  induction t with
  | nil => exact (lifting host).pure ()
  | cons entry rest ih =>
      obtain ⟨key, v⟩ := entry
      cases v with
      | table body => exact ((lifting host).within _).bind fun _ => ih
      | _ => exact (lifting host).throw _

theorem Components.configure_caches (path : String) (t : Table) :
    (c.configure options path t).Caches host
      ((c.within Lens.fst).configure options path t) := by
  induction t with
  | nil => exact (lifting host).pure ()
  | cons entry rest ih =>
      obtain ⟨key, v⟩ := entry
      simp only [configure, show (c.within Lens.fst).points = c.points from rfl]
      cases c.points.find? (·.name == key) with
      | none => exact (lifting host).throw _
      | some point =>
          refine Act.Caches.bind ?_ fun _ => ih
          cases v with
          | table entries => exact registerEntries_caches c options _ point entries
          | _ => exact (lifting host).throw _

end Components

/-! ## Projects -/

namespace Project

variable {p : Project σ} (h : p.host.ShapedBy shapes) (options : Options)

theorem applyPlugins_caches (ids : List String) :
    (p.applyPlugins ids).Caches p.host (p.cached.applyPlugins ids) := by
  induction ids with
  | nil => exact (lifting p.host).pure ()
  | cons id rest ih => exact ((lifting p.host).within _).bind fun _ => ih

include h

theorem configure_caches (name : String) (t : Table) (e : Extension) :
    (p.configure options name t e).Caches p.host (p.cached.configure options name t e) := by
  cases e with
  | object r => exact replay_lifts h.liftsShapes options name t r
  | components typeName =>
      simp only [configure, show p.cached.components? typeName =
        (p.components? typeName).map (·.within .fst) from rfl]
      cases p.components? typeName with
      | none => exact (lifting p.host).throw _
      | some c => exact c.configure_caches options name t

theorem applyKey_caches (key : String) (v : Value) :
    (p.applyKey options key v).Caches p.host (p.cached.applyKey options key v) := by
  cases v with
  | table t =>
      have hread : (Act.read p.registry).Caches p.host (.read p.cached.registry) :=
        (lifting p.host).of_eq (Act.within_read .fst p.registry).symm
      refine hread.bind fun registry => ?_
      cases registry.get? key with
      | none => exact (lifting p.host).throw _
      | some e => exact configure_caches h options key t e
  | _ => exact (lifting p.host).throw _

theorem applyKeys_caches (t : Table) :
    (p.applyKeys options t).Caches p.host (p.cached.applyKeys options t) := by
  induction t with
  | nil => exact (lifting p.host).pure ()
  | cons entry rest ih =>
      obtain ⟨key, v⟩ := entry
      simp only [applyKeys]
      split
      · exact (applyKey_caches h options key v).bind fun _ => ih
      · exact ih

theorem apply_caches (document : Table) :
    (p.apply options document).Caches p.host (p.cached.apply options document) := by
  rw [apply_eq, apply_eq]
  have hlisted : (p.applyListed document).Caches p.host (p.cached.applyListed document) := by
    unfold applyListed
    cases document.get? pluginsKey with
    | none => exact (lifting p.host).pure ()
    | some plugins => exact ((lifting p.host).ofExcept _).bind applyPlugins_caches
  have hdependencies :
      (p.takeDependencies document).Caches p.host (p.cached.takeDependencies document) := by
    unfold takeDependencies
    cases document.get? dependenciesKey with
    | none => exact (lifting p.host).pure ()
    | some declarations => exact (lifting p.host).within _
  exact hlisted.bind fun _ => (applyKeys_caches h options document).bind fun _ =>
    hdependencies.bind fun _ => (lifting p.host).within _

/-- A cache of a host's shapes is seen in nothing but itself. It remembers what it was asked for. And
however it was filled, a document and the callbacks fired after it end as they do without a cache,
and leave the same state and a cache that is filled by requests again. -/
theorem cached_transparent :
    (∀ requests s, ShapeCache.Remembers p.host shapes requests
      (ShapeCache.serveAll p.host requests (s, .empty))) ∧
    (∀ options document,
      (p.apply options document).Caches p.host (p.cached.apply options document)) ∧
    ∀ point name payload rs,
      (fire p.host point name payload rs).Caches p.host
        (fire p.cached.host point name payload rs) :=
  ⟨ShapeCache.remembers_serveAll h, fun options => apply_caches h options, fire_caches h⟩

omit h in
/-- Application projects have such a host. -/
theorem cached_transparent_application :
    (∃ shapes, Android.ApplicationProject.project.host.ShapedBy shapes) ∧
    ∀ options document,
      (Android.ApplicationProject.project.apply options document).Caches
        Android.ApplicationProject.project.host
        (Android.ApplicationProject.project.cached.apply options document) :=
  have hshaped := Android.host_shapedBy.within Android.ApplicationProject.modelLens
  ⟨⟨_, hshaped⟩, (cached_transparent hshaped).2.1⟩

end Project

end BuildReplay
