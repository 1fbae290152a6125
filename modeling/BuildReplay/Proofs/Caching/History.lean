import BuildReplay.Proofs.Resolution
import Mathlib.Data.List.Dedup
import Mathlib.Data.List.Induction

/-! # Caches and what was asked of them

A host describes each of its types once and for all. So a cache of shapes is known from the requests
that it was asked: it holds the types asked for since it was cleared, each with the shape that the
host would give. -/

namespace BuildReplay

variable {σ : Type}

/-- The shapes of the host's types are given from the outset; asking for them changes nothing. -/
def Host.ShapedBy (host : Host σ) (shapes : TypeRef → Except Error (Shape σ)) : Prop :=
  ∀ t, host.shapeOf t = .ofExcept (shapes t)

/-- A request to a cache. -/
inductive CacheRequest where
  | shapeOf (t : TypeRef)
  | contains (t : TypeRef)
  | size
  | clear
deriving DecidableEq

/-- The type whose shape is asked for. -/
def CacheRequest.type? : CacheRequest → Option TypeRef
  | .shapeOf t => some t
  | _ => none

/-- The types asked for since the last clearing, the latest first. -/
def typesSinceClear (requests : List CacheRequest) : List TypeRef :=
  (requests.reverse.takeWhile (· ≠ .clear)).filterMap CacheRequest.type?

theorem typesSinceClear_concat (requests : List CacheRequest) (r : CacheRequest) :
    typesSinceClear (requests ++ [r]) =
      if r = .clear then [] else r.type?.toList ++ typesSinceClear requests := by
  rw [typesSinceClear, List.reverse_concat, List.takeWhile_cons]
  cases r <;> rfl

namespace ShapeCache

variable {host : Host σ} {shapes : TypeRef → Except Error (Shape σ)}

/-- What a request leaves of a host's state and its cache. -/
def serve (host : Host σ) (s : σ × ShapeCache σ) : CacheRequest → σ × ShapeCache σ
  | .shapeOf t => (shapeOf host t s).2
  | .clear => (s.1, s.2.clear)
  | .contains _ | .size => s

def serveAll (host : Host σ) (requests : List CacheRequest) (s : σ × ShapeCache σ) :
    σ × ShapeCache σ :=
  requests.foldl (serve host) s

theorem serveAll_concat (host : Host σ) (requests : List CacheRequest) (r : CacheRequest)
    (s : σ × ShapeCache σ) :
    serveAll host (requests ++ [r]) s = serve host (serveAll host requests s) r :=
  List.foldl_concat ..

/-! ## One request -/

/-- A shape comes out of the cache, or is built and kept, or cannot be built. -/
theorem shapeOf_cases (h : host.ShapedBy shapes) (t : TypeRef) (s : σ) (c : ShapeCache σ) :
    (∃ built, c.get? t = some built ∧ shapeOf host t (s, c) = (.ok built, s, c)) ∨
    c.get? t = none ∧
      ((∃ shape, shapes t = .ok shape ∧
        shapeOf host t (s, c) = (.ok (c.add t shape).1, s, (c.add t shape).2)) ∨
      ∃ e, shapes t = .error e ∧ shapeOf host t (s, c) = (.error e, s, c)) := by
  cases hget : c.get? t with
  | some built => exact .inl ⟨built, rfl, by simp only [shapeOf, hget]⟩
  | none =>
      refine .inr ⟨rfl, ?_⟩
      cases hshape : shapes t with
      | ok shape =>
          refine .inl ⟨shape, rfl, ?_⟩
          simp only [shapeOf, hget, h t, hshape, Act.ofExcept]
      | error e =>
          refine .inr ⟨e, rfl, ?_⟩
          simp only [shapeOf, hget, h t, hshape, Act.ofExcept]

theorem get?_add_of_get? {c : ShapeCache σ} {t u : TypeRef} {built : BuiltShape σ}
    (h : c.get? u = some built) (shape : Shape σ) : (c.add t shape).2.get? u = some built := by
  obtain ⟨e, hfind, rfl⟩ := Option.map_eq_some_iff.1 h
  simp only [add, get?, List.find?_append, hfind]
  rfl

/-- A shape stays in the cache until it is cleared. -/
theorem get?_serve (h : host.ShapedBy shapes) {r : CacheRequest} (hr : r ≠ .clear)
    {s : σ × ShapeCache σ} {t : TypeRef} {built : BuiltShape σ} (hget : s.2.get? t = some built) :
    (serve host s r).2.get? t = some built := by
  cases r with
  | shapeOf u =>
      obtain ⟨s, c⟩ := s
      rcases shapeOf_cases h u s c with ⟨_, -, hrun⟩ | ⟨-, ⟨shape, -, hrun⟩ | ⟨e, -, hrun⟩⟩
      · rw [serve, hrun]
        exact hget
      · rw [serve, hrun]
        exact get?_add_of_get? hget shape
      · rw [serve, hrun]
        exact hget
  | clear => exact absurd rfl hr
  | _ => exact hget

theorem get?_serveAll (h : host.ShapedBy shapes) {requests : List CacheRequest}
    (hclear : .clear ∉ requests) {s : σ × ShapeCache σ} {t : TypeRef} {built : BuiltShape σ}
    (hget : s.2.get? t = some built) : (serveAll host requests s).2.get? t = some built := by
  induction requests generalizing s with
  | nil => exact hget
  | cons r requests ih =>
      rw [List.mem_cons, not_or] at hclear
      exact ih hclear.2 (get?_serve h (Ne.symm hclear.1) hget)

/-! ## What a cache holds -/

/-- The cache holds the shapes of the types, as far as they have one, each type once. -/
structure Holds (shapes : TypeRef → Except Error (Shape σ)) (types : List TypeRef)
    (c : ShapeCache σ) : Prop where
  nodup : (c.entries.map (·.1)).Nodup
  mem_iff : ∀ t, t ∈ c.entries.map (·.1) ↔ t ∈ types ∧ (shapes t).isOk
  shape : ∀ e ∈ c.entries, shapes e.1 = .ok e.2.shape

theorem isSome_get? (c : ShapeCache σ) (t : TypeRef) :
    (c.get? t).isSome ↔ t ∈ c.entries.map (·.1) := by
  simp [get?]

theorem holds_empty (shapes : TypeRef → Except Error (Shape σ)) : Holds shapes [] .empty :=
  ⟨.nil, by simp [empty], by simp [empty]⟩

theorem holds_clear (shapes : TypeRef → Except Error (Shape σ)) (c : ShapeCache σ) :
    Holds shapes [] c.clear :=
  ⟨.nil, by simp [clear], by simp [clear]⟩

namespace Holds

variable {types : List TypeRef} {c : ShapeCache σ}

theorem shape_of_get? (hc : Holds shapes types c) {t : TypeRef} {built : BuiltShape σ}
    (h : c.get? t = some built) : shapes t = .ok built.shape := by
  obtain ⟨e, hfind, rfl⟩ := Option.map_eq_some_iff.1 h
  obtain rfl : e.1 = t := by simpa using List.find?_some hfind
  exact hc.shape e (List.mem_of_find?_eq_some hfind)

/-- One request changes what is held by the type that it asks for, and nothing of the host. -/
theorem serve (h : host.ShapedBy shapes) (hc : Holds shapes types c) (s : σ) (r : CacheRequest) :
    ∃ c', ShapeCache.serve host (s, c) r = (s, c') ∧
      Holds shapes (if r = .clear then [] else r.type?.toList ++ types) c' := by
  cases r with
  | shapeOf t =>
      rw [if_neg nofun]
      change ∃ c', (ShapeCache.shapeOf host t (s, c)).2 = (s, c') ∧ Holds shapes (t :: types) c'
      rcases shapeOf_cases h t s c with
        ⟨built, hget, hrun⟩ | ⟨hget, ⟨shape, hshape, hrun⟩ | ⟨e, he, hrun⟩⟩
      · refine ⟨c, by rw [hrun], hc.nodup, fun u => ?_, hc.shape⟩
        have ht := (hc.mem_iff t).1 ((isSome_get? c t).1 (by rw [hget]; rfl))
        rw [hc.mem_iff]
        grind
      · have ht : t ∉ c.entries.map (·.1) := fun hmem => by
          rw [← isSome_get?, hget] at hmem
          cases hmem
        have hok : (shapes t).isOk := by rw [hshape]; rfl
        refine ⟨(c.add t shape).2, by rw [hrun], ?_, fun u => ?_, ?_⟩
        · simpa [add] using hc.nodup.concat ht
        · simp only [add, List.map_append, List.mem_append, hc.mem_iff u, List.map_cons,
            List.map_nil, List.mem_cons]
          grind
        · simp only [add, List.forall_mem_append, List.forall_mem_singleton]
          exact ⟨hc.shape, hshape⟩
      · have herror : (shapes t).isOk = false := by rw [he]; rfl
        refine ⟨c, by rw [hrun], hc.nodup, fun u => ?_, hc.shape⟩
        rw [hc.mem_iff]
        grind
  | clear => exact ⟨c.clear, rfl, holds_clear shapes c⟩
  | _ => exact ⟨c, rfl, hc⟩

end Holds

/-! ## All requests -/

/-- After any requests a cache holds what was asked for since it was cleared. -/
theorem holds_serveAll (h : host.ShapedBy shapes) (requests : List CacheRequest) (s : σ) :
    ∃ c, serveAll host requests (s, .empty) = (s, c) ∧
      Holds shapes (typesSinceClear requests) c := by
  induction requests using List.reverseRecOn with
  | nil => exact ⟨.empty, rfl, holds_empty shapes⟩
  | append_singleton requests r ih =>
      obtain ⟨c, hrun, hc⟩ := ih
      obtain ⟨c', hserve, hc'⟩ := hc.serve h s r
      refine ⟨c', ?_, ?_⟩
      · rw [serveAll_concat, hrun, hserve]
      · rw [typesSinceClear_concat]
        exact hc'

theorem builds_serve (h : host.ShapedBy shapes) {r : CacheRequest} (hr : r ≠ .clear)
    (s : σ × ShapeCache σ) :
    (serve host s r).2.builds + s.2.size = s.2.builds + (serve host s r).2.size := by
  cases r with
  | shapeOf t =>
      obtain ⟨s, c⟩ := s
      rcases shapeOf_cases h t s c with ⟨_, -, hrun⟩ | ⟨-, ⟨shape, -, hrun⟩ | ⟨e, -, hrun⟩⟩
      · rw [serve, hrun]
      · rw [serve, hrun]
        simp only [add, size, List.length_append, List.length_singleton]
        omega
      · rw [serve, hrun]
  | clear => exact absurd rfl hr
  | _ => rfl

/-- As long as it is not cleared, a cache grows by one with every build. -/
theorem builds_serveAll (h : host.ShapedBy shapes) {requests : List CacheRequest}
    (hclear : .clear ∉ requests) (s : σ × ShapeCache σ) :
    (serveAll host requests s).2.builds + s.2.size =
      s.2.builds + (serveAll host requests s).2.size := by
  induction requests generalizing s with
  | nil => rfl
  | cons r requests ih =>
      rw [List.mem_cons, not_or] at hclear
      have hfirst := builds_serve h (Ne.symm hclear.1) s
      have hrest := ih hclear.2 (serve host s r)
      change (serveAll host requests (serve host s r)).2.builds + _ = _
      change _ = _ + (serveAll host requests (serve host s r)).2.size
      omega

/-- What a state and a cache that served the requests tell about them, and go on to tell. -/
structure Remembers (host : Host σ) (shapes : TypeRef → Except Error (Shape σ))
    (requests : List CacheRequest) (p : σ × ShapeCache σ) : Prop where
  /-- The cache gives the shape that the host would build. -/
  shape : ∀ t, (shapeOf host t p).1.map (·.shape) = shapes t
  /-- Until it is cleared it gives the outcome of the same build, and builds no other. -/
  again : ∀ {t built later}, (shapeOf host t p).1 = .ok built → .clear ∉ later →
    (shapeOf host t).Gives (serveAll host (.shapeOf t :: later) p) built
      (serveAll host (.shapeOf t :: later) p)
  contains : ∀ t, p.2.contains t ↔ t ∈ typesSinceClear requests ∧ (shapes t).isOk
  size : p.2.size = ((typesSinceClear requests).filter fun t => (shapes t).isOk).dedup.length
  /-- Until it is cleared it builds one shape for each type that is new to it. -/
  builds : ∀ {later}, .clear ∉ later →
    (serveAll host later p).2.builds + p.2.size = p.2.builds + (serveAll host later p).2.size

namespace Holds

variable {types : List TypeRef} {c : ShapeCache σ}

theorem map_shapeOf (h : host.ShapedBy shapes) (hc : Holds shapes types c) (t : TypeRef) (s : σ) :
    (shapeOf host t (s, c)).1.map (·.shape) = shapes t := by
  rcases shapeOf_cases h t s c with
    ⟨built, hget, hrun⟩ | ⟨-, ⟨shape, hshape, hrun⟩ | ⟨e, he, hrun⟩⟩
  · rw [hrun, hc.shape_of_get? hget]
    rfl
  · rw [hrun, hshape]
    rfl
  · rw [hrun, he]
    rfl

theorem size_eq (hc : Holds shapes types c) :
    c.size = (types.filter fun t => (shapes t).isOk).dedup.length := by
  have hperm : (c.entries.map (·.1)).Perm (types.filter fun t => (shapes t).isOk).dedup := by
    rw [List.perm_ext_iff_of_nodup hc.nodup (List.nodup_dedup _)]
    intro t
    rw [hc.mem_iff, List.mem_dedup, List.mem_filter]
  rw [size, ← hperm.length_eq, List.length_map]

end Holds

theorem remembers_serveAll (h : host.ShapedBy shapes) (requests : List CacheRequest) (s : σ) :
    Remembers host shapes requests (serveAll host requests (s, .empty)) := by
  obtain ⟨c, hrun, hc⟩ := holds_serveAll h requests s
  rw [hrun]
  refine ⟨fun t => hc.map_shapeOf h t s, fun {t built later} hbuilt hclear => ?_, fun t => ?_,
    hc.size_eq, fun hclear => builds_serveAll h hclear (s, c)⟩
  · have hgives : (shapeOf host t).Gives (s, c) built (shapeOf host t (s, c)).2 :=
      Prod.ext hbuilt rfl
    exact shapeOf_gives_of_get? (get?_serveAll h hclear (get?_of_shapeOf_gives hgives))
  · rw [ShapeCache.contains, isSome_get?, hc.mem_iff]

/-! ## Filled caches -/

/-- The cache has served requests, be it none. -/
def FilledBy (host : Host σ) (c : ShapeCache σ) : Prop :=
  ∃ requests s s', serveAll host requests (s, .empty) = (s', c)

/-- What a request does to a cache is independent of the state of the host. -/
theorem shapeOf_state (h : host.ShapedBy shapes) (t : TypeRef) (s s' : σ) (c : ShapeCache σ) :
    shapeOf host t (s, c) =
      ((shapeOf host t (s', c)).1, s, (shapeOf host t (s', c)).2.2) := by
  rcases shapeOf_cases h t s' c with
    ⟨built, hget, hrun⟩ | ⟨hget, ⟨shape, hshape, hrun⟩ | ⟨e, he, hrun⟩⟩
  · rw [hrun]
    simp only [shapeOf, hget]
  · rw [hrun]
    simp only [shapeOf, hget, h t, hshape, Act.ofExcept]
  · rw [hrun]
    simp only [shapeOf, hget, h t, he, Act.ofExcept]

/-- A filled cache gives the host's own shapes, and is filled further at most. -/
theorem FilledBy.shapeOf (h : host.ShapedBy shapes) {c : ShapeCache σ} (hc : c.FilledBy host)
    (t : TypeRef) (s : σ) :
    ∃ r c', c'.FilledBy host ∧ ShapeCache.shapeOf host t (s, c) = (r, s, c') ∧
      r.map (·.shape) = shapes t := by
  obtain ⟨requests, s₁, s₂, hrun⟩ := hc
  obtain ⟨_, hrun', hc⟩ := holds_serveAll h requests s₁
  obtain ⟨rfl, rfl⟩ := Prod.mk.inj (hrun'.symm.trans hrun)
  refine ⟨_, _, ⟨requests ++ [.shapeOf t], s₁, s₁, ?_⟩, shapeOf_state h t s s₁ _,
    hc.map_shapeOf h t s₁⟩
  rw [serveAll_concat, hrun, serve, shapeOf_state h t s₁ s₁]

end ShapeCache

end BuildReplay
