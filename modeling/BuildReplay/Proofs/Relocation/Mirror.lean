import BuildReplay.Live
import BuildReplay.Proofs.Act
import Mathlib.Data.List.Forall2

/-! # Runs side by side

Two runs whose states are related end in the same way: with related values or with errors that are
alike, and with states that are related again. Each step of a run has a rule of its own. -/

namespace BuildReplay

variable {σ α β γ δ : Type}

/-- The errors are the same. A host that refuses a value may show it, so its messages may differ. -/
inductive Error.Alike : Error → Error → Prop where
  | refl (e : Error) : Alike e e
  | host (message message' : String) : Alike (.host message) (.host message')

/-- The results are related values, or errors that are alike. -/
inductive Outcome (V : α → β → Prop) : Except Error α → Except Error β → Prop where
  | ok {a : α} {b : β} : V a b → Outcome V (.ok a) (.ok b)
  | error {e e' : Error} : e.Alike e' → Outcome V (.error e) (.error e')

namespace Outcome

variable {V : α → β → Prop} {r : Except Error α} {q : Except Error β}

theorem refl {V : α → α → Prop} (hV : ∀ a, V a a) (r : Except Error α) : Outcome V r r := by
  cases r with
  | ok a => exact .ok (hV a)
  | error e => exact .error (.refl e)

theorem map {W : γ → δ → Prop} {f : α → γ} {g : β → δ} (h : Outcome V r q)
    (hfg : ∀ {a b}, V a b → W (f a) (g b)) : Outcome W (r.map f) (q.map g) := by
  cases h with
  | ok hab => exact .ok (hfg hab)
  | error he => exact .error he

theorem bind {W : γ → δ → Prop} {f : α → Except Error γ} {g : β → Except Error δ}
    (h : Outcome V r q) (hfg : ∀ {a b}, V a b → Outcome W (f a) (g b)) :
    Outcome W (r >>= f) (q >>= g) := by
  cases h with
  | ok hab => exact hfg hab
  | error he => exact .error he

/-- The items of a list, one after the other. -/
theorem mapM {f : γ → Except Error α} {g : γ → Except Error β} {l : List γ}
    (h : ∀ c ∈ l, Outcome V (f c) (g c)) : Outcome (List.Forall₂ V) (l.mapM f) (l.mapM g) := by
  induction l with
  | nil => exact .ok .nil
  | cons c l ih =>
      obtain ⟨hc, hl⟩ := List.forall_mem_cons.1 h
      rw [List.mapM_cons, List.mapM_cons]
      exact hc.bind fun hab => (ih hl).bind fun habs => .ok (.cons hab habs)

end Outcome

namespace Act

/-- From related states on, the acts end in the same way. -/
def Mirrors (S : σ → σ → Prop) (V : α → β → Prop) (x : Act σ α) (y : Act σ β) : Prop :=
  ∀ s t, S s t → Outcome V (x s).1 (y t).1 ∧ S (x s).2 (y t).2

namespace Mirrors

variable {S : σ → σ → Prop} {V : α → β → Prop} {W : γ → δ → Prop} {x : Act σ α} {y : Act σ β}

theorem pure {a : α} {b : β} (h : V a b) : Mirrors S V (pure a) (pure b) :=
  fun _ _ hst => ⟨.ok h, hst⟩

theorem throw {e e' : Error} (h : e.Alike e') :
    Mirrors S V (throw e : Act σ α) (throw e' : Act σ β) :=
  fun _ _ hst => ⟨.error h, hst⟩

theorem ofExcept {r : Except Error α} {q : Except Error β} (h : Outcome V r q) :
    Mirrors S V (.ofExcept r) (.ofExcept q) :=
  fun _ _ hst => ⟨h, hst⟩

theorem read {f : σ → α} {g : σ → β} (h : ∀ {s t}, S s t → V (f s) (g t)) :
    Mirrors S V (.read f) (.read g) :=
  fun _ _ hst => ⟨.ok (h hst), hst⟩

theorem readExcept {f : σ → Except Error α} {g : σ → Except Error β}
    (h : ∀ {s t}, S s t → Outcome V (f s) (g t)) : Mirrors S V (.readExcept f) (.readExcept g) :=
  fun _ _ hst => ⟨h hst, hst⟩

theorem modify {f g : σ → σ} (h : ∀ {s t}, S s t → S (f s) (g t)) :
    Mirrors S Eq (.modify f) (.modify g) :=
  fun _ _ hst => ⟨.ok rfl, h hst⟩

theorem bind {f : α → Act σ γ} {g : β → Act σ δ} (hxy : Mirrors S V x y)
    (hfg : ∀ {a b}, V a b → Mirrors S W (f a) (g b)) : Mirrors S W (x >>= f) (y >>= g) := by
  intro s t hst
  obtain ⟨hout, hst₁⟩ := hxy s t hst
  rw [bind_apply, bind_apply]
  rcases hx : x s with ⟨r, s₁⟩
  rcases hy : y t with ⟨q, t₁⟩
  rw [hx, hy] at hout hst₁
  cases hout with
  | ok hab => exact hfg hab _ _ hst₁
  | error he => exact ⟨.error he, hst₁⟩

/-- After acts that give the same value. -/
theorem andThen {x y : Act σ α} {f : α → Act σ γ} {g : α → Act σ δ} (hxy : Mirrors S Eq x y)
    (hfg : ∀ a, Mirrors S W (f a) (g a)) : Mirrors S W (x >>= f) (y >>= g) :=
  hxy.bind fun hab => hab ▸ hfg _

theorem map {f : α → γ} {g : β → δ} (hxy : Mirrors S V x y)
    (hfg : ∀ {a b}, V a b → W (f a) (g b)) : Mirrors S W (f <$> x) (g <$> y) := by
  rw [map_eq_pure_bind, map_eq_pure_bind]
  exact hxy.bind fun hab => .pure (hfg hab)

theorem discard (hxy : Mirrors S V x y) : Mirrors S Eq (discard x) (discard y) :=
  hxy.map fun _ => rfl

theorem attempt (hxy : Mirrors S V x y) : Mirrors S (Outcome V) x.attempt y.attempt :=
  fun s t hst => ⟨.ok (hxy s t hst).1, (hxy s t hst).2⟩

end Mirrors

end Act

/-! ## Values -/

/-- The values are the same, or both are paths and the paths are related. -/
inductive Live.Alike (R : Path → Path → Prop) : Live → Live → Prop where
  | refl (v : Live) : Alike R v v
  | path {p q : Path} : R p q → Alike R (.path p) (.path q)

end BuildReplay
