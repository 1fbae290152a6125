import BuildReplay.Host.Container
import BuildReplay.Proofs.Act

/-! # Laws of acts

A law holds of acts that do nothing, and of acts in sequence when it holds of each of them. So what
is shown of the single effects of a host holds of everything that is made of them. -/

namespace BuildReplay.Act

variable {σ α β : Type}

/-- A property of acts that sequencing keeps. It is about acts that start in some states, and bounds
the errors that they end with. -/
structure Law (σ : Type) where
  Start : σ → Prop
  Allows : Error → Prop
  Obeys : ∀ {α : Type}, Act σ α → Prop
  pure : ∀ {α : Type} (a : α), Obeys (pure a)
  throw : ∀ {α : Type} {e : Error}, Allows e → Obeys (throw e : Act σ α)
  /-- Only the values that the first act gives count for the second. -/
  bind : ∀ {α β : Type} {x : Act σ α} {f : α → Act σ β}, Obeys x →
    (∀ {s a s'}, Start s → x.Gives s a s' → Obeys (f a)) → Obeys (x >>= f)
  attempt : ∀ {α : Type} {x : Act σ α}, Obeys x → Obeys x.attempt
  allows : ∀ {α : Type} {x : Act σ α} {s e s'}, Obeys x → Start s → x.Raises s e s' → Allows e

namespace Law

variable {L : Law σ} {x : Act σ α}

theorem andThen {f : α → Act σ β} (hx : L.Obeys x) (hf : ∀ a, L.Obeys (f a)) :
    L.Obeys (x >>= f) :=
  L.bind hx fun _ _ => hf _

theorem map (f : α → β) (hx : L.Obeys x) : L.Obeys (f <$> x) := by
  rw [map_eq_pure_bind]
  exact L.andThen hx fun a => L.pure (f a)

theorem discard (hx : L.Obeys x) : L.Obeys (discard x) := L.map (fun _ => ()) hx

theorem ofExcept {r : Except Error α} (h : ∀ e, r = .error e → L.Allows e) :
    L.Obeys (.ofExcept r) := by
  cases r with
  | ok a => exact L.pure a
  | error e => exact L.throw (h e rfl)

/-! ## Invariants and errors -/

/-- From the states of an invariant on, the act keeps the invariant, and its errors are of the kind
`P`. -/
def keeps (I : σ → Prop) (P : Error → Prop) : Law σ where
  Start := I
  Allows := P
  Obeys x := ∀ s, I s → I (x s).2 ∧ ∀ e s', x.Raises s e s' → P e
  pure a s hs := ⟨hs, fun _ _ h => absurd h not_pure_raises⟩
  throw he s hs := ⟨hs, fun e s' h => (throw_raises.1 h).1 ▸ he⟩
  bind {α β x f} hx hf s hs := by
    obtain ⟨hI, hP⟩ := hx s hs
    rcases gives_or_raises x s with ⟨a, s₁, h⟩ | ⟨e, s₁, h⟩
    · rw [h] at hI
      obtain ⟨hI', hP'⟩ := hf hs h s₁ hI
      rw [h.bind_eq]
      refine ⟨hI', fun e s' he => ?_⟩
      rcases bind_raises.1 he with he | ⟨a', s₂, h', he⟩
      · exact hP e s' he
      · obtain ⟨rfl, rfl⟩ := h.unique h'
        exact hP' e s' he
    · rw [h] at hI
      refine ⟨by rwa [h.bind f], fun e' s' he => ?_⟩
      obtain ⟨rfl, rfl⟩ := (h.bind f).unique he
      exact hP e s₁ h
  attempt hx s hs := ⟨(hx s hs).1, fun _ _ h => absurd h not_attempt_raises⟩
  allows hx hs h := (hx _ hs).2 _ _ h

section Keeps

variable {I : σ → Prop} {P : Error → Prop}

theorem keeps_gives (hx : (keeps I P).Obeys x) {s s' : σ} {a : α} (hs : I s)
    (h : x.Gives s a s') : I s' := by
  have hI := (hx s hs).1
  rwa [h] at hI

theorem keeps_read (f : σ → α) : (keeps I P).Obeys (.read f) :=
  fun _ hs => ⟨hs, fun _ _ h => absurd h not_read_raises⟩

theorem keeps_modify {f : σ → σ} (h : ∀ s, I s → I (f s)) : (keeps I P).Obeys (.modify f) :=
  fun s hs => ⟨h s hs, fun _ _ h => absurd h not_modify_raises⟩

end Keeps

/-! ## What acts work on -/

/-- The act works on a part of the state alone: its outcome is determined by the part, and what lies
around the part stays. -/
def onPart {τ : Type} (l : Lens τ σ) : Law τ where
  Start _ := True
  Allows _ := True
  Obeys x := ∀ s, ∃ r s', ∀ t, l.get t = s → x t = (r, l.set s' t)
  pure a s := ⟨.ok a, s, fun t ht => by rw [← ht, l.set_get]; rfl⟩
  throw {α e} _ s := ⟨.error e, s, fun t ht => by rw [← ht, l.set_get]; rfl⟩
  bind {α β x f} hx hf s := by
    obtain ⟨r, s₁, h⟩ := hx s
    rcases r with e | a
    · exact ⟨.error e, s₁, fun t ht => Raises.bind (h t ht) f⟩
    · by_cases hex : ∃ t, l.get t = s
      · obtain ⟨t₀, ht₀⟩ := hex
        obtain ⟨r, s₂, h₂⟩ := hf trivial (h t₀ ht₀) s₁
        refine ⟨r, s₂, fun t ht => ?_⟩
        rw [Gives.bind_eq (h t ht), h₂ _ (l.get_set _ _), l.set_set]
      · exact ⟨.error (.host ""), s, fun t ht => absurd ⟨t, ht⟩ hex⟩
  attempt {α x} hx s := by
    obtain ⟨r, s', h⟩ := hx s
    exact ⟨.ok r, s', fun t ht => by rw [Act.attempt, h t ht]⟩
  allows _ _ _ := trivial

section Within

variable {τ : Type} (l : Lens τ σ)

theorem within_apply (x : Act σ α) (t : τ) :
    x.within l t = ((x (l.get t)).1, l.set (x (l.get t)).2 t) := rfl

theorem onPart_within (x : Act σ α) : (onPart l).Obeys (x.within l) :=
  fun s => ⟨(x s).1, (x s).2, fun t ht => by rw [within_apply, ht]⟩

/-- An invariant of the part is one of the whole. -/
theorem keeps_within {I : σ → Prop} {P : Error → Prop} {x : Act σ α} (h : (keeps I P).Obeys x) :
    (keeps (fun t => I (l.get t)) P).Obeys (x.within l) := by
  intro t ht
  obtain ⟨hI, hP⟩ := h (l.get t) ht
  refine ⟨?_, fun e t' he => hP e (x (l.get t)).2 ?_⟩
  · change I (l.get (l.set (x (l.get t)).2 t))
    rwa [l.get_set]
  · have hfst := congrArg Prod.fst (show x.within l t = (.error e, t') from he)
    exact Prod.ext hfst rfl

end Within

end Law

theorem Gives.within {τ : Type} (l : Lens τ σ) {x : Act σ α} {t : τ} {a : α} {s : σ}
    (h : x.Gives (l.get t) a s) : (x.within l).Gives t a (l.set s t) := by
  rw [Gives, Law.within_apply, h]

theorem Raises.within {τ : Type} (l : Lens τ σ) {x : Act σ α} {t : τ} {e : Error} {s : σ}
    (h : x.Raises (l.get t) e s) : (x.within l).Raises t e (l.set s t) := by
  rw [Raises, Law.within_apply, h]

theorem Gives.of_within {τ : Type} {l : Lens τ σ} {x : Act σ α} {t t' : τ} {a : α}
    (h : (x.within l).Gives t a t') : x.Gives (l.get t) a (l.get t') := by
  rw [Gives, Law.within_apply] at h
  obtain ⟨hfst, rfl⟩ := Prod.mk.inj h
  rw [l.get_set]
  exact Prod.ext hfst rfl

theorem Raises.of_within {τ : Type} {l : Lens τ σ} {x : Act σ α} {t t' : τ} {e : Error}
    (h : (x.within l).Raises t e t') : x.Raises (l.get t) e (l.get t') := by
  rw [Raises, Law.within_apply] at h
  obtain ⟨hfst, rfl⟩ := Prod.mk.inj h
  rw [l.get_set]
  exact Prod.ext hfst rfl

end BuildReplay.Act
