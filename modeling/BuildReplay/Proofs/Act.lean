import BuildReplay.Host.Act

/-! # Outcomes of acts

An act that gives a value has run all its parts; one that raises an error stopped at the part that
raised it, and the state is what that part left. -/

namespace BuildReplay.Act

variable {σ α β : Type}

/-- From `s` on, the act ends with the value `a` and leaves `s'`. -/
def Gives (x : Act σ α) (s : σ) (a : α) (s' : σ) : Prop := x s = (.ok a, s')

/-- From `s` on, the act ends with the error `e` and leaves `s'`. -/
def Raises (x : Act σ α) (s : σ) (e : Error) (s' : σ) : Prop := x s = (.error e, s')

variable {x : Act σ α} {f : α → Act σ β} {s s₁ s' : σ} {a : α} {b : β} {e : Error}

theorem gives_or_raises (x : Act σ α) (s : σ) :
    (∃ a s', x.Gives s a s') ∨ ∃ e s', x.Raises s e s' := by
  rcases h : x s with ⟨e | a, s'⟩
  · exact .inr ⟨e, s', h⟩
  · exact .inl ⟨a, s', h⟩

theorem Gives.unique {a' : α} {s₂ : σ} (h : x.Gives s a s₁) (h' : x.Gives s a' s₂) :
    a = a' ∧ s₁ = s₂ := by
  rw [Gives, h] at h'
  cases h'
  exact ⟨rfl, rfl⟩

theorem Raises.unique {e' : Error} {s₂ : σ} (h : x.Raises s e s₁) (h' : x.Raises s e' s₂) :
    e = e' ∧ s₁ = s₂ := by
  rw [Raises, h] at h'
  cases h'
  exact ⟨rfl, rfl⟩

theorem Gives.not_raises (h : x.Gives s a s₁) : ¬x.Raises s e s' := by
  intro h'
  rw [Raises, h] at h'
  cases h'

/-- Whether a closed run succeeds is found out by evaluation. -/
theorem gives_of_isOk {x : Act σ Unit} (h : (x s).1.isOk) : x.Gives s () (x s).2 := by
  rcases gives_or_raises x s with ⟨⟨⟩, s', hx⟩ | ⟨e, s', hx⟩
  · rw [hx]
    exact hx
  · rw [hx] at h
    cases h

/-- So is what it fails with. -/
theorem raises_of_fst {x : Act σ α} (h : (x s).1 = .error e) : x.Raises s e (x s).2 :=
  Prod.ext h rfl

theorem Gives.bind_eq (h : x.Gives s a s₁) (f : α → Act σ β) : (x >>= f) s = f a s₁ := by
  rw [bind_apply, h]

theorem Raises.bind (h : x.Raises s e s₁) (f : α → Act σ β) : (x >>= f).Raises s e s₁ := by
  rw [Raises, bind_apply, h]

theorem bind_gives :
    (x >>= f).Gives s b s' ↔ ∃ a s₁, x.Gives s a s₁ ∧ (f a).Gives s₁ b s' := by
  rcases gives_or_raises x s with ⟨a, s₁, hx⟩ | ⟨e, s₁, hx⟩
  · rw [Gives, hx.bind_eq]
    constructor
    · intro hf
      exact ⟨a, s₁, hx, hf⟩
    · rintro ⟨a', s₂, hx', hf⟩
      obtain ⟨rfl, rfl⟩ := hx.unique hx'
      exact hf
  · constructor
    · intro h
      exact absurd (hx.bind f) h.not_raises
    · rintro ⟨a', s₂, hx', -⟩
      exact absurd hx hx'.not_raises

theorem bind_raises :
    (x >>= f).Raises s e s' ↔
      x.Raises s e s' ∨ ∃ a s₁, x.Gives s a s₁ ∧ (f a).Raises s₁ e s' := by
  rcases gives_or_raises x s with ⟨a, s₁, hx⟩ | ⟨e', s₁, hx⟩
  · rw [Raises, hx.bind_eq]
    constructor
    · intro hf
      exact .inr ⟨a, s₁, hx, hf⟩
    · rintro (hx' | ⟨a', s₂, hx', hf⟩)
      · exact absurd hx' hx.not_raises
      · obtain ⟨rfl, rfl⟩ := hx.unique hx'
        exact hf
  · constructor
    · intro h
      obtain ⟨rfl, rfl⟩ := (hx.bind f).unique h
      exact .inl hx
    · rintro (hx' | ⟨a', s₂, hx', -⟩)
      · exact hx'.bind f
      · exact absurd hx hx'.not_raises

@[simp] theorem pure_gives {a' : α} : (pure a : Act σ α).Gives s a' s' ↔ a = a' ∧ s = s' := by
  simp [Gives, pure_apply]

@[simp] theorem not_pure_raises : ¬(pure a : Act σ α).Raises s e s' := by
  simp [Raises, pure_apply]

@[simp] theorem not_throw_gives : ¬(throw e : Act σ α).Gives s a s' := by
  simp [Gives, throw_apply]

@[simp] theorem throw_raises {e' : Error} :
    (throw e : Act σ α).Raises s e' s' ↔ e = e' ∧ s = s' := by
  simp [Raises, throw_apply]

@[simp] theorem ofExcept_gives {r : Except Error α} :
    (ofExcept r).Gives s a s' ↔ r = .ok a ∧ s = s' := by
  simp [Gives, ofExcept]

@[simp] theorem ofExcept_raises {r : Except Error α} :
    (ofExcept r).Raises s e s' ↔ r = .error e ∧ s = s' := by
  simp [Raises, ofExcept]

@[simp] theorem readExcept_gives {r : σ → Except Error α} :
    (readExcept r).Gives s a s' ↔ r s = .ok a ∧ s = s' := by
  simp [Gives, readExcept]

@[simp] theorem readExcept_raises {r : σ → Except Error α} :
    (readExcept r).Raises s e s' ↔ r s = .error e ∧ s = s' := by
  simp [Raises, readExcept]

@[simp] theorem read_gives {r : σ → α} : (read r).Gives s a s' ↔ r s = a ∧ s = s' := by
  simp [Gives, read]

@[simp] theorem not_read_raises {r : σ → α} : ¬(read r).Raises s e s' := by
  simp [Raises, read]

@[simp] theorem modify_gives {g : σ → σ} {u : Unit} : (modify g).Gives s u s' ↔ g s = s' := by
  simp [Gives, modify]

@[simp] theorem not_modify_raises {g : σ → σ} : ¬(modify g).Raises s e s' := by
  simp [Raises, modify]

@[simp] theorem map_gives {g : α → β} :
    (g <$> x).Gives s b s' ↔ ∃ a, x.Gives s a s' ∧ g a = b := by
  rw [map_eq_pure_bind, bind_gives]
  constructor
  · rintro ⟨a, s₁, hx, hp⟩
    obtain ⟨rfl, rfl⟩ := pure_gives.1 hp
    exact ⟨a, hx, rfl⟩
  · rintro ⟨a, hx, rfl⟩
    exact ⟨a, s', hx, rfl⟩

@[simp] theorem map_raises {g : α → β} : (g <$> x).Raises s e s' ↔ x.Raises s e s' := by
  rw [map_eq_pure_bind, bind_raises]
  constructor
  · rintro (hx | ⟨a, s₁, hx, hp⟩)
    · exact hx
    · exact absurd hp not_pure_raises
  · exact .inl

/-- An act whose outcome is taken as a value raises nothing. -/
@[simp] theorem attempt_gives {r : Except Error α} :
    (attempt x).Gives s r s' ↔ x s = (r, s') := by
  rw [Gives, attempt]
  rcases x s with ⟨r', s₁⟩
  simp

@[simp] theorem not_attempt_raises : ¬(attempt x).Raises s e s' := by
  simp [Raises, attempt]

end BuildReplay.Act
