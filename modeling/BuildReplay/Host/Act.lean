import BuildReplay.Error

/-!
# Acts

An act changes a state and ends with a value or an error. What was changed before an error stays
changed.
-/

namespace BuildReplay

/-- A change of a state of type `σ` that ends with an `α` or an error. -/
def Act (σ α : Type) : Type := σ → Except Error α × σ

namespace Act

variable {σ τ α β : Type}

instance : Monad (Act σ) where
  pure a s := (.ok a, s)
  bind x f s := match x s with
    | (.ok a, s) => f a s
    | (.error e, s) => (.error e, s)

instance : MonadExcept Error (Act σ) where
  throw e s := (.error e, s)
  tryCatch x h s := match x s with
    | (.error e, s) => h e s
    | r => r

/-- Ends with what a pure computation ends with. -/
def ofExcept (r : Except Error α) : Act σ α := fun s => (r, s)

/-- Reads the state. -/
def read (f : σ → α) : Act σ α := fun s => (.ok (f s), s)

/-- Reads the state, or fails. -/
def readExcept (f : σ → Except Error α) : Act σ α := fun s => (f s, s)

/-- Changes the state. -/
def modify (f : σ → σ) : Act σ Unit := fun s => (.ok (), f s)

/-- Ends with the outcome of an act as a value, its error included. -/
def attempt (a : Act σ α) : Act σ (Except Error α) := fun s => let (r, s) := a s; (.ok r, s)

/-- Changes the state and ends with a value. -/
def run (f : σ → α × σ) : Act σ α := fun s => let (a, s) := f s; (.ok a, s)

theorem pure_apply (a : α) (s : σ) : (pure a : Act σ α) s = (.ok a, s) := rfl

theorem throw_apply (e : Error) (s : σ) : (throw e : Act σ α) s = (.error e, s) := rfl

theorem bind_apply (x : Act σ α) (f : α → Act σ β) (s : σ) :
    (x >>= f) s = match x s with
      | (.ok a, s) => f a s
      | (.error e, s) => (.error e, s) := rfl

instance : LawfulMonad (Act σ) := LawfulMonad.mk' (Act σ)
  (fun x => funext fun s => by
    change (match x s with | (.ok a, s) => _ | (.error e, s) => _) = x s
    rcases x s with ⟨_ | _, _⟩ <;> rfl)
  (fun _ _ => rfl)
  (fun x f g => funext fun s => by
    simp only [bind_apply]
    rcases x s with ⟨_ | _, _⟩ <;> rfl)

end Act

end BuildReplay
