import BuildReplay.Proofs.Dictionary
import Mathlib.Algebra.Group.Submonoid.Membership
import Mathlib.Order.CompletePartialOrder

/-! # Changes that overwrite

Of the writes to one part of a state only the last one counts. What is composed of such writes to
several parts can be done again without effect, even where one part is written more than once. -/

namespace BuildReplay

section Monoid

variable {M N : Type} [Monoid M] [Monoid N]

/-- What is done once more after something else need not have been done before it. -/
def Overwrites (K : Submonoid M) : Prop := ∀ f ∈ K, ∀ g ∈ K, f * g * f = f * g

variable {K : Submonoid M}

theorem Overwrites.mul_self (h : Overwrites K) {f : M} (hf : f ∈ K) : f * f = f := by
  simpa using h f hf 1 K.one_mem

theorem overwrites_bot : Overwrites (⊥ : Submonoid M) := by
  intro f hf g hg
  rw [Submonoid.mem_bot.1 hf, mul_one]

theorem Overwrites.map (h : Overwrites K) (φ : M →* N) : Overwrites (K.map φ) := by
  rintro _ ⟨f, hf, rfl⟩ _ ⟨g, hg, rfl⟩
  rw [← map_mul, ← map_mul, h f hf g hg]

/-- It is enough to look at what is done in one step. -/
theorem overwrites_closure {S : Set M} (hself : ∀ f ∈ S, f * f = f)
    (h : ∀ f ∈ S, ∀ g ∈ S, f * g * f = f * g) : Overwrites (Submonoid.closure S) := by
  have hstep : ∀ f ∈ S, ∀ g ∈ Submonoid.closure S, f * g * f = f * g := by
    intro f hf g hg
    induction hg using Submonoid.closure_induction with
    | mem g hg => exact h f hf g hg
    | one => rw [mul_one, hself f hf]
    | mul g g' _ _ ih ih' =>
        -- a further `f` may stand between `g` and `g'`
        calc f * (g * g') * f
          _ = f * g * f * g' * f := by rw [ih, mul_assoc f g g']
          _ = f * g * (f * g' * f) := by simp only [mul_assoc]
          _ = f * g * f * g' := by rw [ih', mul_assoc (f * g) f g']
          _ = f * (g * g') := by rw [ih, mul_assoc f g g']
  intro f hf
  induction hf using Submonoid.closure_induction with
  | mem f hf => exact hstep f hf
  | one => exact fun g _ => by rw [one_mul, mul_one]
  | mul f f' _ hf' ih ih' =>
      intro g hg
      calc f * f' * g * (f * f')
        _ = f * (f' * g) * f * f' := by simp only [mul_assoc]
        _ = f * (f' * g) * f' := by rw [ih (f' * g) (mul_mem hf' hg)]
        _ = f * (f' * g * f') := by simp only [mul_assoc]
        _ = f * f' * g := by rw [ih' g hg, mul_assoc f f' g]

/-- Changes of several kinds, where those of one kind do not affect those of another. -/
theorem overwrites_iSup {ι : Type} {K : ι → Submonoid M} (hK : ∀ i, Overwrites (K i))
    (hcommute : ∀ i j, i ≠ j → ∀ f ∈ K i, ∀ g ∈ K j, Commute f g) : Overwrites (⨆ i, K i) := by
  rw [Submonoid.iSup_eq_closure]
  refine overwrites_closure (fun f hf => ?_) fun f hf g hg => ?_
  · obtain ⟨i, hi⟩ := Set.mem_iUnion.1 hf
    exact (hK i).mul_self hi
  · obtain ⟨i, hi⟩ := Set.mem_iUnion.1 hf
    obtain ⟨j, hj⟩ := Set.mem_iUnion.1 hg
    by_cases hij : i = j
    · subst hij
      exact hK i f hi g hj
    · rw [(hcommute i j hij f hi g hj).eq, mul_assoc, (hK i).mul_self hi]

end Monoid

/-! ## Parts of a state -/

namespace Lens

variable {σ α β : Type}

/-- A part is written as a whole. -/
def writes (l : Lens σ α) : Submonoid (Function.End σ) where
  carrier := { f | f = 1 ∨ ∃ a, f = l.set a }
  one_mem' := .inl rfl
  mul_mem' := by
    rintro _ _ (rfl | ⟨a, rfl⟩) (rfl | ⟨b, rfl⟩)
    · exact .inl rfl
    · exact .inr ⟨b, rfl⟩
    · exact .inr ⟨a, rfl⟩
    · exact .inr ⟨a, funext fun s => l.set_set a b s⟩

theorem set_mem_writes (l : Lens σ α) (a : α) : l.set a ∈ l.writes := .inr ⟨a, rfl⟩

theorem writes_le (l : Lens σ α) : l.writes ≤ l.changes := by
  rintro _ (rfl | ⟨a, rfl⟩)
  · exact l.changes.one_mem
  · exact l.set_mem_changes a

theorem overwrites_writes (l : Lens σ α) : Overwrites l.writes := by
  rintro _ (rfl | ⟨a, rfl⟩) g hg
  · rw [one_mul, mul_one]
  · obtain ⟨g, rfl⟩ := l.writes_le hg
    funext s
    change l.set a (l.modify g (l.set a s)) = l.set a (l.modify g s)
    simp only [modify, set_set]

/-- Entries of a map are written, each as a whole. -/
def inserts (l : Lens σ (Dictionary β)) : Submonoid (Function.End σ) :=
  ⨆ key, (l.comp (Dictionary.entry key)).writes

theorem insert_mem_inserts (l : Lens σ (Dictionary β)) (key : String) (b : β) :
    l.modify (·.insert key b) ∈ l.inserts :=
  le_iSup (fun key => (l.comp (Dictionary.entry key)).writes) key
    ((l.comp (Dictionary.entry key)).set_mem_writes (some b))

theorem inserts_le (l : Lens σ (Dictionary β)) : l.inserts ≤ l.changes :=
  iSup_le fun key => (writes_le _).trans (changes_comp_le l (Dictionary.entry key))

theorem overwrites_inserts (l : Lens σ (Dictionary β)) : Overwrites l.inserts := by
  refine overwrites_iSup (fun _ => overwrites_writes _) fun key key' hne f hf g hg => ?_
  exact ((Dictionary.entry_apart hne).comp l).commute (writes_le _ hf) (writes_le _ hg)

/-- A change of the part as a change of the state. -/
def lift (l : Lens σ α) : Function.End α →* Function.End σ where
  toFun := l.modify
  map_one' := funext l.modify_id
  map_mul' f g := funext fun s => (l.modify_modify g f s).symm

theorem map_lift_le (l : Lens σ α) (K : Submonoid (Function.End α)) : K.map l.lift ≤ l.changes := by
  rintro _ ⟨f, -, rfl⟩
  exact l.modify_mem_changes f

/-- A change of what the part holds, which is made where it is missing. -/
def upsert (l : Lens σ (Option β)) (new : β) (f : Function.End β) : Function.End σ :=
  l.modify fun b? => some (f (b?.getD new))

theorem upsert_mul (l : Lens σ (Option β)) (new : β) (f g : Function.End β) :
    l.upsert new f * l.upsert new g = l.upsert new (f * g) :=
  funext fun s => l.modify_modify (fun b? => some (g (b?.getD new)))
    (fun b? => some (f (b?.getD new))) s

/-- Changes of elements, each by its name. -/
def elements (l : Lens σ (String → Option β)) (make : String → β) (K : Submonoid (Function.End β)) :
    Submonoid (Function.End σ) :=
  ⨆ name, Submonoid.closure ((l.comp (point name)).upsert (make name) '' K)

section Elements

variable (l : Lens σ (String → Option β)) (make : String → β) {K : Submonoid (Function.End β)}

theorem upsert_mem_elements {f : Function.End β} (hf : f ∈ K) (name : String) :
    (l.comp (point name)).upsert (make name) f ∈ l.elements make K :=
  Submonoid.mem_iSup_of_mem name (Submonoid.subset_closure ⟨f, hf, rfl⟩)

theorem closure_upsert_le (name : String) :
    Submonoid.closure ((l.comp (point name)).upsert (make name) '' K) ≤
      (l.comp (point name)).changes := by
  rw [Submonoid.closure_le]
  rintro _ ⟨f, -, rfl⟩
  exact modify_mem_changes _ _

theorem elements_le : l.elements make K ≤ l.changes :=
  iSup_le fun name => (l.closure_upsert_le make name).trans (changes_comp_le l (point name))

theorem overwrites_elements (hK : Overwrites K) : Overwrites (l.elements make K) := by
  refine overwrites_iSup (fun name => overwrites_closure ?_ ?_) fun name name' hne f hf g hg => ?_
  · rintro _ ⟨f, hf, rfl⟩
    rw [upsert_mul, hK.mul_self hf]
  · rintro _ ⟨f, hf, rfl⟩ _ ⟨g, hg, rfl⟩
    rw [upsert_mul, upsert_mul, hK f hf g hg]
  · exact ((point_apart hne).comp l).commute (l.closure_upsert_le make name hf)
      (l.closure_upsert_le make name' hg)

end Elements

end Lens

end BuildReplay
