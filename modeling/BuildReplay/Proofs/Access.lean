import BuildReplay.Proofs.Act
import BuildReplay.Shape.Typed

/-! # Accesses as acts

An access takes back all that it lends, so it is what it does to the state, and a call of the host
finds every object at rest. What a call still finds lent is what it has lent itself. -/

namespace BuildReplay

variable {σ α β : Type}

namespace Access

/-- A run of an access is what it does to the state. Who has which object is as before it, so that
between two calls nobody has one. -/
theorem run_eq (x : Access σ α) (s : σ) (bs : Borrows) :
    x.run ⟨s, bs⟩ = ((x.during bs s).1, ⟨(x.during bs s).2, bs⟩) := by
  have hrestores := x.restores ⟨s, bs⟩
  rcases hrun : x.run ⟨s, bs⟩ with ⟨r, s', bs'⟩
  have hduring : x.during bs s = (r, s') := by rw [during, hrun]
  rw [hrun] at hrestores
  rw [hduring, show bs' = bs from hrestores]

variable {bs : Borrows}

@[simp] theorem during_pure (a : α) : (pure a : Access σ α).during bs = pure a := rfl

@[simp] theorem during_bind (x : Access σ α) (f : α → Access σ β) :
    (x >>= f).during bs = x.during bs >>= fun a => (f a).during bs := by
  funext s
  have hrun : (x >>= f).run ⟨s, bs⟩ = (x.run >>= fun a => (f a).run) ⟨s, bs⟩ := rfl
  rw [during, hrun, Act.bind_apply, Act.bind_apply, run_eq]
  rcases x.during bs s with ⟨e | a, s'⟩
  · rfl
  · rfl

@[simp] theorem during_ofExcept (r : Except Error α) :
    (ofExcept r : Access σ α).during bs = .ofExcept r := rfl

@[simp] theorem during_fail (e : Error) : (fail e : Access σ α).during bs = throw e := rfl

@[simp] theorem during_read (f : σ → α) : (read f).during bs = .read f := rfl

@[simp] theorem during_modify (f : σ → σ) : (modify f).during bs = .modify f := rfl

/-- An object that can be had is lent for as long as the body runs. -/
theorem during_lending {mode : BorrowMode} {o : ObjectRef} {b : Borrow} (busy body : Access σ α)
    (h : mode.take (bs o) = some b) :
    (lending mode o busy body).during bs = body.during (bs.set o b) := by
  funext s
  simp only [during, lending, h]

theorem during_lending_of_none {mode : BorrowMode} {o : ObjectRef} (busy body : Access σ α)
    (h : mode.take (bs o) = none) : (lending mode o busy body).during bs = busy.during bs := by
  funext s
  simp only [during, lending, h]

end Access

/-! ## Handles -/

theorem Ref.object_inj [Described α] {a b : Ref α} : a.object = b.object ↔ a = b := by
  constructor
  · intro h
    cases a
    cases b
    cases h
    rfl
  · rintro rfl
    rfl

namespace ObjectRef

variable [Described α]

theorem cell_object (a : Ref α) : a.object.cell α = .ok a := if_pos rfl

theorem cell_eq_ok {o : ObjectRef} {a : Ref α} : o.cell α = .ok a ↔ o = a.object := by
  constructor
  · intro h
    unfold cell at h
    split at h
    · cases h
      rename_i htype
      rw [Ref.object, ← htype]
    · cases h
  · rintro rfl
    exact cell_object a

theorem exists_cell {o : ObjectRef} (h : o.type = typeRef α) : ∃ a : Ref α, o = a.object :=
  ⟨⟨o.id⟩, by rw [Ref.object, ← h]⟩

theorem cell_error {o : ObjectRef} {e : Error} (h : o.cell α = .error e) :
    e = o.accessedAs (Described.qualified α) := by
  unfold cell at h
  split at h
  · cases h
  · cases h
    rfl

/-- Where a call asks for an object first, it gets it to itself. -/
theorem act_lend_exclusive (o : ObjectRef) (body : Ref α → Access σ β) :
    (o.lend .exclusive body).act = (do
      let a ← .ofExcept (o.cell α)
      (body a).during (Borrows.nothing.set o .writer)) := by
  rw [Access.act, lend, Access.during_bind, Access.during_ofExcept]
  exact bind_congr fun a => Access.during_lending _ _ rfl

theorem act_lend_object (a : Ref α) (body : Ref α → Access σ β) :
    (a.object.lend .exclusive body).act =
      (body a).during (Borrows.nothing.set a.object .writer) := by
  rw [act_lend_exclusive, cell_object]
  rfl

theorem act_lend_shared (o : ObjectRef) (body : Ref α → Access σ β) :
    (o.lend .shared body).act = (do
      let a ← .ofExcept (o.cell α)
      (body a).during (Borrows.nothing.set o (.readers 1))) := by
  rw [Access.act, lend, Access.during_bind, Access.during_ofExcept]
  exact bind_congr fun a => Access.during_lending _ _ rfl

end ObjectRef

/-! ## Declarations over typed objects -/

section Typed

variable [Described α]

theorem getter_eq (look : Ref α → σ → Live) (o : ObjectRef) (s : σ) :
    getter look o s = (o.cell α).map fun a => look a s := by
  rw [getter, ObjectRef.act_lend_shared]
  cases o.cell α <;> rfl

@[simp] theorem getter_object (look : Ref α → σ → Live) (a : Ref α) (s : σ) :
    getter look a.object s = .ok (look a s) := by
  rw [getter_eq, ObjectRef.cell_object]
  rfl

theorem getter_error {look : Ref α → σ → Live} {o : ObjectRef} {s : σ} {e : Error}
    (h : getter look o s = .error e) : e = o.accessedAs (Described.qualified α) := by
  rw [getter_eq] at h
  cases hcell : o.cell α with
  | ok a =>
      rw [hcell] at h
      cases h
  | error e' =>
      rw [hcell] at h
      cases h
      exact ObjectRef.cell_error hcell

theorem getter_eq_ok {look : Ref α → σ → Live} {o : ObjectRef} {s : σ} {live : Live} :
    getter look o s = .ok live ↔ ∃ a : Ref α, o = a.object ∧ live = look a s := by
  rw [getter_eq]
  constructor
  · intro h
    cases hcell : o.cell α with
    | ok a =>
        rw [hcell] at h
        cases h
        exact ⟨a, ObjectRef.cell_eq_ok.1 hcell, rfl⟩
    | error e =>
        rw [hcell] at h
        cases h
  · rintro ⟨a, rfl, rfl⟩
    rw [ObjectRef.cell_object]
    rfl

/-- A handle as an argument is that handle again. -/
theorem argument_object (a : Ref α) (bs : Borrows) :
    (argument [.object a.object] 0 : Access σ (Ref α)).during bs = pure a := by
  rw [argument, Access.during_ofExcept]
  exact congrArg Act.ofExcept (if_pos rfl)

/-- A field with a container hands it out for every object of its type. -/
theorem Field.get_held (a : Ref α) (name : String) (type : ValueType) (live : Slot → Live) :
    (Field.held α name type live : Field σ).get a.object = pure (live ⟨a.object, name⟩) := by
  funext s
  exact congrArg (·, s) (getter_object (fun (a : Ref α) _ => live ⟨a.object, name⟩) a s)

end Typed

/-- A converted value that is put into an object, as an act. -/
theorem act_convert [Stored σ α] (r : Except Error β) (o : ObjectRef) (set : β → α → α) :
    (Access.act do
      let b ← .ofExcept r
      o.lend .exclusive fun a : Ref α => .modify (a.modify (set b)) : Act σ Unit) = (do
      let b ← .ofExcept r
      let a ← .ofExcept (o.cell α)
      .modify (a.modify (set b))) := by
  rw [Access.act, Access.during_bind, Access.during_ofExcept]
  exact bind_congr fun b => ObjectRef.act_lend_exclusive o _

theorem act_convert_object [Stored σ α] (r : Except Error β) (a : Ref α) (set : β → α → α) :
    (Access.act do
      let b ← .ofExcept r
      a.object.lend .exclusive fun a : Ref α => .modify (a.modify (set b)) : Act σ Unit) = (do
      let b ← .ofExcept r
      .modify (a.modify (set b))) := by
  rw [act_convert, ObjectRef.cell_object]
  rfl

end BuildReplay
