import BuildReplay.Proofs.Cells

/-! # Repeatable tables

A table that adds to no list can be applied again without effect: every key is taken as it was the
first time, and overwrites what it wrote. -/

namespace BuildReplay

variable {σ α : Type}

def ValueType.isList : ValueType → Bool
  | .list _ => true
  | _ => false

/-- Whether the declaration is of a field that holds a list. -/
def Declaration.holdsList : Declaration σ → Bool
  | .settable f | .readOnly f => f.type.isList
  | _ => false

/-- Whether the key is bound to a field that holds a list. -/
def Shape.bindsList (shape : Shape σ) (key : String) : Bool :=
  match route shape key with
  | .settable f | .readOnly f => f.type.isList
  | _ => false

def Binding.isField : Binding → Bool
  | .field _ => true
  | .member _ => false

/-- A field that a key is bound to was declared, with a list or without. -/
theorem Shape.exists_of_binding? {shape : Shape σ} {ds : List (Declaration σ)}
    (hds : shape.DescribedBy ds) {key : String} {b : Binding} (h : shape.binding? key = some b)
    (hfield : b.isField) : ∃ d ∈ ds, d.binding? = some b ∧ d.holdsList = shape.bindsList key := by
  cases hroute : route shape key with
  | dispatch =>
      rw [binding?, hroute] at h
      cases h
  | settable f =>
      rw [binding?_settable hroute] at h
      obtain ⟨_, -, hf⟩ := settable?_of_route hroute
      exact ⟨_, (hds.settable hf).1, h, by rw [bindsList, hroute]; rfl⟩
  | readOnly f =>
      rw [binding?_readOnly hroute] at h
      exact ⟨_, (hds.readOnly (readOnly?_of_route hroute)).1, h, by rw [bindsList, hroute]; rfl⟩
  | member =>
      rw [binding?, hroute] at h
      dsimp only at h
      split_ifs at h
      all_goals
        cases h
        cases hfield

/-- No key of an object, in the table or in a table below it, is barred or bound to a list. -/
inductive Table.Repeatable (shapes : TypeRef → Option (Shape σ)) (barred : String → Prop) :
    Subject → Table → Prop where
  | object {type : TypeRef} {shape : Shape σ} {t : Table} : shapes type = some shape →
      (∀ key ∈ t.keys, ¬barred key ∧ shape.bindsList key = false) →
      (∀ key body, (key, .table body) ∈ t → Repeatable shapes barred (shape.subject key) body) →
      Repeatable shapes barred (.object type) t
  | elements {type : TypeRef} {t : Table} :
      (∀ name body, (name, .table body) ∈ t → Repeatable shapes barred (.object type) body) →
      Repeatable shapes barred (.elements type) t
  | entries {t : Table} : Repeatable shapes barred .entries t
  | other {t : Table} : Repeatable shapes barred .other t

/-! ## Changes that overwrite -/

namespace Cells

/-- The changes of the parts that are overwritten. -/
def settled (cells : Cells α) : Submonoid (Function.End α) :=
  ⨆ b : {b // Overwrites (cells.cell b)}, cells.cell b

theorem overwrites_settled (cells : Cells α) : Overwrites cells.settled :=
  overwrites_iSup (fun b => b.2) fun _ _ hne => cells.commute fun heq => hne (Subtype.ext heq)

variable {cells : Cells α} {shape : Shape σ} {key : String}

theorem ofKey_le_settled (h : Overwrites (cells.ofKey shape key)) :
    cells.ofKey shape key ≤ cells.settled := by
  unfold ofKey at h ⊢
  split at h
  · rename_i b _
    exact le_iSup (fun b : {b // Overwrites (cells.cell b)} => cells.cell b) ⟨b, h⟩
  · exact bot_le

/-- Where all other parts are fields with lists, a key that is not bound to a list overwrites. -/
theorem overwrites_ofKey {ds : List (Declaration σ)} {l : List (Binding × Part α)}
    {h : l.Pairwise fun x y => x.2.lens.Apart y.2.lens} (hds : shape.DescribedBy ds)
    (hlists : ∀ x ∈ l, x.2.settles ∨
      x.1.isField ∧ ∀ d ∈ ds, d.binding? = some x.1 → d.holdsList)
    (hkey : shape.bindsList key = false) : Overwrites ((ofList l h).ofKey shape key) := by
  unfold ofKey
  split
  · rename_i b hb
    rcases cell_ofList (h := h) b with hbot | ⟨part, hmem, hcell⟩
    · rw [hbot]
      exact overwrites_bot
    · rw [hcell]
      refine part.overwrites ((hlists _ hmem).resolve_right fun ⟨hfield, hlist⟩ => ?_)
      obtain ⟨d, hd, hbinding, hholds⟩ := Shape.exists_of_binding? hds hb hfield
      rw [hkey, hlist d hd hbinding] at hholds
      cases hholds
  · exact overwrites_bot

end Cells

/-! ## Tables that are applied -/

section Tables

variable [Stored σ α] {host : Host σ} {shape : Shape σ} {shapes : TypeRef → Option (Shape σ)}
  {barred : String → Prop}

/-- A repeatable table does one thing to every object, where each of its keys does. -/
theorem populate_repeatable {γ : Type} {T : Track (Ref α × List (Frame σ)) σ γ}
    {K : Submonoid (Function.End γ)} (sc : Scope σ) (hshapeOf : host.shapeOf (typeRef α) = pure shape)
    (hshape : shapes (typeRef α) = some shape)
    (hkey : ∀ key v, ¬barred key → shape.bindsList key = false →
      (∀ body : Table, v = .table body → body.Repeatable shapes barred (shape.subject key)) →
      T.Alike K (keyOf host sc shape (key, v)) (keyOf host sc shape (key, v)))
    {t : Table} (ht : t.Repeatable shapes barred (.object (typeRef α))) :
    T.Alike K (fun i => populate host ⟨sc.options, sc.path, i.2⟩ i.1.object t)
      fun i => populate host ⟨sc.options, sc.path, i.2⟩ i.1.object t := by
  simp only [populate_eq_inOrder sc hshapeOf]
  cases ht with
  | @object _ shape' _ hshape' hkeys hbelow =>
      obtain rfl : shape = shape' := Option.some.inj (hshape.symm.trans hshape')
      refine Track.Alike.inOrder (List.forall₂_same.2 fun e he => ?_)
      obtain ⟨hbarred, hlist⟩ := hkeys e.1 (List.mem_map.2 ⟨e, he, rfl⟩)
      exact hkey e.1 e.2 hbarred hlist fun body hbody => hbelow e.1 body (hbody ▸ he)

/-- A repeatable table for an object that holds no others overwrites what it changes. -/
theorem OwnType.populate_repeatable {cells : Cells α} (h : OwnType host shape cells barred)
    (hcells : ∀ {key}, shape.bindsList key = false → Overwrites (cells.ofKey shape key))
    (hshape : shapes (typeRef α) = some shape) (sc : Scope σ) {t : Table}
    (ht : t.Repeatable shapes barred (.object (typeRef α))) :
    (objectTrack σ α).Alike cells.settled
      (fun i => populate host ⟨sc.options, sc.path, i.2⟩ i.1.object t)
      fun i => populate host ⟨sc.options, sc.path, i.2⟩ i.1.object t := by
  refine BuildReplay.populate_repeatable sc h.shapeOf hshape (fun key v hkey hlist _ => ?_) ht
  exact (h.keyOf_alike sc hkey (.same v) fun _ _ _ => .inl rfl).mono
    (Cells.ofKey_le_settled (hcells hlist))

end Tables

end BuildReplay
