import BuildReplay.Proofs.Overwriting
import BuildReplay.Proofs.Own

/-! # The parts of an object

Where the fields and members of a type change parts that lie apart, the keys of a plain table can be
taken in any order. Where they overwrite what they change, a table can be applied again. -/

namespace BuildReplay

variable {σ α : Type}

/-- A part of an object, with the changes that are made to it. -/
structure Part (α : Type) where
  {Value : Type}
  lens : Lens α Value
  changes : Submonoid (Function.End α)
  le : changes ≤ lens.changes
  /-- Whether the changes overwrite. -/
  settles : Bool
  overwrites : settles → Overwrites changes

namespace Part

variable {β : Type}

/-- A value is written. -/
def value (l : Lens α β) : Part α := ⟨l, l.writes, l.writes_le, true, fun _ => l.overwrites_writes⟩

/-- The entries of a map are written. -/
def map (l : Lens α (Dictionary β)) : Part α :=
  ⟨l, l.inserts, l.inserts_le, true, fun _ => l.overwrites_inserts⟩

/-- Any change is made, such as adding to a list. -/
def any (l : Lens α β) : Part α := ⟨l, l.changes, le_rfl, false, nofun⟩

/-- An object is changed. -/
def object (l : Lens α β) {K : Submonoid (Function.End β)} (hK : Overwrites K) : Part α :=
  ⟨l, K.map l.lift, l.map_lift_le K, true, fun _ => hK.map l.lift⟩

/-- Elements are made and changed. -/
def elements (l : Lens α (String → Option β)) (make : String → β) {K : Submonoid (Function.End β)}
    (hK : Overwrites K) : Part α :=
  ⟨l, l.elements make K, l.elements_le make, true, fun _ => l.overwrites_elements make hK⟩

end Part

/-- The parts of an object that its fields and members change, each of them its own. -/
structure Cells (α : Type) where
  cell : Binding → Submonoid (Function.End α)
  commute : ∀ {b b'}, b ≠ b' → ∀ f ∈ cell b, ∀ g ∈ cell b', Commute f g

namespace Cells

/-- The parts that are listed, which lie apart by what writing them means; nothing else changes the
object. -/
def ofList (l : List (Binding × Part α))
    (h : l.Pairwise fun x y => x.2.lens.Apart y.2.lens := by
      simp only [List.pairwise_cons, List.forall_mem_cons, List.not_mem_nil, IsEmpty.forall_iff,
        implies_true, List.Pairwise.nil, and_true]
      and_intros <;> exact fun _ _ _ => rfl) :
    Cells α where
  cell b := ((l.find? (·.1 == b)).map (·.2.changes)).getD ⊥
  commute {b b'} hne f hf g hg := by
    have hsymm : Std.Symm fun x y : Binding × Part α => x.2.lens.Apart y.2.lens :=
      ⟨fun _ _ hxy => hxy.symm⟩
    cases hb : l.find? (·.1 == b) with
    | none =>
        rw [hb] at hf
        rw [Submonoid.mem_bot.1 hf]
        exact Commute.one_left g
    | some x =>
        cases hb' : l.find? (·.1 == b') with
        | none =>
            rw [hb'] at hg
            rw [Submonoid.mem_bot.1 hg]
            exact Commute.one_right f
        | some y =>
            rw [hb] at hf
            rw [hb'] at hg
            have hx : x.1 = b := by simpa using List.find?_some hb
            have hy : y.1 = b' := by simpa using List.find?_some hb'
            have hapart := h.forall (List.mem_of_find?_eq_some hb) (List.mem_of_find?_eq_some hb')
              fun heq => hne (by rw [← hx, ← hy, heq])
            exact hapart.commute (x.2.le hf) (y.2.le hg)

theorem cell_ofList {l : List (Binding × Part α)}
    {h : l.Pairwise fun x y => x.2.lens.Apart y.2.lens} (b : Binding) :
    (ofList l h).cell b = ⊥ ∨ ∃ part, (b, part) ∈ l ∧ (ofList l h).cell b = part.changes := by
  change ((l.find? (·.1 == b)).map (·.2.changes)).getD ⊥ = ⊥ ∨
    ∃ part, (b, part) ∈ l ∧ ((l.find? (·.1 == b)).map (·.2.changes)).getD ⊥ = part.changes
  cases hb : l.find? (·.1 == b) with
  | none => exact .inl rfl
  | some x =>
      obtain rfl : x.1 = b := by simpa using List.find?_some hb
      exact .inr ⟨x.2, List.mem_of_find?_eq_some hb, rfl⟩

/-- The changes of what a key is bound to. -/
def ofKey (cells : Cells α) (shape : Shape σ) (key : String) : Submonoid (Function.End α) :=
  match shape.binding? key with
  | some b => cells.cell b
  | none => ⊥

theorem ofKey_commute (cells : Cells α) {shape : Shape σ} {key key' : String}
    (h : ∀ b, shape.binding? key = some b → shape.binding? key' ≠ some b) :
    ∀ f ∈ cells.ofKey shape key, ∀ g ∈ cells.ofKey shape key', Commute f g := by
  intro f hf g hg
  unfold ofKey at hf hg
  split at hf
  · rename_i b hb
    split at hg
    · rename_i b' hb'
      exact cells.commute (fun heq => h b hb (by rw [hb', heq])) f hf g hg
    · rw [Submonoid.mem_bot.1 hg]
      exact Commute.one_right f
  · rw [Submonoid.mem_bot.1 hf]
    exact Commute.one_left g

end Cells

/-- Keys that are bound to different things, pairwise. -/
theorem pairwise_binding {shape : Shape σ} {keys : List String}
    (h : (keys.filterMap shape.binding?).Nodup) :
    keys.Pairwise fun key key' => ∀ b, shape.binding? key = some b → shape.binding? key' ≠ some b :=
  (List.pairwise_filterMap.1 h).imp fun hne b hb hb' => hne b hb b hb' rfl

section Tables

variable [Stored σ α] {host : Host σ} {shape : Shape σ} {shapes : TypeRef → Option (Shape σ)}
  {barred : String → Prop}

/-- The order of the keys does not matter in a plain table, where each of them changes a part of its
own. -/
theorem populate_alike {γ : Type} {T : Track (Ref α × List (Frame σ)) σ γ} {cells : Cells γ}
    (sc : Scope σ) (hshapeOf : host.shapeOf (typeRef α) = pure shape)
    (hshape : shapes (typeRef α) = some shape)
    (hkey : ∀ key v v', ¬barred key → v.Shuffled v' →
      (∀ body : Table, v = .table body → body.Plain shapes barred (shape.subject key)) →
      T.Alike (cells.ofKey shape key) (keyOf host sc shape (key, v)) (keyOf host sc shape (key, v')))
    {t u t' : Table} (hplain : t.Plain shapes barred (.object (typeRef α))) (hmatched : t.Matched u)
    (hperm : u.Perm t') :
    T.Alike ⊤ (fun i => populate host ⟨sc.options, sc.path, i.2⟩ i.1.object t)
      fun i => populate host ⟨sc.options, sc.path, i.2⟩ i.1.object t' := by
  simp only [populate_eq_inOrder sc hshapeOf]
  cases hplain with
  | @object _ shape' _ hshape' hbarred hbindings hbelow =>
      obtain rfl : shape = shape' := Option.some.inj (hshape.symm.trans hshape')
      have hkeys : List.Forall₂ (fun e e' : String × Value =>
          T.Alike (cells.ofKey shape e.1) (keyOf host sc shape e) (keyOf host sc shape e')) t u := by
        refine hmatched.forall₂ fun key v v' hmem hv => ?_
        refine hkey key v v' (hbarred key (List.mem_map.2 ⟨_, hmem, rfl⟩)) hv fun body hbody => ?_
        exact hbelow key body (hbody ▸ hmem)
      refine Track.Alike.inOrder_perm hkeys hperm ?_ fun _ _ => le_top
      exact (List.pairwise_map.1 (pairwise_binding hbindings)).imp cells.ofKey_commute

/-- The keys of a plain map are distinct. -/
theorem nodup_of_plain {key : String} {v v' : Value}
    (h : ∀ body : Table, v = .table body → body.Plain shapes barred (shape.subject key))
    (hsubject : shape.subject key = .entries) (t : Table) (ht : v = .table t) :
    v = v' ∨ t.keys.Nodup := by
  have hentries := h t ht
  rw [hsubject] at hentries
  cases hentries with
  | entries hnodup => exact .inr hnodup

variable {cells : Cells α}

/-- The declarations of a type, as far as keys are bound to them that are not barred, change nothing
but the object, each its own part. -/
structure OwnType (host : Host σ) (shape : Shape σ) (cells : Cells α) (barred : String → Prop) :
    Prop where
  described : ∃ ds, shape.DescribedBy ds ∧ ∀ key, ¬barred key → ∀ d ∈ ds, ∀ b,
    d.binding? = some b → shape.binding? key = some b → d.Own host (cells.cell b)
  mapLike : shape.mapLike = false
  dispatch : barred dispatchKey
  shapeOf : host.shapeOf (typeRef α) = pure shape

theorem OwnType.keyOf_alike (h : OwnType host shape cells barred) (sc : Scope σ) {key : String}
    {v v' : Value} (hkey : ¬barred key) (hv : v.Shuffled v')
    (hnodup : shape.subject key = .entries → ∀ t : Table, v = .table t → v = v' ∨ t.keys.Nodup) :
    (objectTrack σ α).Alike (cells.ofKey shape key) (keyOf host sc shape (key, v))
      (keyOf host sc shape (key, v')) := by
  obtain ⟨ds, hds, hown⟩ := h.described
  refine BuildReplay.keyOf_alike hds h.mapLike (fun d hd b hb hbinding => ?_)
    (fun heq => hkey (heq ▸ h.dispatch)) hv hnodup
  rw [Cells.ofKey, hbinding]
  exact hown key hkey d hd b hb hbinding

/-- The order of the keys does not matter in a plain table for an object that holds no others. -/
theorem OwnType.populate_alike (h : OwnType host shape cells barred)
    (hshape : shapes (typeRef α) = some shape) (sc : Scope σ) {t u t' : Table}
    (hplain : t.Plain shapes barred (.object (typeRef α))) (hmatched : t.Matched u)
    (hperm : u.Perm t') :
    (objectTrack σ α).Alike ⊤
      (fun i => populate host ⟨sc.options, sc.path, i.2⟩ i.1.object t)
      fun i => populate host ⟨sc.options, sc.path, i.2⟩ i.1.object t' :=
  BuildReplay.populate_alike sc h.shapeOf hshape
    (fun _ _ _ hkey hv hbelow => h.keyOf_alike sc hkey hv (nodup_of_plain hbelow)) hplain hmatched
    hperm

end Tables

end BuildReplay
