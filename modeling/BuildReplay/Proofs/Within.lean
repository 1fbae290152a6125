import BuildReplay.Proofs.Container
import BuildReplay.Proofs.Dictionary
import BuildReplay.Proofs.Law
import BuildReplay.Proofs.Shape
import BuildReplay.Proofs.Walk

/-! # Hosts that are parts of a larger state

What such a host holds and knows is what the part alone does, seen from the whole. -/

namespace BuildReplay

open Act.Law (within_apply)

variable {σ τ α β : Type} (l : Lens τ σ)

theorem Act.within_throw (e : Error) : (throw e : Act σ α).within l = throw e := by
  funext t
  rw [within_apply, throw_apply, throw_apply, l.set_get]

theorem Act.within_pure (a : α) : (pure a : Act σ α).within l = pure a := by
  funext t
  rw [within_apply, pure_apply, pure_apply, l.set_get]

theorem Act.within_read (f : σ → α) : (Act.read f).within l = .read fun t => f (l.get t) := by
  funext t
  rw [within_apply, Act.read, Act.read, l.set_get]

theorem Act.within_ofExcept (r : Except Error α) :
    (Act.ofExcept r).within l = Act.ofExcept r := by
  funext t
  rw [within_apply, Act.ofExcept, Act.ofExcept, l.set_get]

theorem Act.within_bind (x : Act σ α) (f : α → Act σ β) :
    (x >>= f).within l = (do let a ← x.within l; (f a).within l) := by
  funext t
  rcases gives_or_raises x (l.get t) with ⟨a, s, h⟩ | ⟨e, s, h⟩
  · rw [within_apply, (h.within l).bind_eq, h.bind_eq, within_apply, l.get_set, l.set_set]
  · rw [within_apply, (h.within l).bind, h.bind]

theorem Lens.comp_modify_set (k : Lens σ α) (f : α → α) (s : σ) (t : τ) :
    (l.comp k).modify f (l.set s t) = l.set (k.modify f s) t := by
  simp [Lens.modify, Lens.comp]

theorem Act.within_attempt (x : Act σ α) : x.attempt.within l = (x.within l).attempt := rfl

/-! ## Containers -/

theorem Field.get_within (f : Field σ) (r : ObjectRef) :
    (f.within l).get r = (f.get r).within l := by
  funext t
  exact Prod.ext rfl (l.set_get t).symm

theorem Collection.append_within (c : Collection σ) (v : Live) :
    (c.within l).append v = (c.append v).within l := by
  rw [Collection.append, Collection.append, Act.within_bind, Act.within_ofExcept]
  rfl

theorem MapSink.insert_within (m : MapSink σ) (key : String) (v : Live) :
    (m.within l).insert key v = (m.insert key v).within l := by
  rw [MapSink.insert, MapSink.insert, Act.within_bind, Act.within_ofExcept]
  rfl

theorem PropertyCell.set_within (c : PropertyCell σ) (v : Live) :
    (c.within l).set v = (c.set v).within l := by
  rw [PropertyCell.set, PropertyCell.set, Act.within_bind, Act.within_ofExcept]
  rfl

theorem NamedCollection.maybeCreate_within (c : NamedCollection σ) (name : String) :
    (c.within l).maybeCreate name = (c.maybeCreate name).within l := by
  funext t
  have hfind : (c.within l).find? name t = c.find? name (l.get t) := rfl
  rw [within_apply, NamedCollection.maybeCreate_gives, NamedCollection.maybeCreate_gives]
  cases h : c.find? name (l.get t) with
  | some r =>
      rw [NamedCollection.obtain_of_find? h, NamedCollection.obtain_of_find? (hfind.trans h),
        l.set_get]
      rfl
  | none =>
      rw [NamedCollection.obtain_of_find?_none h,
        NamedCollection.obtain_of_find?_none (hfind.trans h)]
      refine Prod.ext rfl ?_
      exact l.comp_modify_set c.entries (· ++ [(name, (c.create name (l.get t)).1)])
        (c.create name (l.get t)).2 t

/-! ## Hosts -/

theorem Host.append_within (host : Host σ) (slot : Slot) (v : Live) :
    (host.within l).append slot v = (host.append slot v).within l := by
  rw [Host.append, Host.append]
  rw [show (host.within l).list? slot = (host.list? slot).map (·.within l) from rfl]
  cases host.list? slot with
  | some c => exact c.append_within l v
  | none => exact (Act.within_throw l _).symm

theorem Host.insert_within (host : Host σ) (slot : Slot) (key : String) (v : Live) :
    (host.within l).insert slot key v = (host.insert slot key v).within l := by
  rw [Host.insert, Host.insert]
  rw [show (host.within l).map? slot = (host.map? slot).map (·.within l) from rfl]
  cases host.map? slot with
  | some c => exact c.insert_within l key v
  | none => exact (Act.within_throw l _).symm

theorem Host.setProperty_within (host : Host σ) (slot : Slot) (v : Live) :
    (host.within l).setProperty slot v = (host.setProperty slot v).within l := by
  rw [Host.setProperty, Host.setProperty]
  rw [show (host.within l).property? slot = (host.property? slot).map (·.within l) from rfl]
  cases host.property? slot with
  | some c => exact c.set_within l v
  | none => exact (Act.within_throw l _).symm

theorem Host.maybeCreate_within (host : Host σ) (slot : Slot) (name : String) :
    (host.within l).maybeCreate slot name = (host.maybeCreate slot name).within l := by
  rw [Host.maybeCreate, Host.maybeCreate]
  rw [show (host.within l).named? slot = (host.named? slot).map (·.within l) from rfl]
  cases host.named? slot with
  | some c => exact c.maybeCreate_within l name
  | none => exact (Act.within_throw l _).symm

theorem Host.getByName_within (host : Host σ) (slot : Slot) (name : String) :
    (host.within l).getByName slot name = (host.getByName slot name).within l := by
  rw [Host.getByName, Host.getByName]
  rw [show (host.within l).named? slot = (host.named? slot).map (·.within l) from rfl]
  cases host.named? slot with
  | some c => exact (Act.within_read l (c.getByName name)).symm
  | none => exact (Act.within_pure l _).symm

theorem Host.shapeOf_within (host : Host σ) (t : TypeRef) :
    (host.within l).shapeOf t = (fun s => s.within l) <$> (host.shapeOf t).within l := rfl

/-! ## Shapes -/

namespace Shape

variable (shape : Shape σ) (name : String)

theorem settable?_within :
    (shape.within l).settable? name = (shape.settable? name).map (·.within l) :=
  Dictionary.get?_map _ _ _

theorem readOnly?_within :
    (shape.within l).readOnly? name = (shape.readOnly? name).map (·.within l) :=
  Dictionary.get?_map _ _ _

theorem members?_within :
    (shape.within l).members? name = (shape.members? name).map fun ms => ms.map (·.within l) :=
  Dictionary.get?_map _ _ _

theorem factory?_within :
    (shape.within l).factory? name = (shape.factory? name).map (·.within l) :=
  Dictionary.get?_map _ _ _

theorem field?_within :
    (shape.within l).field? name = (shape.field? name).map (·.within l) := by
  rw [field?, field?, settable?_within, readOnly?_within]
  cases shape.settable? name <;> rfl

theorem overloads_within (arity : Nat) :
    (shape.within l).overloads name arity = (shape.overloads name arity).map (·.within l) :=
  overloads_of_map (shape.members?_within l name) (fun _ => rfl) arity

theorem keys_within :
    (shape.within l).fieldNames = shape.fieldNames ∧
      (shape.within l).members.keys = shape.members.keys := by
  have hkeys : ∀ {α β : Type} (f : α → β) (d : Dictionary α), (d.map f).keys = d.keys := by
    intro α β f d
    simp [Dictionary.keys, Dictionary.map]
  constructor
  · simp only [fieldNames, Shape.within, hkeys]
  · exact hkeys _ _

theorem dump_within : (shape.within l).dump = shape.dump := by
  have hvalues : ∀ {α β : Type} (f : α → β) (d : Dictionary α),
      (d.map f).values = d.values.map f := by
    intro α β f d
    simp [Dictionary.values, Dictionary.map]
  simp only [dump, Shape.within, hvalues, List.map_map, List.map_flatten, Function.comp_def]
  rfl

theorem unknownKey_within (path key : String) :
    unknownKey (shape.within l) path key = unknownKey shape path key := by
  obtain ⟨hfields, hmembers⟩ := shape.keys_within l
  rw [unknownKey, unknownKey, dump_within, availableNames, availableNames, hfields, hmembers]
  rfl

end Shape

/-! ## Scopes -/

/-- A frame seen from a larger state. -/
def Frame.within : Frame σ → Frame τ
  | .object self shape => .object self (shape.within l)
  | .collection element slot => .collection element slot

/-- A scope seen from a larger state. -/
def Scope.within (sc : Scope σ) : Scope τ := ⟨sc.options, sc.path, sc.frames.map (Frame.within l)⟩

theorem findMember?_within (name : String) (arity : Nat) (frames : List (Frame σ)) :
    findMember? name arity (frames.map (Frame.within l)) =
      (findMember? name arity frames).map fun (f, m) => (f.within l, m.within l) := by
  induction frames with
  | nil => rfl
  | cons f outer ih =>
      have hf : (f.within l).findMember? name arity =
          (f.findMember? name arity).map (·.within l) := by
        cases f with
        | collection element slot => rfl
        | object self shape =>
            change ((shape.within l).overloads name arity).head? = _
            rw [Shape.overloads_within, List.head?_map]
            rfl
      simp only [findMember?, List.map_cons, List.findSome?_cons] at ih ⊢
      rw [hf]
      cases f.findMember? name arity with
      | some m => rfl
      | none => exact ih

/-! ## Keys -/

theorem route_within (shape : Shape σ) (key : String) :
    route (shape.within l) key = match route shape key with
      | .dispatch => .dispatch
      | .settable f => .settable (f.within l)
      | .readOnly f => .readOnly (f.within l)
      | .member => .member := by
  unfold route
  split
  · rfl
  · rw [Shape.settable?_within, Shape.settable?_within, Shape.readOnly?_within]
    cases shape.settable? key <;> cases shape.settable? (isName key) <;>
      cases shape.readOnly? key <;> rfl

theorem elementsStep_within (sc : Scope σ) (shape : Shape σ) (f : Field σ) (live : Live)
    (v : Value) :
    elementsStep (sc.within l) (shape.within l) (f.within l) live v =
      elementsStep sc shape f live v := by
  cases live <;> rfl

end BuildReplay
