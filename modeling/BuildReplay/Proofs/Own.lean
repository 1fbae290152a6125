import BuildReplay.Proofs.Access
import BuildReplay.Proofs.Literal
import BuildReplay.Proofs.Plain
import BuildReplay.Proofs.Track

/-! # Keys that change their own object

Most keys of a type do one thing, whichever object they are applied to and whatever it holds: they
change the object in one way, or fail. Then a table for such an object does so as well, and the
order of its keys does not matter where they change different parts. -/

namespace BuildReplay

variable {σ α β : Type}

/-! ## Walks as sequences -/

/-- One key of a table: its step, and what is left of it. -/
def applyEntry (host : Host σ) (sc : Scope σ) (shape : Shape σ) (self : ObjectRef)
    (e : String × Value) : Act σ Unit := do
  let next ← keyStep host (sc.key e.1) shape self e.1 e.2
  walkNext host (sc.key e.1) next e.2

theorem walkEntries_eq_inOrder (host : Host σ) (sc : Scope σ) (shape : Shape σ) (self : ObjectRef)
    (t : Table) : walkEntries host sc shape self t = inOrder (applyEntry host sc shape self) t := by
  induction t with
  | nil => rw [walkEntries_nil, inOrder]
  | cons e t ih =>
      obtain ⟨key, v⟩ := e
      rw [walkEntries_cons, inOrder, ih, applyEntry, bind_assoc]

/-- One element of a collection, made where it is missing, and its table. -/
def elementEntry (host : Host σ) (sc : Scope σ) (element : TypeRef) (slot : Slot)
    (e : String × Value) : Act σ Unit :=
  if e.2.isTable then do
    let r ← host.maybeCreate slot e.1
    walkNext host ((sc.key e.1).enter (.collection element slot)) (.object r) e.2
  else
    throw <| .invalidDeclaration (sc.key e.1).keyPath
      ("expected a table for element `" ++ e.1 ++ "`, found " ++ e.2.describe)

theorem elementEntry_table (host : Host σ) (sc : Scope σ) (element : TypeRef) (slot : Slot)
    (name : String) (body : Table) :
    elementEntry host sc element slot (name, .table body) = (do
      let r ← host.maybeCreate slot name
      walkNext host ((sc.key name).enter (.collection element slot)) (.object r) (.table body)) :=
  if_pos rfl

theorem elementEntry_of_not_table (host : Host σ) (sc : Scope σ) (element : TypeRef) (slot : Slot)
    (name : String) {v : Value} (hv : v.isTable = false) :
    elementEntry host sc element slot (name, v) = throw (.invalidDeclaration (sc.key name).keyPath
      ("expected a table for element `" ++ name ++ "`, found " ++ v.describe)) :=
  if_neg (by simp [hv])

theorem walkElements_eq_inOrder (host : Host σ) (sc : Scope σ) (element : TypeRef) (slot : Slot)
    (t : Table) :
    walkElements host sc element slot t = inOrder (elementEntry host sc element slot) t := by
  induction t with
  | nil => rw [walkElements_nil, inOrder]
  | cons e t ih =>
      obtain ⟨name, v⟩ := e
      by_cases hv : v.isTable
      · obtain ⟨body, rfl⟩ := Value.exists_of_isTable hv
        rw [walkElements_cons_table, inOrder, ih, elementEntry_table, bind_assoc]
      · have hv : v.isTable = false := by simpa using hv
        rw [walkElements_cons_of_not_table _ _ _ _ _ _ hv, inOrder,
          elementEntry_of_not_table _ _ _ _ _ hv]
        rfl

/-- One entry of a map. -/
def insertEntry (host : Host σ) (sc : Scope σ) (slot : Slot) (value : ValueType)
    (e : String × Value) : Act σ Unit := do
  let item ← .ofExcept (coerce sc.options.projectRoot (some e.2) value (sc.keyPath ++ "." ++ e.1))
  host.insert slot e.1 item

theorem insertAll_eq_inOrder (host : Host σ) (sc : Scope σ) (slot : Slot) (value : ValueType)
    (t : Table) : insertAll host sc slot value t = inOrder (insertEntry host sc slot value) t := by
  induction t with
  | nil => rfl
  | cons e t ih => rw [inOrder, insertEntry, ← ih, bind_assoc]; rfl

/-! ## Changes of one object -/

section Object

variable [Stored σ α]

/-- The states are looked at from an object, with the frames around it. -/
def objectTrack (σ α : Type) [Stored σ α] : Track (Ref α × List (Frame σ)) σ α where
  Start _ _ := True
  Moves f i s s' := s' = i.1.modify f s
  start _ _ := trivial
  one _ := (Lens.modify_id _ _).symm
  mul := by
    rintro f g i s _ _ rfl rfl
    exact Lens.modify_modify _ f g s

/-- The act does one thing to every object, and the change is in `K`. -/
def Uniform (K : Submonoid (Function.End α)) (x : Ref α × List (Frame σ) → Act σ β) : Prop :=
  (objectTrack σ α).Alike K x x

/-- The scope below an object, whatever is around it. -/
def Scope.around (sc : Scope σ) (shape : Shape σ) (i : Ref α × List (Frame σ)) : Scope σ :=
  ⟨sc.options, sc.path, .object i.1.object shape :: i.2⟩

@[simp] theorem Scope.around_isStrict (sc : Scope σ) (shape : Shape σ)
    (i : Ref α × List (Frame σ)) : (sc.around shape i).isStrict = sc.isStrict := rfl

@[simp] theorem Scope.around_keyPath (sc : Scope σ) (shape : Shape σ) (i : Ref α × List (Frame σ)) :
    (sc.around shape i).keyPath = sc.keyPath := rfl

@[simp] theorem Scope.around_literal (sc : Scope σ) (shape : Shape σ) (i : Ref α × List (Frame σ))
    (t : ValueType) (v : Value) : (sc.around shape i).literal t v = sc.literal t v := rfl

@[simp] theorem Scope.around_key (sc : Scope σ) (shape : Shape σ) (i : Ref α × List (Frame σ))
    (key : String) : (sc.around shape i).key key = (sc.key key).around shape i := rfl

variable {K : Submonoid (Function.End α)}

theorem does_modify (f : Function.End α) :
    (objectTrack σ α).Does (fun i => .modify (i.1.modify f)) (.ok ()) f := by
  intro i s _
  exact ⟨i.1.modify f s, rfl, show i.1.modify f s = i.1.modify f s from rfl⟩

theorem Uniform.modify {f : Function.End α} (hf : f ∈ K) :
    Uniform K fun i : Ref α × List (Frame σ) => .modify (i.1.modify f) :=
  .ok hf (does_modify f) (does_modify f)

theorem Uniform.ofExcept (r : Except Error β) :
    Uniform K fun _ : Ref α × List (Frame σ) => .ofExcept r :=
  Track.Alike.ofExcept rfl

/-- A converted value that is put into the object. -/
theorem Uniform.ofExcept_modify (r : Except Error β) {f : β → Function.End α} (hf : ∀ b, f b ∈ K) :
    Uniform K fun i : Ref α × List (Frame σ) => (do
      let b ← .ofExcept r
      .modify (i.1.modify (f b))) :=
  (Uniform.ofExcept r).bind fun b => Uniform.modify (hf b)

omit [Stored σ α] in
theorem discard_eq_bind (x : Act σ β) : Functor.discard x = (do let _ ← x; pure ()) :=
  map_eq_pure_bind (fun _ => ()) x

theorem Uniform.discard {x : Ref α × List (Frame σ) → Act σ β} (hx : Uniform K x) :
    Uniform K fun i => Functor.discard (x i) := by
  simp only [discard_eq_bind]
  exact hx.bind fun _ => .pure ()

/-! ## Declarations -/

/-- What a declaration stands for changes the object alone, in the same way whatever the object
holds, and the change is in `K`. -/
inductive Declaration.Own (host : Host σ) (K : Submonoid (Function.End α)) :
    Declaration σ → Prop where
  | settable {f : Field σ} {write} : f.type.isAtomic →
      (∀ (r : Ref α) s, ∃ live, f.read r.object s = .ok live ∧ live.isHandle = false) →
      f.write? = some write →
      (∀ live, Uniform K fun i => write i.1.object live) → Own host K (.settable f)
  | viewed {f : Field σ} : (∀ (r : Ref α) s, ∃ text, f.read r.object s = .ok (.string text)) →
      Own host K (.readOnly f)
  | list {β : Type} [OfLive β] {name element} {field : Lens α (List β)} :
      (∀ r : Ref α, host.list? ⟨r.object, name⟩ = some (r.list field)) →
      (∀ item, field.modify (· ++ [item]) ∈ K) →
      Own host K (.readOnly (.held α name (.list element) .list))
  | map {β : Type} [OfLive β] {name value} {field : Lens α (Dictionary β)} : value ≠ .any →
      (∀ r : Ref α, host.map? ⟨r.object, name⟩ = some (r.map field)) →
      (∀ key item, field.modify (·.insert key item) ∈ K) →
      Own host K (.readOnly (.held α name (.map value) .map))
  | property {β : Type} [OfLive β] {name inner} {field : Lens α (Option β)} : inner.isAtomic →
      (∀ r : Ref α, host.property? ⟨r.object, name⟩ = some (r.property field)) →
      (∀ item, field.set (some item) ∈ K) →
      Own host K (.readOnly (.held α name (.property inner) .property))
  | member {m : Member σ} {param} : m.params = [param] → param.isAtomic →
      (∀ live, Uniform K fun i => discard (m.invoke i.1.object [live])) → Own host K (.member m)

namespace Declaration

variable {host : Host σ} {name : String}

theorem stored_own [ToLive β] [OfLive β] [Plain β] {type : ValueType} {get : α → β}
    {set : β → α → α} (ht : type.isAtomic) (hset : ∀ b, set b ∈ K) :
    (Declaration.stored name type get set : Declaration σ).Own host K :=
  .settable ht (fun _ _ => ⟨_, getter_object _ _ _, Plain.isHandle_toLive _⟩) rfl fun live => by
    simp only [act_convert_object]
    exact Uniform.ofExcept_modify (ofLive live) hset

theorem viewed_own {type : ValueType} {get : α → String} :
    (Declaration.viewed name type get : Declaration σ).Own host K :=
  .viewed fun _ _ => ⟨_, getter_object _ _ _⟩

theorem setter_own [OfLive β] {param : ValueType} {set : β → α → α} (ht : param.isAtomic)
    (hset : ∀ b, set b ∈ K) : (Declaration.setter name param set : Declaration σ).Own host K := by
  refine .member rfl ht fun live => Uniform.discard ?_
  simp only [ObjectRef.act_lend_object, Access.during_bind, Access.during_ofExcept,
    Access.during_modify, Access.during_pure]
  exact (Uniform.ofExcept (ofLive live)).bind fun b =>
    (Uniform.modify (hset b)).bind fun _ => .pure Live.nothing

/-- A member that only reads. -/
theorem query_own [OfLive β] {param : ValueType} {get : Ref α → β → σ → Live} (ht : param.isAtomic) :
    (Declaration.call name [param] fun (r : Ref α) args => do
      let b : β ← argument args 0
      .read (get r b) : Declaration σ).Own host K := by
  refine .member rfl ht fun live => ?_
  simp only [ObjectRef.act_lend_object, argument, Access.during_bind, Access.during_ofExcept,
    Access.during_read]
  have hread : ∀ r : Ref α, (Functor.discard do
      let b : β ← .ofExcept (ofLive live)
      .read (get r b) : Act σ Unit) = .ofExcept ((ofLive live : Except Error β).map fun _ => ()) := by
    intro r
    rw [discard_eq_bind]
    cases (ofLive live : Except Error β) <;> rfl
  exact (funext fun i : Ref α × List (Frame σ) => hread i.1) ▸ Uniform.ofExcept _

end Declaration

/-! ## Containers -/

section Containers

variable {host : Host σ} [OfLive β] {name : String}

theorem append_uniform {field : Lens α (List β)}
    (hlist : ∀ r : Ref α, host.list? ⟨r.object, name⟩ = some (r.list field))
    (hfield : ∀ item, field.modify (· ++ [item]) ∈ K) (live : Live) :
    Uniform K fun i : Ref α × List (Frame σ) => host.append ⟨i.1.object, name⟩ live := by
  simp only [Host.append, hlist]
  exact Uniform.ofExcept_modify (ofLive live : Except Error β) hfield

theorem insert_uniform {field : Lens α (Dictionary β)}
    (hmap : ∀ r : Ref α, host.map? ⟨r.object, name⟩ = some (r.map field)) {key : String}
    (hfield : ∀ item, field.modify (·.insert key item) ∈ K) (live : Live) :
    Uniform K fun i : Ref α × List (Frame σ) => host.insert ⟨i.1.object, name⟩ key live := by
  simp only [Host.insert, hmap]
  exact Uniform.ofExcept_modify (ofLive live : Except Error β) hfield

theorem setProperty_uniform {field : Lens α (Option β)}
    (hproperty : ∀ r : Ref α, host.property? ⟨r.object, name⟩ = some (r.property field))
    (hfield : ∀ item, field.set (some item) ∈ K) (live : Live) :
    Uniform K fun i : Ref α × List (Frame σ) => host.setProperty ⟨i.1.object, name⟩ live := by
  simp only [Host.setProperty, hproperty]
  exact Uniform.ofExcept_modify (ofLive live : Except Error β) hfield

end Containers

/-! ## Keys -/

section Keys

variable {host : Host σ} {sc : Scope σ} {shape : Shape σ} {self : ObjectRef} {f : Field σ}
  {key : String} {v v' : Value}

omit [Stored σ α] in
theorem assign_atomic {write : ObjectRef → Live → Act σ Unit} (ht : f.type.isAtomic)
    (hwrite : f.write? = some write) {self' : ObjectRef} {shape' : Shape σ} {outer : List (Frame σ)}
    (hframes : sc.frames = .object self' shape' :: outer) :
    assign host sc shape self f key v = (do
      let live ← .ofExcept (sc.required f.type v)
      write self live) := by
  simp only [assign, resolveValue_atomic ht hframes, hwrite]

omit [Stored σ α] in
/-- A field of an atomic type is written, whatever it holds. -/
theorem settableStep_atomic {write : ObjectRef → Live → Act σ Unit} (ht : f.type.isAtomic)
    (hread : ∀ s, ∃ live, f.read self s = .ok live ∧ live.isHandle = false)
    (hwrite : f.write? = some write) {self' : ObjectRef} {shape' : Shape σ} {outer : List (Frame σ)}
    (hframes : sc.frames = .object self' shape' :: outer) :
    settableStep host sc shape self f key v = (do
      let live ← .ofExcept (sc.required f.type v)
      write self live
      return .done) := by
  have hassign : (do assign host sc shape self f key v; return Next.done) = (do
      let live ← .ofExcept (sc.required f.type v)
      write self live
      return .done) := by
    rw [assign_atomic ht hwrite hframes, bind_assoc]
  rw [← hassign]
  by_cases hv : v.isTable
  · obtain ⟨t, rfl⟩ := Value.exists_of_isTable hv
    rw [settableStep_table (fun _ h => by rw [h] at ht; cases ht)
      (fun _ h => by rw [h] at ht; cases ht) fun _ h => by rw [h] at ht; cases ht]
    funext s
    obtain ⟨live, hlive, hhandle⟩ := hread s
    have hget : (f.get self).Gives s live s := Act.readExcept_gives.2 ⟨hlive, rfl⟩
    rw [hget.bind_eq]
    refine congrFun (?_ : _ = (assign host sc shape self f key (.table t) >>= fun _ =>
      (pure .done : Act σ Next))) s
    split
    · cases hhandle
    · rename_i htype
      rw [htype] at ht
      cases ht
    · rfl
  · unfold settableStep
    split
    · rename_i htype
      rw [htype] at ht
      cases ht
    · rename_i htype
      rw [htype] at ht
      cases ht
    · rename_i htype
      rw [htype] at ht
      cases ht
    · exact absurd rfl hv
    · exact absurd rfl hv
    · rfl

omit [Stored σ α] in
/-- A key that ends at itself is what its step does. -/
theorem applyEntry_done {x : Act σ Unit}
    (hstep : keyStep host (sc.key key) shape self key v = (do x; return .done)) :
    applyEntry host sc shape self (key, v) = x := by
  rw [applyEntry, hstep, bind_assoc]
  simp only [pure_bind, walkNext_done, bind_pure_unit]

omit [Stored σ α] in
theorem applyEntry_throw {e : Error}
    (hstep : keyStep host (sc.key key) shape self key v = throw e) :
    applyEntry host sc shape self (key, v) = throw e := by
  rw [applyEntry, hstep]
  rfl

/-- The family of one key, for every object of the type. -/
def keyOf (host : Host σ) (sc : Scope σ) (shape : Shape σ) (e : String × Value)
    (i : Ref α × List (Frame σ)) : Act σ Unit :=
  applyEntry host (sc.around shape i) shape i.1.object e

/-- A table is applied key by key, within what is around the object. -/
theorem populate_eq_inOrder (sc : Scope σ) (hshape : host.shapeOf (typeRef α) = pure shape)
    (t : Table) (i : Ref α × List (Frame σ)) :
    populate host ⟨sc.options, sc.path, i.2⟩ i.1.object t =
      inOrder (fun e => keyOf host sc shape e i) t := by
  rw [populate, walkNext_object, show i.1.object.type = typeRef α from rfl, hshape, pure_bind,
    walkEntries_eq_inOrder]
  rfl

theorem keyStep_readOnly (hroute : route shape key = .readOnly f) :
    keyStep host sc shape self key v = readOnlyStep host sc shape self f v := by
  unfold keyStep
  rw [hroute]

theorem keyStep_settable (hroute : route shape key = .settable f) :
    keyStep host sc shape self key v = settableStep host sc shape self f key v := by
  unfold keyStep
  rw [hroute]

theorem keyStep_member (hroute : route shape key = .member) :
    keyStep host sc shape self key v = (do memberStep host sc shape self key v; return .done) := by
  unfold keyStep
  rw [hroute]

theorem appendAll_uniform (sc : Scope σ) (shape : Shape σ) (element : ValueType) {name : String}
    (happend : ∀ live, Uniform K fun i : Ref α × List (Frame σ) =>
      host.append ⟨i.1.object, name⟩ live) (index : Nat) (items : List Value) :
    Uniform K fun i : Ref α × List (Frame σ) =>
      appendAll host (sc.around shape i) ⟨i.1.object, name⟩ element index items := by
  induction items generalizing index with
  | nil => exact .pure ()
  | cons v rest ih =>
      exact (Uniform.ofExcept (coerce sc.options.projectRoot (some v) element
        (itemPath sc.keyPath index))).bind fun item => (happend item).bind fun _ => ih (index + 1)

/-- The refusal of a value by what a field that is only read holds. -/
def Scope.cannotTake (sc : Scope σ) (shape : Shape σ) (f : Field σ) (kind : String) (v : Value) :
    Error :=
  sc.unassignable shape f ("read-only " ++ kind ++ " cannot take " ++ v.describe)

/-- Where a value is refused by every object, and another one too. -/
theorem keyOf_throw {e e' : Error}
    (h : ∀ i : Ref α × List (Frame σ), keyStep host ((sc.around shape i).key key) shape i.1.object key v
      = throw e)
    (h' : ∀ i : Ref α × List (Frame σ), keyStep host ((sc.around shape i).key key) shape i.1.object
      key v' = throw e') :
    (objectTrack σ α).Alike K (keyOf host sc shape (key, v)) (keyOf host sc shape (key, v')) := by
  rw [show keyOf host sc shape (key, v) = fun _ : Ref α × List (Frame σ) => throw e from
      funext fun i => applyEntry_throw (h i),
    show keyOf host sc shape (key, v') = fun _ : Ref α × List (Frame σ) => throw e' from
      funext fun i => applyEntry_throw (h' i)]
  exact .throw e e'

theorem keyOf_done {x x' : Ref α × List (Frame σ) → Act σ Unit}
    (h : ∀ i, keyStep host ((sc.around shape i).key key) shape i.1.object key v
      = (do x i; return .done))
    (h' : ∀ i, keyStep host ((sc.around shape i).key key) shape i.1.object key v'
      = (do x' i; return .done)) (hx : (objectTrack σ α).Alike K x x') :
    (objectTrack σ α).Alike K (keyOf host sc shape (key, v)) (keyOf host sc shape (key, v')) := by
  rw [show keyOf host sc shape (key, v) = x from funext fun i => applyEntry_done (h i),
    show keyOf host sc shape (key, v') = x' from funext fun i => applyEntry_done (h' i)]
  exact hx

/-- A key that does the same to every object. -/
theorem keyOf_uniform {x : Ref α × List (Frame σ) → Act σ Unit}
    (h : ∀ i, keyStep host ((sc.around shape i).key key) shape i.1.object key v
      = (do x i; return .done)) (hx : Uniform K x) : Uniform K (keyOf host sc shape (key, v)) :=
  keyOf_done h h hx

section ReadOnly

variable [OfLive β] {name : String}

theorem viewed_alike (hroute : route shape key = .readOnly f)
    (hread : ∀ (r : Ref α) s, ∃ text, f.read r.object s = .ok (.string text)) :
    (objectTrack σ α).Alike K (keyOf host sc shape (key, v)) (keyOf host sc shape (key, v')) := by
  have hthrow : ∀ v (i : Ref α × List (Frame σ)),
      keyStep host ((sc.around shape i).key key) shape i.1.object key v =
        throw ((sc.key key).cannotTake shape f "string" v) := by
    intro v i
    rw [keyStep_readOnly hroute]
    funext s
    obtain ⟨text, htext⟩ := hread i.1 s
    have hget : (f.get i.1.object).Gives s (.string text) s := Act.readExcept_gives.2 ⟨htext, rfl⟩
    rw [readOnlyStep, hget.bind_eq]
    cases v <;> rfl
  exact keyOf_throw (hthrow v) (hthrow v')

theorem list_alike {element : ValueType} {field : Lens α (List β)}
    (hroute : route shape key = .readOnly (.held α name (.list element) .list))
    (hlist : ∀ r : Ref α, host.list? ⟨r.object, name⟩ = some (r.list field))
    (hfield : ∀ item, field.modify (· ++ [item]) ∈ K) (h : v.Shuffled v') :
    (objectTrack σ α).Alike K (keyOf host sc shape (key, v)) (keyOf host sc shape (key, v')) := by
  have happend : ∀ live, Uniform K fun i : Ref α × List (Frame σ) =>
      host.append ⟨i.1.object, name⟩ live := append_uniform hlist hfield
  have hitem : ∀ v, Uniform K fun i : Ref α × List (Frame σ) => (do
      let item ← .ofExcept (coerce sc.options.projectRoot (some v) element (sc.key key).keyPath)
      host.append ⟨i.1.object, name⟩ item) :=
    fun v => (Uniform.ofExcept _).bind happend
  by_cases hv : v.isTable
  · obtain ⟨t, rfl⟩ := Value.exists_of_isTable hv
    obtain ⟨_, t', rfl, -, -⟩ := h.exists_of_table
    have hthrow : ∀ (t : Table) (i : Ref α × List (Frame σ)),
        keyStep host ((sc.around shape i).key key) shape i.1.object key (.table t) =
          throw ((sc.key key).cannotTake shape (.held α name (.list element) .list) "collection"
            (.table t)) := by
      intro t i
      rw [keyStep_readOnly hroute, readOnlyStep, Field.get_held]
      rfl
    exact keyOf_throw (hthrow t) (hthrow t')
  · rw [h.eq_of_not_table (by simpa using hv)]
    by_cases harray : ∃ items, v = .array items
    · obtain ⟨items, rfl⟩ := harray
      have hx := appendAll_uniform (sc.key key) shape element happend 0 items
      exact keyOf_uniform (fun i => by rw [keyStep_readOnly hroute, readOnlyStep, Field.get_held]; rfl) hx
    · refine keyOf_uniform (fun i => ?_) (hitem v)
      rw [keyStep_readOnly hroute, readOnlyStep, Field.get_held, bind_assoc]
      cases v with
      | table t => exact absurd rfl hv
      | array items => exact absurd ⟨items, rfl⟩ harray
      | _ => rfl

theorem insert_alike (sc : Scope σ) (shape : Shape σ) {value : ValueType}
    {field : Lens α (Dictionary β)} (hvalue : value ≠ .any)
    (hmap : ∀ r : Ref α, host.map? ⟨r.object, name⟩ = some (r.map field)) {key : String}
    (hfield : ∀ item, field.modify (·.insert key item) ∈ K) (h : v.Shuffled v') :
    (objectTrack σ α).Alike K
      (fun i => insertEntry host (sc.around shape i) ⟨i.1.object, name⟩ value (key, v))
      fun i => insertEntry host (sc.around shape i) ⟨i.1.object, name⟩ value (key, v') := by
  have hitem := coerce_shuffled h sc.options.projectRoot hvalue (sc.keyPath ++ "." ++ key)
  exact (Track.Alike.ofExcept hitem.symm).bind fun live => insert_uniform hmap hfield live

/-- The entries of a map are put one by one, in any order where each key stands once. -/
theorem insertAll_alike (sc : Scope σ) (shape : Shape σ) {value : ValueType}
    {field : Lens α (Dictionary β)} (hvalue : value ≠ .any)
    (hmap : ∀ r : Ref α, host.map? ⟨r.object, name⟩ = some (r.map field))
    (hfield : ∀ key item, field.modify (·.insert key item) ∈ K) {t u t' : Table}
    (hmatched : t.Matched u) (hperm : u.Perm t') (hnodup : t.keys.Nodup) :
    (objectTrack σ α).Alike K
      (fun i => insertAll host (sc.around shape i) ⟨i.1.object, name⟩ value t)
      fun i => insertAll host (sc.around shape i) ⟨i.1.object, name⟩ value t' := by
  -- besides being allowed, the change of an entry changes that entry alone
  have hentries : List.Forall₂ (fun e e' : String × Value =>
      (objectTrack σ α).Alike ((field.comp (Dictionary.entry e.1)).changes ⊓ K)
        (fun i => insertEntry host (sc.around shape i) ⟨i.1.object, name⟩ value e)
        fun i => insertEntry host (sc.around shape i) ⟨i.1.object, name⟩ value e') t u :=
    hmatched.forall₂ fun key v v' _ hv => insert_alike sc shape hvalue hmap (fun item =>
      ⟨(field.comp (Dictionary.entry key)).set_mem_changes (some item), hfield key item⟩) hv
  simp only [insertAll_eq_inOrder]
  refine Track.Alike.inOrder_perm hentries hperm ?_ fun e _ => inf_le_right
  exact (List.pairwise_map.1 hnodup).imp fun hne f hf g hg =>
    ((Dictionary.entry_apart hne).comp field).commute hf.1 hg.1

/-- Without a change of order, keys may stand more than once. -/
theorem insertAll_uniform (sc : Scope σ) (shape : Shape σ) {value : ValueType}
    {field : Lens α (Dictionary β)} (hvalue : value ≠ .any)
    (hmap : ∀ r : Ref α, host.map? ⟨r.object, name⟩ = some (r.map field))
    (hfield : ∀ key item, field.modify (·.insert key item) ∈ K) (t : Table) :
    Uniform K fun i : Ref α × List (Frame σ) =>
      insertAll host (sc.around shape i) ⟨i.1.object, name⟩ value t := by
  simp only [insertAll_eq_inOrder]
  exact Track.Alike.inOrder (List.forall₂_same.2 fun e _ =>
    insert_alike sc shape hvalue hmap (hfield e.1) (.same e.2))

theorem map_alike {value : ValueType} {field : Lens α (Dictionary β)}
    (hroute : route shape key = .readOnly (.held α name (.map value) .map)) (hvalue : value ≠ .any)
    (hmap : ∀ r : Ref α, host.map? ⟨r.object, name⟩ = some (r.map field))
    (hfield : ∀ key item, field.modify (·.insert key item) ∈ K) (h : v.Shuffled v')
    (hnodup : ∀ t : Table, v = .table t → v = v' ∨ t.keys.Nodup) :
    (objectTrack σ α).Alike K (keyOf host sc shape (key, v)) (keyOf host sc shape (key, v')) := by
  by_cases hv : v.isTable
  · obtain ⟨t, rfl⟩ := Value.exists_of_isTable hv
    rcases hnodup t rfl with rfl | hkeys
    · have hx := insertAll_uniform (sc.key key) shape hvalue hmap hfield t
      exact keyOf_uniform (fun i => by rw [keyStep_readOnly hroute, readOnlyStep, Field.get_held]; rfl) hx
    · obtain ⟨u, t', rfl, hmatched, hperm⟩ := h.exists_of_table
      have hx := insertAll_alike (sc.key key) shape hvalue hmap hfield hmatched hperm hkeys
      exact keyOf_done (fun i => by rw [keyStep_readOnly hroute, readOnlyStep, Field.get_held]; rfl)
        (fun i => by rw [keyStep_readOnly hroute, readOnlyStep, Field.get_held]; rfl) hx
  · rw [h.eq_of_not_table (by simpa using hv)]
    have hthrow : ∀ i : Ref α × List (Frame σ),
        keyStep host ((sc.around shape i).key key) shape i.1.object key v =
          throw ((sc.key key).cannotTake shape (.held α name (.map value) .map) "map" v) := by
      intro i
      rw [keyStep_readOnly hroute, readOnlyStep, Field.get_held]
      cases v with
      | table t => exact absurd rfl hv
      | _ => rfl
    exact keyOf_throw hthrow hthrow

/-- A cell takes the value over, whatever it holds. -/
theorem keyOf_property (sc : Scope σ) {inner : ValueType}
    (hroute : route shape key = .readOnly (.held α name (.property inner) .property))
    (hinner : inner.isAtomic) (i : Ref α × List (Frame σ)) :
    keyOf host sc shape (key, v) i = (do
      let live ← .ofExcept ((sc.key key).required inner v)
      host.setProperty ⟨i.1.object, name⟩ live) := by
  have hvalue : resolveValue host ((sc.around shape i).key key) inner v =
      .ofExcept ((sc.key key).required inner v) := resolveValue_atomic hinner rfl
  have hrequired : (do
      let live ← resolveValue host ((sc.around shape i).key key) inner v
      host.setProperty ⟨i.1.object, name⟩ live
      return Next.done) = (do
      (do
        let live ← .ofExcept ((sc.key key).required inner v)
        host.setProperty ⟨i.1.object, name⟩ live)
      return .done) := by
    rw [hvalue, bind_assoc]
  refine applyEntry_done ?_
  rw [← hrequired, keyStep_readOnly hroute, readOnlyStep, Field.get_held]
  cases v <;> rfl

theorem property_alike {inner : ValueType} {field : Lens α (Option β)}
    (hroute : route shape key = .readOnly (.held α name (.property inner) .property))
    (hinner : inner.isAtomic)
    (hproperty : ∀ r : Ref α, host.property? ⟨r.object, name⟩ = some (r.property field))
    (hfield : ∀ item, field.set (some item) ∈ K) (h : v.Shuffled v') :
    (objectTrack σ α).Alike K (keyOf host sc shape (key, v)) (keyOf host sc shape (key, v')) := by
  simp only [funext (keyOf_property sc hroute hinner)]
  exact (Track.Alike.ofExcept ((sc.key key).required_shuffled h inner).symm).bind fun live =>
    setProperty_uniform hproperty hfield live

end ReadOnly

/-- A field of an atomic type takes the value over, whatever it holds. -/
theorem keyOf_settable (sc : Scope σ) {write : ObjectRef → Live → Act σ Unit}
    (hroute : route shape key = .settable f) (ht : f.type.isAtomic)
    (hread : ∀ (r : Ref α) s, ∃ live, f.read r.object s = .ok live ∧ live.isHandle = false)
    (hwrite : f.write? = some write) (i : Ref α × List (Frame σ)) :
    keyOf host sc shape (key, v) i = (do
      let live ← .ofExcept ((sc.key key).required f.type v)
      write i.1.object live) := by
  refine applyEntry_done ?_
  rw [keyStep_settable hroute, bind_assoc]
  exact settableStep_atomic ht (hread i.1) hwrite rfl

theorem settable_alike {write : ObjectRef → Live → Act σ Unit} (hroute : route shape key = .settable f)
    (ht : f.type.isAtomic)
    (hread : ∀ (r : Ref α) s, ∃ live, f.read r.object s = .ok live ∧ live.isHandle = false)
    (hwrite : f.write? = some write)
    (huniform : ∀ live, Uniform K fun i : Ref α × List (Frame σ) => write i.1.object live)
    (h : v.Shuffled v') :
    (objectTrack σ α).Alike K (keyOf host sc shape (key, v)) (keyOf host sc shape (key, v')) := by
  simp only [funext (keyOf_settable sc hroute ht hread hwrite)]
  exact (Track.Alike.ofExcept ((sc.key key).required_shuffled h f.type).symm).bind huniform

/-! ## Objects and collections -/

/-- The table of a key goes on to the object in its field. -/
theorem keyOf_object {i : Ref α × List (Frame σ)} {s : σ} {r : ObjectRef}
    (hroute : route shape key = .readOnly f) (hread : f.read i.1.object s = .ok (.object r))
    (t : Table) :
    keyOf host sc shape (key, .table t) i s =
      populate host ((sc.key key).around shape i) r t s := by
  have hstep : (keyStep host ((sc.key key).around shape i) shape i.1.object key (.table t)).Gives s
      (.object r) s := by
    rw [keyStep_readOnly hroute]
    have hget : (f.get i.1.object).Gives s (.object r) s := Act.readExcept_gives.2 ⟨hread, rfl⟩
    exact hget.bind_eq _
  exact hstep.bind_eq _

theorem keyOf_object_refused {i : Ref α × List (Frame σ)} {s : σ} {r : ObjectRef}
    (hroute : route shape key = .readOnly f) (hread : f.read i.1.object s = .ok (.object r))
    (hv : v.isTable = false) :
    keyOf host sc shape (key, v) i s = (.error ((sc.key key).cannotTake shape f "object" v), s) := by
  have hstep : (keyStep host ((sc.key key).around shape i) shape i.1.object key v).Raises s
      ((sc.key key).cannotTake shape f "object" v) s := by
    rw [keyStep_readOnly hroute]
    have hget : (f.get i.1.object).Gives s (.object r) s := Act.readExcept_gives.2 ⟨hread, rfl⟩
    refine (hget.bind_eq _).trans ?_
    cases v with
    | table t => cases hv
    | _ => rfl
  exact hstep.bind _

/-- The table of a key goes on to the elements of the collection in its field. -/
theorem keyOf_elements {name : String} {element : TypeRef}
    (hroute : route shape key = .readOnly (.held α name (.named element) (.named element))) (t : Table) :
    keyOf host sc shape (key, .table t) = fun i : Ref α × List (Frame σ) =>
      inOrder (elementEntry host ((sc.key key).around shape i) element ⟨i.1.object, name⟩) t := by
  funext i
  have hstep : keyStep host ((sc.key key).around shape i) shape i.1.object key (.table t) =
      pure (.elements element ⟨i.1.object, name⟩) := by
    rw [keyStep_readOnly hroute, readOnlyStep, Field.get_held]
    rfl
  rw [keyOf, applyEntry, Scope.around_key, hstep, pure_bind, walkNext_elements,
    walkElements_eq_inOrder]

theorem keyOf_elements_refused {name : String} {element : TypeRef}
    (hroute : route shape key = .readOnly (.held α name (.named element) (.named element)))
    (hv : v.isTable = false) :
    keyOf host sc shape (key, v) = fun _ : Ref α × List (Frame σ) =>
      throw (.invalidDeclaration (sc.key key).keyPath
        ("expected a table of named elements, found " ++ v.describe)) := by
  funext i
  refine applyEntry_throw ?_
  rw [keyStep_readOnly hroute, readOnlyStep, Field.get_held]
  cases v with
  | table t => cases hv
  | _ => rfl

/-! ## Members -/

/-- Trying an overload of one atomic parameter. -/
theorem invokeFirst_atomic {m : Member σ} {rest : List (Member σ)} {param : ValueType}
    (hparams : m.params = [param]) (hparam : param.isAtomic) (mismatch : Option Error) :
    invokeFirst host sc self key v none mismatch (m :: rest) =
      match sc.literal param v with
      | .ok (some argument) => discard (m.invoke self [argument])
      | .ok none => invokeFirst host sc self key v none mismatch rest
      | .error (.unsupportedCoercion path target found) =>
        invokeFirst host sc self key v none
          (mismatch <|> some (.unsupportedCoercion path target found)) rest
      | .error e => throw e := by
  rw [invokeFirst, if_pos (by rw [Member.arity, hparams]; rfl), hparams]
  rw [show ([param].getLastD .any) = param from rfl, resolveArgument_atomic hparam]
  rfl

theorem unresolved_uniform (sc : Scope σ) (shape : Shape σ) (name : String) :
    Uniform K fun i : Ref α × List (Frame σ) => (sc.around shape i).unresolved name := by
  simp only [Scope.unresolved, Scope.around_isStrict, Scope.around_keyPath]
  by_cases hstrict : sc.isStrict
  · simp only [hstrict, if_true]
    exact .throw _ _
  · simp only [hstrict, Bool.false_eq_true, if_false]
    exact .pure ()

/-- Overloads of one parameter each are tried in order, and what is tried does not depend on the
object. -/
theorem invokeFirst_alike (sc : Scope σ) (shape : Shape σ) (key : String) {ms : List (Member σ)}
    (hms : ∀ m ∈ ms, ∃ param, m.params = [param] ∧ param.isAtomic ∧
      ∀ live, Uniform K fun i : Ref α × List (Frame σ) => discard (m.invoke i.1.object [live]))
    (h : v.Shuffled v') (mismatch : Option Error) :
    (objectTrack σ α).Alike K
      (fun i => invokeFirst host (sc.around shape i) i.1.object key v none mismatch ms)
      fun i => invokeFirst host (sc.around shape i) i.1.object key v' none mismatch ms := by
  induction ms generalizing mismatch with
  | nil =>
      cases mismatch with
      | some e => exact .throw e e
      | none =>
          simp only [invokeFirst]
          exact unresolved_uniform sc shape key
  | cons m rest ih =>
      obtain ⟨⟨param, hparams, hparam, hinvoke⟩, hrest⟩ := List.forall_mem_cons.1 hms
      simp only [invokeFirst_atomic hparams hparam, Scope.literal_shuffled h, Scope.around_literal]
      rcases sc.literal param v with e | argument?
      · cases e with
        | unsupportedCoercion path target found => exact ih hrest _
        | _ => exact .throw _ _
      · cases argument? with
        | some argument => exact hinvoke argument
        | none => exact ih hrest mismatch

/-- A key of a member tries its overloads. -/
theorem keyOf_member (sc : Scope σ) {ms : List (Member σ)} (hmapLike : shape.mapLike = false)
    (hroute : route shape key = .member)
    (hfind : (shape.members? key <|> shape.members? (setterName key)) = some ms)
    (i : Ref α × List (Frame σ)) :
    keyOf host sc shape (key, v) i =
      invokeFirst host ((sc.key key).around shape i) i.1.object key v none none ms := by
  refine applyEntry_done ?_
  rw [keyStep_member hroute, memberStep, hmapLike]
  simp only [Bool.false_eq_true, if_false, hfind, Scope.around_key]

theorem member_alike {ms : List (Member σ)} (hmapLike : shape.mapLike = false)
    (hroute : route shape key = .member)
    (hfind : (shape.members? key <|> shape.members? (setterName key)) = some ms)
    (hms : ∀ m ∈ ms, ∃ param, m.params = [param] ∧ param.isAtomic ∧
      ∀ live, Uniform K fun i : Ref α × List (Frame σ) => discard (m.invoke i.1.object [live]))
    (h : v.Shuffled v') :
    (objectTrack σ α).Alike K (keyOf host sc shape (key, v)) (keyOf host sc shape (key, v')) := by
  simp only [funext (keyOf_member sc hmapLike hroute hfind)]
  exact invokeFirst_alike (sc.key key) shape key hms h none

/-- A key that the type does not know is refused. -/
theorem unknown_alike (hmapLike : shape.mapLike = false) (hroute : route shape key = .member)
    (hfind : (shape.members? key <|> shape.members? (setterName key)) = none) :
    (objectTrack σ α).Alike K (keyOf host sc shape (key, v)) (keyOf host sc shape (key, v')) := by
  have hthrow : ∀ v (i : Ref α × List (Frame σ)),
      keyStep host ((sc.around shape i).key key) shape i.1.object key v =
        throw (unknownKey shape (sc.key key).keyPath key) := by
    intro v i
    rw [keyStep_member hroute, memberStep, hmapLike]
    simp only [Bool.false_eq_true, if_false, hfind, Scope.around_key, Scope.around_keyPath]
    rfl
  exact keyOf_throw (hthrow v) (hthrow v')

/-! ## All keys of a type -/

/-- A key that is bound to declarations of the object's own changes the object in one way, and so
does a key that is bound to nothing. -/
theorem keyOf_alike {ds : List (Declaration σ)} (hds : shape.DescribedBy ds)
    (hmapLike : shape.mapLike = false)
    (hown : ∀ d ∈ ds, ∀ b, d.binding? = some b → shape.binding? key = some b → d.Own host K)
    (hkey : key ≠ dispatchKey) (h : v.Shuffled v')
    (hnodup : shape.subject key = .entries → ∀ t : Table, v = .table t → v = v' ∨ t.keys.Nodup) :
    (objectTrack σ α).Alike K (keyOf host sc shape (key, v)) (keyOf host sc shape (key, v')) := by
  cases hroute : route shape key with
  | dispatch =>
      unfold route at hroute
      rw [if_neg hkey] at hroute
      split at hroute
      · cases hroute
      · split at hroute <;> cases hroute
  | settable f =>
      obtain ⟨name, -, hf⟩ := settable?_of_route hroute
      cases hown _ (hds.settable hf).1 _ rfl (Shape.binding?_settable hroute) with
      | settable ht hread hwrite huniform => exact settable_alike hroute ht hread hwrite huniform h
  | readOnly f =>
      have hf := readOnly?_of_route hroute
      cases hown _ (hds.readOnly hf).1 _ rfl (Shape.binding?_readOnly hroute) with
      | viewed hread => exact viewed_alike hroute hread
      | list hlist hfield => exact list_alike hroute hlist hfield h
      | map hvalue hmap hfield =>
          refine map_alike hroute hvalue hmap hfield h (hnodup ?_)
          rw [Shape.subject, hroute]
          rfl
      | property hinner hproperty hfield => exact property_alike hroute hinner hproperty hfield h
  | member =>
      cases hfind : shape.members? key <|> shape.members? (setterName key) with
      | none => exact unknown_alike hmapLike hroute hfind
      | some ms =>
          refine member_alike hmapLike hroute hfind (fun m hm => ?_) h
          obtain ⟨hd, hbinding⟩ := Shape.binding?_member hds hroute hfind m hm
          cases hown _ hd _ rfl hbinding with
          | member hparams hparam hinvoke => exact ⟨_, hparams, hparam, hinvoke⟩

end Keys

end Object

end BuildReplay
