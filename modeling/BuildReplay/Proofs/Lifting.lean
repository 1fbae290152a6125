import BuildReplay.Proofs.Within

/-! # The mapper on a larger state

What a document does to a part of a state is seen from the whole. A host on the whole need not look
its shapes up as the host of the part does: as long as the lookups are related in a way that
sequencing keeps, all that the mapper does is. -/

namespace BuildReplay

variable {σ τ α β : Type} {l : Lens τ σ}

namespace Act

/-- A relation between the acts on a part of a state and those on the whole. It holds of an act and
what is seen of it from the whole, and of acts in sequence when it holds of each of them. -/
structure Lifting (l : Lens τ σ) where
  Lifts : ∀ {α : Type}, Act σ α → Act τ α → Prop
  within : ∀ {α : Type} (x : Act σ α), Lifts x (x.within l)
  bind : ∀ {α β : Type} {x : Act σ α} {y : Act τ α} {f : α → Act σ β} {g : α → Act τ β},
    Lifts x y → (∀ a, Lifts (f a) (g a)) → Lifts (x >>= f) (y >>= g)
  attempt : ∀ {α : Type} {x : Act σ α} {y : Act τ α}, Lifts x y → Lifts x.attempt y.attempt

namespace Lifting

variable (L : Lifting l) {x : Act σ α} {y : Act τ α}

theorem of_eq (h : y = x.within l) : L.Lifts x y := h ▸ L.within x

theorem pure (a : α) : L.Lifts (Pure.pure a) (Pure.pure a) := L.of_eq (within_pure l a).symm

theorem throw (e : Error) : L.Lifts (throw e : Act σ α) (throw e) :=
  L.of_eq (within_throw l e).symm

theorem ofExcept (r : Except Error α) : L.Lifts (.ofExcept r) (.ofExcept r) :=
  L.of_eq (within_ofExcept l r).symm

theorem andThen (h : L.Lifts x y) {b : β} :
    L.Lifts (x >>= fun _ => Pure.pure b) (y >>= fun _ => Pure.pure b) :=
  L.bind h fun _ => L.pure b

theorem map (f : α → β) (h : L.Lifts x y) : L.Lifts (f <$> x) (f <$> y) := by
  rw [map_eq_pure_bind, map_eq_pure_bind]
  exact L.bind h fun a => L.pure (f a)

/-- Looking up a shape of the part is related to looking up the same shape seen from the whole. -/
def LiftsShapes (host : Host σ) (look : TypeRef → Act τ (Shape τ)) : Prop :=
  ∀ {α : Type} (t : TypeRef) {f : Shape σ → Act σ α} {g : Shape τ → Act τ α},
    (∀ shape, L.Lifts (f shape) (g (shape.within l))) →
      L.Lifts (host.shapeOf t >>= f) (look t >>= g)

/-- Acts that are seen from the whole as they are. -/
def exact (l : Lens τ σ) : Lifting l where
  Lifts x y := y = x.within l
  within _ := rfl
  bind := by
    rintro α β x y f g rfl hfg
    rw [within_bind]
    exact congrArg _ (funext hfg)
  attempt := by
    rintro α x y rfl
    exact (within_attempt l x).symm

theorem exact_liftsShapes (host : Host σ) :
    (exact l).LiftsShapes host (host.within l).shapeOf := by
  intro α t f g hfg
  change (host.within l).shapeOf t >>= g = (host.shapeOf t >>= f).within l
  rw [Host.shapeOf_within, within_bind, bind_map_left]
  exact congrArg _ (funext hfg)

end Lifting

end Act

/-- A host on a part of a state, seen from the whole, with another way to look up its shapes. -/
def Host.withinBy (host : Host σ) (l : Lens τ σ) (look : TypeRef → Act τ (Shape τ)) : Host τ :=
  { host.within l with shapeOf := look }

variable {L : Act.Lifting l} {host : Host σ} {look : TypeRef → Act τ (Shape τ)}

/-! ## Resolution -/

section Resolution

variable (hl : L.LiftsShapes host look) (sc : Scope σ) (t : ValueType) (v : Value) (path : String)

include hl

theorem invokeFactory_lifts (factory argument : String) :
    L.Lifts (invokeFactory host t factory argument path)
      (invokeFactory (host.withinBy l look) t factory argument path) := by
  unfold invokeFactory
  split
  · split
    · exact L.ofExcept _
    · exact L.pure _
  · refine hl _ fun shape => ?_
    rw [Shape.factory?_within]
    cases shape.factory? factory with
    | none => exact L.pure _
    | some f => exact L.map _ (L.within _)
  · exact L.pure _

theorem Frame.resolve_lifts (f : Frame σ) :
    L.Lifts (f.resolve host v t path) ((f.within l).resolve (host.withinBy l look) v t path) := by
  cases f with
  | object self shape =>
      simp only [Frame.within, Frame.resolve]
      split
      · exact invokeFactory_lifts hl _ _ _ _
      · exact L.pure _
  | collection element slot =>
      simp only [Frame.within, Frame.resolve]
      split
      · split
        · exact L.bind (L.of_eq (host.getByName_within l slot _)) fun _ => L.pure _
        · exact L.pure _
      · exact L.pure _

theorem resolveSymbol_lifts (frames : List (Frame σ)) :
    L.Lifts (resolveSymbol host v t path frames)
      (resolveSymbol (host.withinBy l look) v t path (frames.map (Frame.within l))) := by
  induction frames with
  | nil => exact L.pure _
  | cons f outer ih =>
      refine L.bind (Frame.resolve_lifts hl t v path f) fun live? => ?_
      cases live? with
      | some live => exact L.pure _
      | none => exact ih

theorem resolveArgument_lifts :
    L.Lifts (resolveArgument host sc t v)
      (resolveArgument (host.withinBy l look) (sc.within l) t v) := by
  unfold resolveArgument
  split
  · split
    · exact invokeFactory_lifts hl _ _ _ _
    · exact L.pure _
  · split
    · exact L.map _ (L.ofExcept _)
    · exact resolveSymbol_lifts hl _ _ _ _

theorem resolveValue_lifts :
    L.Lifts (resolveValue host sc t v) (resolveValue (host.withinBy l look) (sc.within l) t v) := by
  unfold resolveValue
  split
  · refine L.bind (resolveSymbol_lifts hl _ _ _ _) fun live? => ?_
    cases live? with
    | some live => exact L.pure _
    | none => exact L.throw _
  · exact L.ofExcept _

end Resolution

/-! ## Containers -/

section Containers

variable (L) (sc : Scope σ)

theorem appendAll_lifts (slot : Slot) (element : ValueType) (index : Nat) (items : List Value) :
    L.Lifts (appendAll host sc slot element index items)
      (appendAll (host.withinBy l look) (sc.within l) slot element index items) := by
  induction items generalizing index with
  | nil => exact L.pure _
  | cons v rest ih =>
      exact L.bind (L.ofExcept _) fun item =>
        L.bind (L.of_eq (host.append_within l slot item)) fun _ => ih _

theorem insertAll_lifts (slot : Slot) (value : ValueType) (t : Table) :
    L.Lifts (insertAll host sc slot value t)
      (insertAll (host.withinBy l look) (sc.within l) slot value t) := by
  induction t with
  | nil => exact L.pure _
  | cons e rest ih =>
      exact L.bind (L.ofExcept _) fun item =>
        L.bind (L.of_eq (host.insert_within l slot e.1 item)) fun _ => ih

end Containers

/-! ## Steps -/

section Steps

variable (hl : L.LiftsShapes host look) (sc : Scope σ) (shape : Shape σ) (self : ObjectRef)
  (f : Field σ) (key : String) (v : Value)

theorem unresolved_lifts : L.Lifts (sc.unresolved key) ((sc.within l).unresolved key) := by
  unfold Scope.unresolved
  rw [show (sc.within l).isStrict = sc.isStrict from rfl]
  split
  · exact L.throw _
  · exact L.pure _

theorem callFirst_lifts (root : Path) (params : List Value) (path : String)
    (mismatch : Option Error) (ms : List (Member σ)) :
    L.Lifts (Frame.callFirst root self params path mismatch ms)
      (Frame.callFirst root self params path mismatch (ms.map (·.within l))) := by
  induction ms generalizing mismatch with
  | nil =>
      cases mismatch with
      | some e => exact L.throw _
      | none => exact L.pure _
  | cons m rest ih =>
      simp only [List.map_cons, Frame.callFirst]
      rw [show (m.within l).params = m.params from rfl]
      split
      · exact L.map _ (L.within _)
      · exact ih _
      · exact L.throw _

theorem Frame.callMember_lifts (root : Path) (name : String) (params : List Value)
    (path : String) (frame : Frame σ) :
    L.Lifts (frame.callMember root name params path)
      ((frame.within l).callMember root name params path) := by
  cases frame with
  | collection element slot => exact L.pure _
  | object self shape =>
      simp only [Frame.within, Frame.callMember, Shape.overloads_within]
      exact callFirst_lifts self root params path none _

theorem dispatch_lifts :
    L.Lifts (dispatch host sc shape self v)
      (dispatch (host.withinBy l look) (sc.within l) (shape.within l) self v) := by
  unfold dispatch
  split
  · exact L.throw _
  · rename_i request _
    rw [Shape.field?_within, Shape.unknownKey_within]
    cases shape.field? request.target with
    | none => exact L.throw _
    | some f =>
        simp only [Option.map_some, Field.get_within]
        refine L.bind (L.within _) fun target => ?_
        rw [show (sc.within l).frames = sc.frames.map (Frame.within l) from rfl, findMember?_within]
        cases findMember? request.method request.params.length sc.frames with
        | none => exact unresolved_lifts sc _
        | some found =>
            obtain ⟨frame, m⟩ := found
            simp only [Option.map_some]
            refine L.bind (Frame.callMember_lifts _ _ _ _ frame) fun result? => ?_
            cases result? with
            | none => exact unresolved_lifts sc _
            | some result =>
                cases target with
                | list slot => exact L.of_eq (host.append_within l slot result)
                | _ => exact L.pure _

include hl

theorem assign_lifts :
    L.Lifts (assign host sc shape self f key v)
      (assign (host.withinBy l look) (sc.within l) (shape.within l) self (f.within l) key v) := by
  unfold assign
  refine L.bind (resolveValue_lifts hl sc f.type v) fun live => ?_
  have hwrite : (f.within l).write? = f.write?.map fun write r v => (write r v).within l := rfl
  rw [hwrite]
  cases f.write? with
  | some write => exact L.within _
  | none =>
      simp only [Option.map_none, Shape.overloads_within, List.head?_map]
      cases (shape.overloads (setterName key) 1).head? with
      | some m => exact L.map _ (L.within _)
      | none => exact L.throw _

theorem settableStep_lifts :
    L.Lifts (settableStep host sc shape self f key v)
      (settableStep (host.withinBy l look) (sc.within l) (shape.within l) self (f.within l)
        key v) := by
  unfold settableStep
  simp only [show (f.within l).type = f.type from rfl, Field.get_within]
  split
  · simp only [elementsStep_within]
    exact L.bind (L.within _) fun live => L.ofExcept _
  · refine L.bind (L.within _) fun live => ?_
    cases live with
    | property slot =>
        exact L.bind (resolveValue_lifts hl sc _ _) fun resolved =>
          L.andThen (L.of_eq (host.setProperty_within l slot resolved))
    | _ => exact L.throw _
  · refine L.bind (L.within _) fun live => ?_
    cases live with
    | list slot => exact L.andThen (appendAll_lifts L sc slot _ 0 _)
    | _ => exact L.throw _
  · refine L.bind (L.within _) fun live => ?_
    cases live with
    | map slot => exact L.andThen (insertAll_lifts L sc slot _ _)
    | _ => exact L.throw _
  · refine L.bind (L.within _) fun live => ?_
    split
    · exact L.pure _
    · unfold Scope.unsetObject
      rw [show (sc.within l).isStrict = sc.isStrict from rfl]
      split
      · exact L.throw _
      · exact L.pure _
    · exact L.andThen (assign_lifts hl sc shape self f key _)
  · exact L.andThen (assign_lifts hl sc shape self f key _)

theorem readOnlyStep_lifts :
    L.Lifts (readOnlyStep host sc shape self f v)
      (readOnlyStep (host.withinBy l look) (sc.within l) (shape.within l) self (f.within l) v) := by
  have hcontained : (sc.within l).contained (shape.within l) (f.within l) =
      sc.contained shape f := rfl
  unfold readOnlyStep
  simp only [Field.get_within, hcontained]
  refine L.bind (L.within _) fun live => ?_
  split
  · rw [elementsStep_within]
    exact L.ofExcept _
  · exact L.bind (L.ofExcept _) fun value => L.andThen (insertAll_lifts L sc _ value _)
  · exact L.pure _
  · exact L.bind (L.ofExcept _) fun element => L.andThen (appendAll_lifts L sc _ element 0 _)
  · split
    · exact L.throw _
    · exact L.bind (L.ofExcept _) fun element => L.bind (L.ofExcept _) fun item =>
        L.andThen (L.of_eq (host.append_within l _ item))
  · exact L.bind (L.ofExcept _) fun inner =>
      L.bind (resolveValue_lifts hl sc inner _) fun resolved =>
        L.andThen (L.of_eq (host.setProperty_within l _ resolved))
  · exact L.throw _

theorem invokeFirst_lifts (first : Option Live) (mismatch : Option Error)
    (ms : List (Member σ)) :
    L.Lifts (invokeFirst host sc self key v first mismatch ms)
      (invokeFirst (host.withinBy l look) (sc.within l) self key v first mismatch
        (ms.map (·.within l))) := by
  induction ms generalizing mismatch with
  | nil =>
      cases mismatch with
      | some e => exact L.throw _
      | none => exact unresolved_lifts sc key
  | cons m rest ih =>
      simp only [List.map_cons, invokeFirst]
      rw [show (m.within l).arity = m.arity from rfl, show (m.within l).params = m.params from rfl]
      split
      · refine L.bind (L.attempt (resolveArgument_lifts hl sc _ v)) fun r => ?_
        split
        · exact L.map _ (L.within _)
        · exact ih _
        · exact ih _
        · exact L.throw _
      · exact ih _

theorem memberStep_lifts :
    L.Lifts (memberStep host sc shape self key v)
      (memberStep (host.withinBy l look) (sc.within l) (shape.within l) self key v) := by
  unfold memberStep
  simp only [Shape.members?_within, show (shape.within l).mapLike = shape.mapLike from rfl]
  have hput : (if shape.mapLike = true then
        (shape.members? "put").map fun ms => ms.map (·.within l) else none) =
      (if shape.mapLike = true then shape.members? "put" else none).map
        fun ms => ms.map (Member.within · l) := by
    split <;> rfl
  rw [hput]
  cases if shape.mapLike = true then shape.members? "put" else none with
  | some ms => exact invokeFirst_lifts hl sc self key v _ _ ms
  | none =>
      have hnamed : (((shape.members? key).map fun ms => ms.map (Member.within · l)) <|>
            (shape.members? (setterName key)).map fun ms => ms.map (Member.within · l)) =
          (shape.members? key <|> shape.members? (setterName key)).map
            fun ms => ms.map (Member.within · l) := by
        cases shape.members? key <;> rfl
      simp only [Option.map_none]
      rw [hnamed]
      cases shape.members? key <|> shape.members? (setterName key) with
      | some ms => exact invokeFirst_lifts hl sc self key v _ _ ms
      | none =>
          simp only [Option.map_none, Shape.unknownKey_within]
          exact L.throw _

theorem keyStep_lifts :
    L.Lifts (keyStep host sc shape self key v)
      (keyStep (host.withinBy l look) (sc.within l) (shape.within l) self key v) := by
  unfold keyStep
  rw [route_within]
  cases route shape key with
  | dispatch => exact L.andThen (dispatch_lifts sc shape self v)
  | settable f => exact settableStep_lifts hl sc shape self f key v
  | readOnly f => exact readOnlyStep_lifts hl sc shape self f v
  | member => exact L.andThen (memberStep_lifts hl sc shape self key v)

end Steps

/-! ## Walks -/

section Walks

/-- The walks over a table are related on the part and on the whole. -/
structure WalkLifts (L : Act.Lifting l) (host : Host σ) (look : TypeRef → Act τ (Shape τ))
    (t : Table) : Prop where
  entries : ∀ (sc : Scope σ) shape self, L.Lifts (walkEntries host sc shape self t)
    (walkEntries (host.withinBy l look) (sc.within l) (shape.within l) self t)
  elements : ∀ (sc : Scope σ) element slot, L.Lifts (walkElements host sc element slot t)
    (walkElements (host.withinBy l look) (sc.within l) element slot t)

theorem WalkLifts.next (hl : L.LiftsShapes host look) {t : Table} (h : WalkLifts L host look t)
    (sc : Scope σ) (next : Next) :
    L.Lifts (walkNext host sc next (.table t))
      (walkNext (host.withinBy l look) (sc.within l) next (.table t)) := by
  cases next with
  | done =>
      rw [walkNext_done, walkNext_done]
      exact L.pure _
  | object r =>
      rw [walkNext_object, walkNext_object]
      exact hl r.type fun shape => h.entries (sc.enter (.object r shape)) shape r
  | elements element slot =>
      rw [walkNext_elements, walkNext_elements]
      exact h.elements sc element slot

theorem walk_lifts (hl : L.LiftsShapes host look) (t : Table) : WalkLifts L host look t := by
  induction t using Table.induct with
  | nil =>
      refine ⟨fun sc shape self => ?_, fun sc element slot => ?_⟩
      · rw [walkEntries_nil, walkEntries_nil]
        exact L.pure _
      · rw [walkElements_nil, walkElements_nil]
        exact L.pure _
  | cons key v rest hv hrest =>
      have hnext : ∀ (sc : Scope σ) next, L.Lifts (walkNext host sc next v)
          (walkNext (host.withinBy l look) (sc.within l) next v) := by
        intro sc next
        cases v with
        | table t => exact (hv t rfl).next hl sc next
        | _ => exact L.pure _
      refine ⟨fun sc shape self => ?_, fun sc element slot => ?_⟩
      · rw [walkEntries_cons, walkEntries_cons]
        exact L.bind (keyStep_lifts hl (sc.key key) shape self key v) fun next =>
          L.bind (hnext (sc.key key) next) fun _ => hrest.entries sc shape self
      · rw [walkElements, walkElements]
        split
        · exact L.bind (L.of_eq (host.maybeCreate_within l slot key)) fun r =>
            L.bind (hnext ((sc.key key).enter (.collection element slot)) (.object r)) fun _ =>
              hrest.elements sc element slot
        · exact L.throw _

/-- A document is applied to the whole as it is to the part. -/
theorem replay_lifts (hl : L.LiftsShapes host look) (options : Options) (start : String)
    (t : Table) (r : ObjectRef) :
    L.Lifts (replay host options start t r) (replay (host.withinBy l look) options start t r) :=
  (walk_lifts hl t).next hl (.top options start) (.object r)

end Walks

/-! ## The whole as it is seen

With the shapes of the part, the mapper does to the part of a state what it does to the part
alone. -/

section Exact

open Act.Lifting (exact_liftsShapes)

variable (l) (host : Host σ) (sc : Scope σ) (t : ValueType) (v : Value) (path : String)

theorem invokeFactory_within (factory argument : String) :
    invokeFactory (host.within l) t factory argument path =
      (invokeFactory host t factory argument path).within l :=
  invokeFactory_lifts (exact_liftsShapes host) t path factory argument

theorem Frame.resolve_within (f : Frame σ) :
    (f.within l).resolve (host.within l) v t path = (f.resolve host v t path).within l :=
  Frame.resolve_lifts (exact_liftsShapes host) t v path f

theorem resolveSymbol_within (frames : List (Frame σ)) :
    resolveSymbol (host.within l) v t path (frames.map (Frame.within l)) =
      (resolveSymbol host v t path frames).within l :=
  resolveSymbol_lifts (exact_liftsShapes host) t v path frames

theorem resolveArgument_within :
    resolveArgument (host.within l) (sc.within l) t v = (resolveArgument host sc t v).within l :=
  resolveArgument_lifts (exact_liftsShapes host) sc t v

theorem resolveValue_within :
    resolveValue (host.within l) (sc.within l) t v = (resolveValue host sc t v).within l :=
  resolveValue_lifts (exact_liftsShapes host) sc t v

theorem appendAll_within (slot : Slot) (element : ValueType) (index : Nat) (items : List Value) :
    appendAll (host.within l) (sc.within l) slot element index items =
      (appendAll host sc slot element index items).within l :=
  appendAll_lifts (.exact l) sc slot element index items

theorem insertAll_within (slot : Slot) (value : ValueType) (t : Table) :
    insertAll (host.within l) (sc.within l) slot value t =
      (insertAll host sc slot value t).within l :=
  insertAll_lifts (.exact l) sc slot value t

theorem replay_within (options : Options) (start : String) (t : Table) (r : ObjectRef) :
    replay (host.within l) options start t r = (replay host options start t r).within l :=
  replay_lifts (exact_liftsShapes host) options start t r

end Exact

end BuildReplay
