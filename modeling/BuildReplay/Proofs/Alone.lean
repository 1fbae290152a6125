import BuildReplay.Proofs.Own

/-! # Objects that nothing encloses

A document for an object without members that nothing encloses does one thing to the object,
whatever it holds and whatever else there is: a request finds no member to call, and every other key
changes the object alone. -/

namespace BuildReplay

variable {σ α : Type} [Stored σ α]

/-- The states are looked at from an object. -/
def aloneTrack (σ α : Type) [Stored σ α] : Track (Ref α) σ α where
  Start _ _ := True
  Moves f r s s' := s' = r.modify f s
  start _ _ := trivial
  one _ := (Lens.modify_id _ _).symm
  mul := by
    rintro f g r s _ _ rfl rfl
    exact Lens.modify_modify _ f g s

/-- What is the same within all frames is so within none. -/
theorem Uniform.alone {β : Type} {K : Submonoid (Function.End α)}
    {x : Ref α × List (Frame σ) → Act σ β} (hx : Uniform K x) :
    (aloneTrack σ α).Alike K (fun r => x (r, [])) fun r => x (r, []) := by
  have hdoes : ∀ {r : Except Error β} {f : Function.End α}, (objectTrack σ α).Does x r f →
      (aloneTrack σ α).Does (fun r => x (r, [])) r f :=
    fun h r s _ => h (r, []) s trivial
  exact hx.lift fun f hf => ⟨f, hf, fun _ => hdoes, fun _ => hdoes⟩

/-- The field can always be read of an object of the type. -/
def Field.Reads (f : Field σ) (α : Type) [Described α] : Prop :=
  ∀ (r : Ref α) s, ∃ live, f.read r.object s = .ok live

theorem Declaration.Own.settable_reads {host : Host σ} {K : Submonoid (Function.End α)} {f : Field σ}
    (h : (Declaration.settable f).Own host K) : f.Reads α := by
  cases h with
  | settable _ hread _ _ =>
      intro r s
      obtain ⟨live, hlive, -⟩ := hread r s
      exact ⟨live, hlive⟩

theorem Declaration.Own.readOnly_reads {host : Host σ} {K : Submonoid (Function.End α)} {f : Field σ}
    (h : (Declaration.readOnly f).Own host K) : f.Reads α := by
  cases h with
  | viewed hread =>
      intro r s
      obtain ⟨text, htext⟩ := hread r s
      exact ⟨_, htext⟩
  | list _ _ => exact fun r s => ⟨_, getter_object _ r s⟩
  | map _ _ _ => exact fun r s => ⟨_, getter_object _ r s⟩
  | property _ _ _ => exact fun r s => ⟨_, getter_object _ r s⟩

/-- A new object is read. -/
theorem Ref.get_alloc (a : α) (s : σ) : (alloc a s).1.get (alloc a s).2 = a := by
  let heap : Lens σ (Heap α) := Stored.heap
  change (heap.get (heap.set ((heap.get s).alloc a).2 s)).cell (heap.get s).size = a
  rw [heap.get_set]
  exact Heap.cell_put_self _ _ _

section Tables

variable {host : Host σ} {shape : Shape σ} {ds : List (Declaration σ)}

/-- The fields of the type are parts of its objects, and it has no members. -/
structure Memberless (host : Host σ) (shape : Shape σ) (α : Type) [Stored σ α] : Prop where
  described : ∃ ds, shape.DescribedBy ds ∧ ∀ d ∈ ds, ∀ b, d.binding? = some b →
    d.Own host (⊤ : Submonoid (Function.End α))
  mapLike : shape.mapLike = false
  overloads : ∀ name arity, shape.overloads name arity = []
  shapeOf : host.shapeOf (typeRef α) = pure shape

variable (h : Memberless host shape α)
include h

theorem Memberless.reads {name : String} {f : Field σ} (hf : shape.field? name = some f) :
    f.Reads α := by
  obtain ⟨ds, hds, hown⟩ := h.described
  rcases (Option.orElse_eq_some _ _ _).1 hf with hf | ⟨-, hf⟩
  · have hd := (hds.settable hf).1
    exact (hown _ hd _ rfl).settable_reads
  · have hd := (hds.readOnly hf).1
    exact (hown _ hd _ rfl).readOnly_reads

/-- A request finds no member, whatever it asks for. -/
theorem Memberless.dispatch_alone (sc : Scope σ) (v : Value) :
    ∃ result : Except Error Unit, ∀ r : Ref α,
      dispatch host (sc.around shape (r, [])) shape r.object v = .ofExcept result := by
  unfold dispatch
  cases hrequest : DispatchRequest.ofValue v with
  | error reason => exact ⟨.error (.malformedDispatch sc.keyPath reason), fun _ => rfl⟩
  | ok request =>
      dsimp only
      cases hfield : shape.field? request.target with
      | none => exact ⟨.error (unknownKey shape sc.keyPath request.target), fun _ => rfl⟩
      | some f =>
          refine ⟨if sc.isStrict then .error (.unresolvedArgument sc.keyPath request.method)
            else .ok (), fun r => funext fun s => ?_⟩
          obtain ⟨live, hread⟩ := h.reads hfield r s
          have hget : (f.get r.object).Gives s live s := Act.readExcept_gives.2 ⟨hread, rfl⟩
          have hfind : findMember? request.method request.params.length
              (sc.around shape (r, [])).frames = none := by
            simp [Scope.around, findMember?, Frame.findMember?, Frame.overloads, h.overloads]
          dsimp only
          rw [hget.bind_eq, hfind]
          change ((sc.around shape (r, [])).unresolved request.method) s = _
          rw [Scope.unresolved, Scope.around_isStrict, Scope.around_keyPath]
          split <;> rfl

/-- A key does the same to every object. -/
theorem Memberless.keyOf_alone (sc : Scope σ) (e : String × Value) :
    (aloneTrack σ α).Alike ⊤ (fun r => keyOf host sc shape e (r, []))
      fun r => keyOf host sc shape e (r, []) := by
  obtain ⟨key, v⟩ := e
  by_cases hkey : key = dispatchKey
  · obtain ⟨result, hresult⟩ := h.dispatch_alone (sc.key key) v
    have hkeyOf : ∀ r : Ref α, keyOf host sc shape (key, v) (r, []) = .ofExcept result := by
      intro r
      refine applyEntry_done ?_
      rw [keyStep, route, if_pos hkey, Scope.around_key, hresult]
    simp only [hkeyOf]
    exact .ofExcept rfl
  · obtain ⟨ds, hds, hown⟩ := h.described
    exact Uniform.alone (keyOf_alike hds h.mapLike (fun d hd b hb _ => hown d hd b hb) hkey (.same v)
      fun _ _ _ => .inl rfl)

/-- A document does one thing to every object that it is applied to. -/
theorem Memberless.replay_alone (options : Options) (start : String) (t : Table) :
    (aloneTrack σ α).Alike ⊤ (fun r => replay host options start t r.object)
      fun r => replay host options start t r.object := by
  have hreplay : ∀ r : Ref α, replay host options start t r.object =
      inOrder (fun e => keyOf host (.top options start) shape e (r, [])) t := fun r =>
    populate_eq_inOrder (.top options start) h.shapeOf t (r, [])
  simp only [hreplay]
  exact Track.Alike.inOrder (List.forall₂_same.2 fun e _ => h.keyOf_alone (.top options start) e)

/-- Documents that are applied one after the other do one thing to every object. -/
theorem Memberless.replays_do (options : Options) (tables : List (String × Table)) :
    ∃ (result : Except Error Unit) (f : α → α), ∀ (r : Ref α) (s : σ),
      inOrder (fun e => replay host options e.1 e.2 r.object) tables s = (result, r.modify f s) := by
  have halike : (aloneTrack σ α).Alike ⊤
      (fun r => inOrder (fun e => replay host options e.1 e.2 r.object) tables)
      fun r => inOrder (fun e => replay host options e.1 e.2 r.object) tables :=
    Track.Alike.inOrder (List.forall₂_same.2 fun e _ => h.replay_alone options e.1 e.2)
  obtain ⟨result, f, -, hdoes⟩ := halike.exists_does_left
  refine ⟨result, f, fun r s => ?_⟩
  obtain ⟨_, hrun, rfl⟩ := hdoes r s trivial
  exact hrun

end Tables

end BuildReplay
