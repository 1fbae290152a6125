import BuildReplay.Proofs.Law
import BuildReplay.Proofs.Walk

/-! # What one key can do

The effects that the step of a key can have on a host, each with what is known about its arguments,
and the errors that the step words itself. A law that all of them obey is obeyed by the step. -/

namespace BuildReplay

open Act (Law)

variable {σ : Type}

/-- A key is nothing on a type: no field of its name or of its `is` form, no member of its name or
that sets it, and no entry of a type like a map. -/
structure Shape.Lacks (shape : Shape σ) (key : String) : Prop where
  settable : shape.settable? key = none
  accessor : shape.settable? (isName key) = none
  readOnly : shape.readOnly? key = none
  member : shape.members? key = none
  setter : shape.members? (setterName key) = none
  put : shape.mapLike → shape.members? "put" = none

/-- The errors of a key that the mapper words itself. The path is that of the key, of an item of
its array, of a parameter of its request, or of an entry of its table. -/
inductive OwnError (sc : Scope σ) (shape : Shape σ) (key : String) (v : Value) : Error → Prop where
  | here {e : Error} : e.path? = some sc.keyPath → (∀ path, e ≠ .missingValue path) →
      (∀ path name, e = .unresolvedArgument path name → sc.isStrict) →
      (∀ path name type available dump,
        e = .unknownDeclarationKey path name type available dump →
          key = dispatchKey ∨ shape.Lacks key) → OwnError sc shape key v e
  | item {items : List Value} {i : Nat} {target found : String} : v = .array items →
      i < items.length →
      OwnError sc shape key v (.unsupportedCoercion (itemPath sc.keyPath i) target found)
  | param {request : DispatchRequest} {i : Nat} {target found : String} : key = dispatchKey →
      DispatchRequest.ofValue v = .ok request → i < request.params.length →
      OwnError sc shape key v (.unsupportedCoercion (itemPath sc.keyPath i) target found)
  | entry {entries : Table} {name : String} {u : Value} {target found : String} :
      v = .table entries → (name, u) ∈ entries →
      OwnError sc shape key v (.unsupportedCoercion (sc.keyPath ++ "." ++ name) target found)

/-- Errors of a kind that the mapper words in no special case only. -/
def Error.isPlain : Error → Bool
  | .missingValue _ | .unresolvedArgument _ _ | .unknownDeclarationKey _ _ _ _ _ => false
  | _ => true

theorem OwnError.plain {sc : Scope σ} {shape : Shape σ} {key : String} {v : Value} {e : Error}
    (hpath : e.path? = some sc.keyPath) (hplain : e.isPlain) : OwnError sc shape key v e := by
  refine .here hpath ?_ ?_ ?_
  · rintro path rfl
    cases hplain
  · rintro path name rfl
    cases hplain
  · rintro path name type available dump rfl
    cases hplain

/-- The overloads that a key of no field calls, with the argument in front of the key's value. -/
inductive Shape.Calls (shape : Shape σ) (key : String) :
    Option Live → List (Member σ) → Prop where
  | put {ms} : shape.mapLike → shape.members? "put" = some ms → Calls shape key (some (.string key)) ms
  | named {ms} : shape.members? key = some ms → Calls shape key none ms
  | setter {ms} : shape.members? (setterName key) = some ms → Calls shape key none ms

/-- A field is of a shape. -/
def Shape.HasField (shape : Shape σ) (f : Field σ) : Prop :=
  ∃ name, shape.settable? name = some f ∨ shape.readOnly? name = some f

theorem Shape.hasField_of_field? {shape : Shape σ} {name : String} {f : Field σ}
    (h : shape.field? name = some f) : shape.HasField f := by
  rw [Shape.field?] at h
  rcases hs : shape.settable? name with _ | g
  · rw [hs] at h
    exact ⟨name, .inr h⟩
  · rw [hs] at h
    cases h
    exact ⟨name, .inl hs⟩

/-- The types that the value of a key is resolved as. -/
inductive Shape.Asks (shape : Shape σ) (key : String) : ValueType → Prop where
  | field {f} : route shape key = .settable f → Asks shape key f.type
  | contained {f t} : shape.HasField f → f.type.contained? = some t → Asks shape key t
  | argument {first ms m} : route shape key = .member → shape.Calls key first ms → m ∈ ms →
      Asks shape key (m.params.getLastD .any)

/-- Values of some types are looked up in the shapes and collections of a host. -/
structure Lookups (L : Law σ) (host : Host σ) (sc : Scope σ) (Asked : ValueType → Prop) :
    Prop where
  shapeOf : ∀ {t}, Asked (.object t) → L.Obeys (host.shapeOf t)
  build : ∀ {t s shape s' name f argument}, L.Start s → (host.shapeOf t).Gives s shape s' →
    shape.factory? name = some f → L.Obeys (f.build argument)
  getByName : ∀ {element slot name}, Frame.collection element slot ∈ sc.frames →
    L.Obeys (host.getByName slot name)

/-- All effects of one key obey a law. -/
structure Effects (L : Law σ) (host : Host σ) (sc : Scope σ) (shape : Shape σ) (r : ObjectRef)
    (key : String) (v : Value) : Prop extends Lookups L host sc (shape.Asks key) where
  own : ∀ {e}, OwnError sc shape key v e → L.Allows e
  get : ∀ {f}, shape.HasField f → L.Obeys (f.get r)
  write : ∀ {f write s live s'}, route shape key = .settable f → f.write? = some write →
    L.Start s → (resolveValue host sc f.type v).Gives s live s' → L.Obeys (write r live)
  setter : ∀ {f m s live s'}, route shape key = .settable f → f.write? = none →
    m ∈ shape.overloads (setterName key) 1 → L.Start s →
    (resolveValue host sc f.type v).Gives s live s' → L.Obeys (m.invoke r [live])
  append : ∀ {f slot s s' element raw path item}, shape.HasField f → L.Start s →
    (f.get r).Gives s (.list slot) s' → f.type.contained? = some element →
    coerce sc.options.projectRoot (some raw) element path = .ok item →
    L.Obeys (host.append slot item)
  insert : ∀ {f slot s s' value entries raw path item name}, shape.HasField f →
    (route shape key = .settable f ∨ route shape key = .readOnly f) → v = .table entries →
    (name, raw) ∈ entries → L.Start s → (f.get r).Gives s (.map slot) s' →
    f.type.contained? = some value →
    coerce sc.options.projectRoot (some raw) value path = .ok item →
    L.Obeys (host.insert slot name item)
  setProperty : ∀ {f slot s s' inner s₁ live s₁'}, shape.HasField f → L.Start s →
    (f.get r).Gives s (.property slot) s' → f.type.contained? = some inner → L.Start s₁ →
    (resolveValue host sc inner v).Gives s₁ live s₁' → L.Obeys (host.setProperty slot live)
  call : ∀ {first ms m s argument s'}, route shape key = .member → shape.Calls key first ms →
    m ∈ ms → m.arity = first.toList.length + 1 → L.Start s →
    (resolveArgument host sc (m.params.getLastD .any) v).Gives s (some argument) s' →
    L.Obeys (m.invoke r (first.toList ++ [argument]))
  dispatch : ∀ {request r' shape' m args}, key = dispatchKey →
    DispatchRequest.ofValue v = .ok request → Frame.object r' shape' ∈ sc.frames →
    m ∈ shape'.overloads request.method request.params.length →
    Frame.coerceParams sc.options.projectRoot request.params sc.keyPath m.params = .ok args →
    L.Obeys (m.invoke r' args)
  keep : ∀ {request f slot s s' r' shape' m args s₁ result s₁'}, key = dispatchKey →
    DispatchRequest.ofValue v = .ok request → shape.field? request.target = some f → L.Start s →
    (f.get r).Gives s (.list slot) s' → Frame.object r' shape' ∈ sc.frames →
    m ∈ shape'.overloads request.method request.params.length →
    Frame.coerceParams sc.options.projectRoot request.params sc.keyPath m.params = .ok args →
    L.Start s₁ → (m.invoke r' args).Gives s₁ result s₁' → L.Obeys (host.append slot result)

/-! ## Resolution -/

section Resolution

variable {L : Law σ} {host : Host σ} {sc : Scope σ} {shape : Shape σ} {key : String} {v : Value}

theorem coerce_error {root : Path} {t : ValueType} {path : String} {e : Error}
    (h : coerce root (some v) t path = .error e) :
    e = .unsupportedCoercion path t.text v.describe := by
  simp only [coerce] at h
  split at h
  · cases h
  · exact (Except.error.inj h).symm

theorem enumConstant_error {r : EnumRef} {argument path : String} {e : Error}
    (h : enumConstant r argument path = .error e) :
    ∃ found, e = .unsupportedCoercion path r.name found := by
  unfold enumConstant at h
  split at h
  · cases h
  · exact ⟨_, (Except.error.inj h).symm⟩

theorem exists_of_mapM_error {α β ε : Type} {f : α → Except ε β} {l : List α} {e : ε}
    (h : l.mapM f = .error e) : ∃ a ∈ l, f a = .error e := by
  induction l with
  | nil => cases h
  | cons a l ih =>
      rw [List.mapM_cons] at h
      cases ha : f a with
      | error e' =>
          rw [ha] at h
          cases h
          exact ⟨a, List.mem_cons_self, ha⟩
      | ok b =>
          cases hl : l.mapM f with
          | error e' =>
              rw [ha, hl] at h
              cases h
              obtain ⟨a', ha', hf⟩ := ih hl
              exact ⟨a', List.mem_cons_of_mem a ha', hf⟩
          | ok bs =>
              rw [ha, hl] at h
              cases h

/-- As many parameters as a member takes are all there, so one of them did not convert. -/
theorem coerceParams_error {root : Path} {params : List Value} {path : String}
    {types : List ValueType} {e : Error} (hlength : types.length = params.length)
    (h : Frame.coerceParams root params path types = .error e) :
    ∃ i target found, i < params.length ∧
      e = .unsupportedCoercion (itemPath path i) target found := by
  obtain ⟨⟨type, i⟩, hmem, hitem⟩ := exists_of_mapM_error h
  have hi : i < params.length := by
    obtain ⟨-, hi, -⟩ := List.mem_zipIdx hmem
    omega
  dsimp only [coerceItem] at hitem
  rw [List.getElem?_eq_getElem hi] at hitem
  exact ⟨i, _, _, hi, coerce_error hitem⟩

variable {Asked : ValueType → Prop} (hl : Lookups L host sc Asked)
  (hown : ∀ {e}, OwnError sc shape key v e → L.Allows e) {t : ValueType} (ht : Asked t)
include hl hown ht

theorem invokeFactory_obeys (factory argument : String) :
    L.Obeys (invokeFactory host t factory argument sc.keyPath) := by
  unfold invokeFactory
  split
  · split
    · rename_i r _
      refine L.ofExcept fun e he => ?_
      cases hr : enumConstant r argument sc.keyPath with
      | ok constant => simp [hr, Except.map] at he
      | error e' =>
          obtain ⟨found, rfl⟩ := enumConstant_error hr
          rw [hr] at he
          cases he
          exact hown (.plain rfl rfl)
    · exact L.pure _
  · refine L.bind (hl.shapeOf ht) fun hs hshape => ?_
    split
    · exact L.map _ (hl.build hs hshape ‹_›)
    · exact L.pure _
  · exact L.pure _

theorem Frame.resolve_obeys {f : Frame σ} (hf : f ∈ sc.frames) :
    L.Obeys (f.resolve host v t sc.keyPath) := by
  cases f with
  | object self shape =>
      simp only [Frame.resolve]
      split
      · exact invokeFactory_obeys hl hown ht _ _
      · exact L.pure _
  | collection element slot =>
      simp only [Frame.resolve]
      split
      · split
        · exact L.andThen (hl.getByName hf) fun _ => L.pure _
        · exact L.pure _
      · exact L.pure _

theorem resolveSymbol_obeys :
    L.Obeys (resolveSymbol host v t sc.keyPath sc.frames) := by
  have h : ∀ frames ⊆ sc.frames, L.Obeys (resolveSymbol host v t sc.keyPath frames) := by
    intro frames hsub
    induction frames with
    | nil => exact L.pure _
    | cons f outer ih =>
        obtain ⟨hf, houter⟩ := List.cons_subset.1 hsub
        refine L.andThen (Frame.resolve_obeys hl hown ht hf) fun live? => ?_
        cases live? with
        | some live => exact L.pure _
        | none => exact ih houter
  exact h _ (List.Subset.refl _)

theorem resolveArgument_obeys : L.Obeys (resolveArgument host sc t v) := by
  unfold resolveArgument
  split
  · split
    · exact invokeFactory_obeys hl hown ht _ _
    · exact L.pure _
  · split
    · exact L.map _ (L.ofExcept fun e he => coerce_error he ▸ hown (.plain rfl rfl))
    · exact resolveSymbol_obeys hl hown ht

theorem resolveValue_obeys : L.Obeys (resolveValue host sc t v) := by
  unfold resolveValue
  split
  · refine L.andThen (resolveSymbol_obeys hl hown ht) fun live? => ?_
    cases live? with
    | some live => exact L.pure _
    | none => exact L.throw (hown (.plain rfl rfl))
  · exact L.ofExcept fun e he => coerce_error he ▸ hown (.plain rfl rfl)

end Resolution

/-! ## Steps -/

section Steps

variable {L : Law σ} {host : Host σ} {sc : Scope σ} {shape : Shape σ} {self : ObjectRef}
  {key : String} {v : Value} (h : Effects L host sc shape self key v)
include h

theorem Effects.resolve {t : ValueType} (ht : shape.Asks key t) :
    L.Obeys (resolveValue host sc t v) :=
  resolveValue_obeys h.toLookups h.own ht

theorem unassignable_allowed (f : Field σ) (reason : String) :
    L.Allows (sc.unassignable shape f reason) :=
  h.own (.plain rfl rfl)

theorem unresolved_obeys (name : String) : L.Obeys (sc.unresolved name) := by
  unfold Scope.unresolved
  split
  · exact L.throw (h.own (.here rfl (fun _ h => by cases h) (fun _ _ _ => ‹_›)
      fun _ _ _ _ _ h => by cases h))
  · exact L.pure _

theorem contained_obeys (f : Field σ) : L.Obeys (.ofExcept (sc.contained shape f)) := by
  refine L.ofExcept fun e he => ?_
  unfold Scope.contained at he
  split at he
  · cases he
  · cases he
    exact unassignable_allowed h f _

omit h in
theorem contained_eq_ok {f : Field σ} {t : ValueType} (ht : sc.contained shape f = .ok t) :
    f.type.contained? = some t := by
  unfold Scope.contained at ht
  split at ht
  · rename_i heq
    cases ht
    exact heq
  · cases ht

theorem elementsStep_obeys (f : Field σ) (live : Live) :
    L.Obeys (.ofExcept (elementsStep sc shape f live v)) := by
  refine L.ofExcept fun e he => ?_
  unfold elementsStep at he
  split at he
  · split at he
    · cases he
    · cases he
      exact h.own (.plain rfl rfl)
  · cases he
    exact unassignable_allowed h f _

/-- Appending converted items obeys the law, where appending one does. -/
theorem appendAll_obeys {slot : Slot} {element : ValueType} {items : List Value}
    (hv : v = .array items)
    (happend : ∀ {raw path item},
      coerce sc.options.projectRoot (some raw) element path = .ok item →
        L.Obeys (host.append slot item)) :
    L.Obeys (appendAll host sc slot element 0 items) := by
  have hrest : ∀ index rest, index + rest.length = items.length →
      L.Obeys (appendAll host sc slot element index rest) := by
    intro index rest
    induction rest generalizing index with
    | nil => exact fun _ => L.pure _
    | cons u rest ih =>
        intro hlength
        rw [List.length_cons] at hlength
        refine L.bind (L.ofExcept fun e he => ?_) fun _ hitem => ?_
        · rw [coerce_error he]
          exact h.own (.item hv (by omega))
        · exact L.andThen (happend (Act.ofExcept_gives.1 hitem).1) fun _ => ih _ (by omega)
  exact hrest 0 items (Nat.zero_add _)

theorem insertAll_obeys {slot : Slot} {value : ValueType} {entries : Table}
    (hv : v = .table entries)
    (hinsert : ∀ {raw path item name}, (name, raw) ∈ entries →
      coerce sc.options.projectRoot (some raw) value path = .ok item →
        L.Obeys (host.insert slot name item)) :
    L.Obeys (insertAll host sc slot value entries) := by
  have hrest : ∀ rest ⊆ entries, L.Obeys (insertAll host sc slot value rest) := by
    intro rest hsub
    induction rest with
    | nil => exact L.pure _
    | cons e rest ih =>
        obtain ⟨he, hrest⟩ := List.cons_subset.1 hsub
        refine L.bind (L.ofExcept fun e' he' => ?_) fun _ hitem => ?_
        · rw [coerce_error he']
          exact h.own (.entry hv he)
        · exact L.andThen (hinsert he (Act.ofExcept_gives.1 hitem).1) fun _ => ih hrest
  exact hrest _ (List.Subset.refl _)

theorem assign_obeys {f : Field σ} (hroute : route shape key = .settable f) :
    L.Obeys (assign host sc shape self f key v) := by
  refine L.bind (h.resolve (.field hroute)) fun hs hlive => ?_
  split
  · exact h.write hroute ‹_› hs hlive
  · split
    · exact L.discard (h.setter hroute ‹_› (List.mem_of_head? ‹_›) hs hlive)
    · exact L.throw (unassignable_allowed h f _)

theorem settableStep_obeys {f : Field σ} (hroute : route shape key = .settable f) :
    L.Obeys (settableStep host sc shape self f key v) := by
  have hf : shape.HasField f := by
    obtain ⟨name, -, hname⟩ := settable?_of_route hroute
    exact ⟨name, .inl hname⟩
  unfold settableStep
  split
  · exact L.andThen (h.get hf) fun live => elementsStep_obeys h f live
  · rename_i inner htype
    refine L.bind (h.get hf) fun hs hget => ?_
    split
    · have hinner : f.type.contained? = some inner := by rw [htype]; rfl
      refine L.bind (h.resolve (.contained hf hinner)) fun hs₁ hlive => ?_
      exact L.andThen (h.setProperty hf hs hget hinner hs₁ hlive) fun _ => L.pure _
    · exact L.throw (unassignable_allowed h f _)
  · rename_i element items htype
    refine L.bind (h.get hf) fun hs hget => ?_
    split
    · refine L.andThen (appendAll_obeys h rfl fun hitem => ?_) fun _ => L.pure _
      exact h.append hf hs hget (by rw [htype]; rfl) hitem
    · exact L.throw (unassignable_allowed h f _)
  · rename_i value entries htype
    refine L.bind (h.get hf) fun hs hget => ?_
    split
    · refine L.andThen (insertAll_obeys h rfl fun hmem hitem => ?_) fun _ => L.pure _
      exact h.insert hf (.inl hroute) rfl hmem hs hget (by rw [htype]; rfl) hitem
    · exact L.throw (unassignable_allowed h f _)
  · refine L.andThen (h.get hf) fun live => ?_
    split
    · exact L.pure _
    · unfold Scope.unsetObject
      split
      · exact L.throw (unassignable_allowed h _ _)
      · exact L.pure _
    · exact L.andThen (assign_obeys h hroute) fun _ => L.pure _
  · exact L.andThen (assign_obeys h hroute) fun _ => L.pure _

theorem readOnlyStep_obeys {f : Field σ} (hroute : route shape key = .readOnly f) :
    L.Obeys (readOnlyStep host sc shape self f v) := by
  have hf : shape.HasField f := ⟨key, .inr (readOnly?_of_route hroute)⟩
  unfold readOnlyStep
  refine L.bind (h.get hf) fun hs hget => ?_
  split
  · exact elementsStep_obeys h f _
  · refine L.bind (contained_obeys h f) fun _ hvalue => ?_
    refine L.andThen (insertAll_obeys h rfl fun hmem hitem => ?_) fun _ => L.pure _
    exact h.insert hf (.inr hroute) rfl hmem hs hget
      (contained_eq_ok (Act.ofExcept_gives.1 hvalue).1) hitem
  · exact L.pure _
  · refine L.bind (contained_obeys h f) fun _ helement => ?_
    refine L.andThen (appendAll_obeys h rfl fun hitem => ?_) fun _ => L.pure _
    exact h.append hf hs hget (contained_eq_ok (Act.ofExcept_gives.1 helement).1) hitem
  · split
    · exact L.throw (unassignable_allowed h f _)
    · refine L.bind (contained_obeys h f) fun _ helement => ?_
      refine L.bind (L.ofExcept fun e he => ?_) fun _ hitem => ?_
      · rw [coerce_error he]
        exact h.own (.plain rfl rfl)
      · exact L.andThen (h.append hf hs hget (contained_eq_ok (Act.ofExcept_gives.1 helement).1)
          (Act.ofExcept_gives.1 hitem).1) fun _ => L.pure _
  · refine L.bind (contained_obeys h f) fun _ hcontained => ?_
    have hinner := contained_eq_ok (Act.ofExcept_gives.1 hcontained).1
    refine L.bind (h.resolve (.contained hf hinner)) fun hs₁ hlive => ?_
    exact L.andThen (h.setProperty hf hs hget hinner hs₁ hlive) fun _ => L.pure _
  · exact L.throw (unassignable_allowed h f _)

theorem invokeFirst_obeys (hroute : route shape key = .member) {first : Option Live}
    {ms : List (Member σ)} (hcalls : shape.Calls key first ms) :
    L.Obeys (invokeFirst host sc self key v first none ms) := by
  have hrest : ∀ mismatch rest, rest ⊆ ms → (∀ e, mismatch = some e → L.Allows e) →
      L.Obeys (invokeFirst host sc self key v first mismatch rest) := by
    intro mismatch rest hsub hallows
    induction rest generalizing mismatch with
    | nil =>
        cases mismatch with
        | some e => exact L.throw (hallows e rfl)
        | none => exact unresolved_obeys h key
    | cons m rest ih =>
        obtain ⟨hm, hrest⟩ := List.cons_subset.1 hsub
        have harg := resolveArgument_obeys h.toLookups h.own (.argument hroute hcalls hm)
        simp only [invokeFirst]
        split
        · rename_i harity
          refine L.bind (L.attempt harg) fun hs hgives => ?_
          rw [Act.attempt_gives] at hgives
          split
          · exact L.discard (h.call hroute hcalls hm harity hs hgives)
          · exact ih mismatch hrest hallows
          · refine ih _ hrest fun e he => ?_
            cases mismatch with
            | some e' => exact hallows e he
            | none =>
                cases he
                exact L.allows harg hs hgives
          · exact L.throw (L.allows harg hs hgives)
        · exact ih mismatch hrest hallows
  exact hrest none ms (List.Subset.refl _) fun _ he => by cases he

theorem memberStep_obeys (hroute : route shape key = .member) :
    L.Obeys (memberStep host sc shape self key v) := by
  unfold memberStep
  split
  · rename_i heq
    split at heq
    · exact invokeFirst_obeys h hroute (.put ‹_› heq)
    · cases heq
  · split
    · rename_i heq
      refine invokeFirst_obeys h hroute ?_
      rcases hkey : shape.members? key with _ | ms
      · rw [hkey] at heq
        exact .setter heq
      · rw [hkey] at heq
        cases heq
        exact .named hkey
    · rename_i hput _ hnamed
      obtain ⟨-, hsettable, haccessor, hreadOnly⟩ := route_eq_member.1 hroute
      have hnone : shape.members? key = none ∧ shape.members? (setterName key) = none := by
        simpa using hnamed
      refine L.throw (h.own (.here rfl (fun _ h => by cases h) (fun _ _ h => by cases h) ?_))
      refine fun _ _ _ _ _ _ => .inr ⟨hsettable, haccessor, hreadOnly, hnone.1, hnone.2, ?_⟩
      intro hmap
      rwa [if_pos hmap] at hput

theorem callFirst_obeys {request : DispatchRequest} (hkey : key = dispatchKey)
    (hv : DispatchRequest.ofValue v = .ok request) {self' : ObjectRef} {shape' : Shape σ}
    (hframe : Frame.object self' shape' ∈ sc.frames) :
    L.Obeys (Frame.callFirst sc.options.projectRoot self' request.params sc.keyPath none
      (shape'.overloads request.method request.params.length)) := by
  have hrest : ∀ mismatch ms, ms ⊆ shape'.overloads request.method request.params.length →
      (∀ e, mismatch = some e → L.Allows e) →
      L.Obeys (Frame.callFirst sc.options.projectRoot self' request.params sc.keyPath mismatch ms) := by
    intro mismatch ms hsub hallows
    induction ms generalizing mismatch with
    | nil =>
        cases mismatch with
        | some e => exact L.throw (hallows e rfl)
        | none => exact L.pure _
    | cons m rest ih =>
        obtain ⟨hm, hrest⟩ := List.cons_subset.1 hsub
        have herror : ∀ {e}, Frame.coerceParams sc.options.projectRoot request.params sc.keyPath
            m.params = .error e → L.Allows e := by
          intro e he
          have harity : m.params.length = request.params.length := by
            simpa [Member.arity] using (List.mem_filter.1 hm).2
          obtain ⟨i, target, found, hi, rfl⟩ := coerceParams_error harity he
          exact h.own (.param hkey hv hi)
        simp only [Frame.callFirst]
        split
        · exact L.map _ (h.dispatch hkey hv hframe hm ‹_›)
        · refine ih _ hrest fun e he => ?_
          cases mismatch with
          | some e' => exact hallows e he
          | none =>
              cases he
              exact herror ‹_›
        · exact L.throw (herror ‹_›)
  exact hrest none _ (List.Subset.refl _) fun _ he => by cases he

omit h in
/-- What a call of a request gives was given by an overload on the converted parameters. -/
theorem callFirst_gives {root : Path} {self' : ObjectRef} {params : List Value} {path : String}
    {mismatch : Option Error} {ms : List (Member σ)} {s s' : σ} {result : Live}
    (h : (Frame.callFirst root self' params path mismatch ms).Gives s (some result) s') :
    ∃ m ∈ ms, ∃ args, Frame.coerceParams root params path m.params = .ok args ∧
      (m.invoke self' args).Gives s result s' := by
  induction ms generalizing mismatch with
  | nil =>
      simp only [Frame.callFirst] at h
      split at h
      · exact absurd h Act.not_throw_gives
      · cases (Act.pure_gives.1 h).1
  | cons m rest ih =>
      simp only [Frame.callFirst] at h
      split at h
      · obtain ⟨live, hcall, hlive⟩ := Act.map_gives.1 h
        cases hlive
        exact ⟨m, List.mem_cons_self, _, ‹_›, hcall⟩
      · obtain ⟨m', hm', hcall⟩ := ih h
        exact ⟨m', List.mem_cons_of_mem m hm', hcall⟩
      · exact absurd h Act.not_throw_gives

theorem dispatch_obeys (hkey : key = dispatchKey) : L.Obeys (dispatch host sc shape self v) := by
  unfold dispatch
  split
  · exact L.throw (h.own (.plain rfl rfl))
  · rename_i request hv
    split
    · exact L.throw (h.own (.here rfl (fun _ h => by cases h) (fun _ _ h => by cases h)
        fun _ _ _ _ _ _ => .inl hkey))
    · rename_i f hfield
      refine L.bind (h.get (Shape.hasField_of_field? hfield)) fun hs hget => ?_
      split
      · exact unresolved_obeys h _
      · rename_i frame m hfind
        obtain ⟨hframe, hm⟩ := mem_of_findMember? hfind
        cases frame with
        | collection element slot => cases hm
        | object self' shape' =>
            refine L.bind (callFirst_obeys h hkey hv hframe) fun hs₁ hcall => ?_
            split
            · exact unresolved_obeys h _
            · obtain ⟨m', hm', args, hargs, hinvoke⟩ := callFirst_gives hcall
              split
              · exact h.keep hkey hv hfield hs hget hframe hm' hargs hs₁ hinvoke
              · exact L.pure _

/-- A law that the effects of a key obey is obeyed by its step. -/
theorem Effects.keyStep_obeys : L.Obeys (keyStep host sc shape self key v) := by
  unfold keyStep
  split
  · rename_i hroute
    refine L.andThen (dispatch_obeys h ?_) fun _ => L.pure _
    unfold route at hroute
    split at hroute
    · assumption
    · split at hroute
      · cases hroute
      · split at hroute <;> cases hroute
  · exact settableStep_obeys h ‹_›
  · exact readOnlyStep_obeys h ‹_›
  · exact L.andThen (memberStep_obeys h ‹_›) fun _ => L.pure _

end Steps

end BuildReplay
