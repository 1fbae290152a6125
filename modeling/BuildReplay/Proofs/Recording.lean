import BuildReplay.Proofs.Lifting
import BuildReplay.Shape.Cache

/-! # Calls on record

Beside the state of a host a list is kept of all calls of its members. What a step does to the host
is what it does without the list, and the list tells which members it called, and with what. -/

namespace BuildReplay

variable {σ α β : Type}

/-- A call of a member. -/
structure MemberCall (σ : Type) where
  self : ObjectRef
  member : Member σ
  args : List Live

/-- A state with the calls so far. -/
abbrev Recorded (σ : Type) : Type := σ × List (MemberCall σ)

/-! ## Hosts on record -/

/-- The member, which puts each of its calls on record. -/
def Member.recorded (m : Member σ) : Member (Recorded σ) where
  name := m.name
  params := m.params
  invoke self args := do
    .modify fun (s, calls) => (s, calls ++ [⟨self, m, args⟩])
    (m.invoke self args).within .fst

def Shape.recorded (shape : Shape σ) : Shape (Recorded σ) :=
  { shape.within .fst with members := shape.members.map fun ms => ms.map Member.recorded }

def Host.recorded (host : Host σ) : Host (Recorded σ) :=
  { host.within .fst with shapeOf := fun t => Shape.recorded <$> (host.shapeOf t).within .fst }

def Frame.recorded : Frame σ → Frame (Recorded σ)
  | .object self shape => .object self shape.recorded
  | .collection element slot => .collection element slot

def Scope.recorded (sc : Scope σ) : Scope (Recorded σ) :=
  ⟨sc.options, sc.path, sc.frames.map Frame.recorded⟩

theorem Shape.members?_recorded (shape : Shape σ) (name : String) :
    shape.recorded.members? name = (shape.members? name).map fun ms => ms.map Member.recorded :=
  Dictionary.get?_map _ _ _

theorem Shape.overloads_recorded (shape : Shape σ) (name : String) (arity : Nat) :
    shape.recorded.overloads name arity = (shape.overloads name arity).map Member.recorded :=
  overloads_of_map (shape.members?_recorded name) (fun _ => rfl) arity

/-- A refused key shows the same names and the same shape. -/
theorem Shape.unknownKey_recorded (shape : Shape σ) (path key : String) :
    unknownKey shape.recorded path key = unknownKey shape path key := by
  simp only [unknownKey, availableNames, fieldNames, dump, Shape.recorded, Shape.within,
    Dictionary.keys, Dictionary.values, Dictionary.map, List.map_map, List.map_flatten,
    Function.comp_def]
  rfl

/-! ## Records of acts -/

/-- The second act is the first one with calls on record: it ends in the same way and leaves the
same state, and the calls that it adds are of the given kind. -/
def Act.Records (x : Act σ α) (y : Act (Recorded σ) α) (P : List (MemberCall σ) → Prop) : Prop :=
  ∀ s before, ∃ calls, P calls ∧ y (s, before) = ((x s).1, (x s).2, before ++ calls)

/-- From one state on, the second act is the first one with calls on record, and adds just these. -/
def Act.RecordsFrom (x : Act σ α) (y : Act (Recorded σ) α) (s : σ)
    (calls : List (MemberCall σ)) : Prop :=
  ∀ before, y (s, before) = ((x s).1, (x s).2, before ++ calls)

namespace Act.RecordsFrom

variable {x : Act σ α} {y : Act (Recorded σ) α} {s s₁ : σ} {calls : List (MemberCall σ)}

/-- What does not know of the record adds nothing to it. -/
theorem silent (x : Act σ α) (s : σ) : RecordsFrom x (x.within .fst) s [] :=
  fun before => by rw [List.append_nil]; rfl

theorem throw (e : Error) (s : σ) :
    RecordsFrom (throw e : Act σ α) (throw e : Act (Recorded σ) α) s [] :=
  fun before => by rw [List.append_nil]; rfl

theorem invoke (m : Member σ) (self : ObjectRef) (args : List Live) (s : σ) :
    RecordsFrom (m.invoke self args) (m.recorded.invoke self args) s [⟨self, m, args⟩] :=
  fun _ => rfl

/-- Before an act that adds nothing. -/
theorem andThen (h : RecordsFrom x y s calls) (f : α → Act σ β) :
    RecordsFrom (x >>= f) (y >>= fun a => (f a).within .fst) s calls := by
  intro before
  rw [bind_apply, bind_apply, h before]
  rcases x s with ⟨_ | _, _⟩ <;> rfl

theorem map (h : RecordsFrom x y s calls) (f : α → β) :
    RecordsFrom (f <$> x) (f <$> y) s calls := by
  intro before
  rw [map_eq_pure_bind, map_eq_pure_bind, bind_apply, bind_apply, h before]
  rcases x s with ⟨_ | _, _⟩ <;> rfl

/-- After an act that gives a value and adds nothing. -/
theorem after {a : α} (h : x.Gives s a s₁) {f : α → Act σ β} {g : α → Act (Recorded σ) β}
    (hf : RecordsFrom (f a) (g a) s₁ calls) :
    RecordsFrom (x >>= f) (x.within .fst >>= g) s calls := by
  intro before
  have hy : (x.within .fst).Gives (s, before) a (s₁, before) := Gives.within .fst h
  rw [h.bind_eq, hy.bind_eq]
  exact hf before

end Act.RecordsFrom

/-- No call, or one of a kind. -/
inductive AtMostOne (P : MemberCall σ → Prop) : List (MemberCall σ) → Prop where
  | none : AtMostOne P []
  | one {call : MemberCall σ} : P call → AtMostOne P [call]

theorem AtMostOne.mono {P Q : MemberCall σ → Prop} (h : ∀ call, P call → Q call)
    {calls : List (MemberCall σ)} (hcalls : AtMostOne P calls) : AtMostOne Q calls := by
  cases hcalls with
  | none => exact .none
  | one hcall => exact .one (h _ hcall)

namespace Act.Records

variable {x : Act σ α} {y : Act (Recorded σ) α} {P Q : List (MemberCall σ) → Prop}

theorem mono (h : Records x y P) (hPQ : ∀ calls, P calls → Q calls) : Records x y Q := by
  intro s before
  obtain ⟨calls, hcalls, hy⟩ := h s before
  exact ⟨calls, hPQ calls hcalls, hy⟩

/-- What does not know of the record adds nothing to it. -/
theorem silent (x : Act σ α) (hP : P []) : Records x (x.within .fst) P :=
  fun s before => ⟨[], hP, by rw [List.append_nil]; rfl⟩

theorem pure (a : α) (hP : P []) :
    Records (Pure.pure a) (Pure.pure a : Act (Recorded σ) α) P :=
  fun s before => ⟨[], hP, by rw [List.append_nil]; rfl⟩

theorem throw (e : Error) (hP : P []) :
    Records (throw e : Act σ α) (throw e : Act (Recorded σ) α) P :=
  fun s before => ⟨[], hP, by rw [List.append_nil]; rfl⟩

theorem ofExcept (r : Except Error α) (hP : P []) :
    Records (.ofExcept r) (.ofExcept r : Act (Recorded σ) α) P :=
  fun s before => ⟨[], hP, by rw [List.append_nil]; rfl⟩

/-- After an act that adds nothing. -/
theorem after {f : α → Act σ β} {g : α → Act (Recorded σ) β} (x : Act σ α) (hP : P [])
    (h : ∀ a, Records (f a) (g a) P) : Records (x >>= f) (x.within .fst >>= g) P := by
  intro s before
  rcases gives_or_raises x s with ⟨a, s₁, hx⟩ | ⟨e, s₁, hx⟩
  · have hy : (x.within .fst).Gives (s, before) a (s₁, before) := Gives.within .fst hx
    rw [hx.bind_eq, hy.bind_eq]
    exact h a s₁ before
  · have hy : (x.within .fst).Raises (s, before) e (s₁, before) := Raises.within .fst hx
    refine ⟨[], hP, ?_⟩
    rw [hx.bind, hy.bind, List.append_nil]

/-- Before an act that only ends with another value. -/
theorem map (h : Records x y P) (f : α → β) : Records (f <$> x) (f <$> y) P := by
  intro s before
  obtain ⟨calls, hcalls, hy⟩ := h s before
  refine ⟨calls, hcalls, ?_⟩
  rw [map_eq_pure_bind, map_eq_pure_bind, bind_apply, bind_apply, hy]
  rcases x s with ⟨_ | _, _⟩ <;> rfl

theorem andThen_pure (h : Records x y P) (b : β) :
    Records (x >>= fun _ => Pure.pure b) (y >>= fun _ => Pure.pure b) P := by
  simpa only [map_eq_pure_bind] using h.map fun _ => b

theorem invoke (m : Member σ) (self : ObjectRef) (args : List Live) :
    Records (m.invoke self args) (m.recorded.invoke self args) (· = [⟨self, m, args⟩]) :=
  fun _ _ => ⟨_, rfl, rfl⟩

end Act.Records

/-! ## Containers

Only the shapes tell a host on record from the host seen from the larger state. -/

section Containers

variable (host : Host σ) (slot : Slot) (live : Live)

theorem Host.append_recorded :
    host.recorded.append slot live = (host.append slot live).within .fst := by
  rw [← append_within, append, append,
    show host.recorded.list? slot = (host.list? slot).map (·.within .fst) from rfl,
    show (host.within .fst).list? slot = (host.list? slot).map (·.within .fst) from rfl]

theorem Host.insert_recorded (key : String) :
    host.recorded.insert slot key live = (host.insert slot key live).within .fst := by
  rw [← insert_within, insert, insert,
    show host.recorded.map? slot = (host.map? slot).map (·.within .fst) from rfl,
    show (host.within .fst).map? slot = (host.map? slot).map (·.within .fst) from rfl]

theorem Host.setProperty_recorded :
    host.recorded.setProperty slot live = (host.setProperty slot live).within .fst := by
  rw [← setProperty_within, setProperty, setProperty,
    show host.recorded.property? slot = (host.property? slot).map (·.within .fst) from rfl,
    show (host.within .fst).property? slot = (host.property? slot).map (·.within .fst) from rfl]

theorem Host.getByName_recorded (name : String) :
    host.recorded.getByName slot name = (host.getByName slot name).within .fst := by
  rw [← getByName_within, getByName, getByName,
    show host.recorded.named? slot = (host.named? slot).map (·.within .fst) from rfl,
    show (host.within .fst).named? slot = (host.named? slot).map (·.within .fst) from rfl]

end Containers

/-! ## Resolution -/

section Resolution

variable (host : Host σ) (sc : Scope σ) (v : Value)

/-- Whether a key that fits nothing is skipped is the same on record. -/
theorem Scope.unresolved_recorded (key : String) :
    sc.recorded.unresolved key = (sc.unresolved key).within .fst := by
  rw [unresolved, unresolved, show sc.recorded.isStrict = sc.isStrict from rfl,
    show sc.recorded.keyPath = sc.keyPath from rfl]
  split
  · exact (Act.within_throw .fst _).symm
  · exact (Act.within_pure .fst _).symm

theorem invokeFactory_recorded (t : ValueType) (factory argument path : String) :
    invokeFactory host.recorded t factory argument path =
      (invokeFactory host t factory argument path).within .fst := by
  rw [← invokeFactory_within]
  unfold invokeFactory
  split
  · rfl
  · simp only [Host.recorded, Host.within, bind_map_left]
    rfl
  · rfl

theorem Frame.resolve_recorded (f : Frame σ) (t : ValueType) (path : String) :
    f.recorded.resolve host.recorded v t path = (f.resolve host v t path).within .fst := by
  rw [← resolve_within]
  cases f with
  | object self shape =>
      simp only [recorded, within, resolve, invokeFactory_recorded, invokeFactory_within]
  | collection element slot =>
      simp only [recorded, within, resolve, Host.getByName_recorded, Host.getByName_within]

theorem resolveSymbol_recorded (t : ValueType) (path : String) (frames : List (Frame σ)) :
    resolveSymbol host.recorded v t path (frames.map Frame.recorded) =
      (resolveSymbol host v t path frames).within .fst := by
  rw [← resolveSymbol_within]
  induction frames with
  | nil => simp only [List.map_nil, resolveSymbol]
  | cons f outer ih =>
      simp only [List.map_cons, resolveSymbol, Frame.resolve_recorded, Frame.resolve_within, ih]

theorem resolveArgument_recorded (t : ValueType) :
    resolveArgument host.recorded sc.recorded t v = (resolveArgument host sc t v).within .fst := by
  rw [← resolveArgument_within]
  simp only [resolveArgument, invokeFactory_recorded, invokeFactory_within, Scope.recorded,
    Scope.within, Scope.keyPath, resolveSymbol_recorded, resolveSymbol_within]

theorem resolveValue_recorded (t : ValueType) :
    resolveValue host.recorded sc.recorded t v = (resolveValue host sc t v).within .fst := by
  rw [← resolveValue_within]
  simp only [resolveValue, Scope.recorded, Scope.within, Scope.keyPath, resolveSymbol_recorded,
    resolveSymbol_within]

end Resolution

/-! ## Steps -/

section Steps

variable (host : Host σ) (sc : Scope σ) (shape : Shape σ) (self : ObjectRef) (f : Field σ)
  (key : String) (v : Value)

theorem appendAll_recorded (slot : Slot) (element : ValueType) (index : Nat) (items : List Value) :
    appendAll host.recorded sc.recorded slot element index items =
      (appendAll host sc slot element index items).within .fst := by
  rw [← appendAll_within]
  induction items generalizing index with
  | nil => simp only [appendAll]
  | cons v rest ih =>
      simp only [appendAll, Host.append_recorded, Host.append_within, Scope.recorded, Scope.within,
        Scope.keyPath] at ih ⊢
      simp only [ih]

theorem insertAll_recorded (slot : Slot) (value : ValueType) (t : Table) :
    insertAll host.recorded sc.recorded slot value t =
      (insertAll host sc slot value t).within .fst := by
  rw [← insertAll_within]
  induction t with
  | nil => simp only [insertAll]
  | cons e rest ih =>
      simp only [insertAll, Host.insert_recorded, Host.insert_within, Scope.recorded, Scope.within,
        Scope.keyPath] at ih ⊢
      simp only [ih]

theorem elementsStep_recorded (live : Live) :
    elementsStep sc.recorded shape.recorded (f.within .fst) live v =
      elementsStep sc shape f live v := by
  cases live <;> rfl

/-- Writing a field calls its setter at most, and only where the field cannot be written itself. -/
theorem assign_records :
    (assign host sc shape self f key v).Records
      (assign host.recorded sc.recorded shape.recorded self (f.within .fst) key v)
      (AtMostOne fun call => f.write? = none ∧ call.self = self ∧
        call.member ∈ shape.overloads (setterName key) 1 ∧ ∃ live, call.args = [live]) := by
  unfold assign
  rw [resolveValue_recorded]
  refine .after _ .none fun live => ?_
  rw [show (f.within .fst).write? = f.write?.map fun write r v => (write r v).within .fst from rfl]
  cases hwrite : f.write? with
  | some write => exact .silent _ .none
  | none =>
      simp only [Option.map_none, Shape.overloads_recorded, List.head?_map]
      cases hm : (shape.overloads (setterName key) 1).head? with
      | some m =>
          refine ((Act.Records.invoke m self [live]).map fun _ => ()).mono ?_
          rintro calls rfl
          exact .one ⟨trivial, rfl, List.mem_of_head? hm, live, rfl⟩
      | none => exact .throw _ .none

theorem settableStep_records :
    (settableStep host sc shape self f key v).Records
      (settableStep host.recorded sc.recorded shape.recorded self (f.within .fst) key v)
      (AtMostOne fun call => f.write? = none ∧ call.self = self ∧
        call.member ∈ shape.overloads (setterName key) 1 ∧ ∃ live, call.args = [live]) := by
  unfold settableStep
  rw [show (f.within .fst).type = f.type from rfl]
  split
  · rw [Field.get_within]
    simp only [elementsStep_recorded]
    exact .after _ .none fun live => .ofExcept _ .none
  · rw [Field.get_within]
    refine .after _ .none fun live => ?_
    cases live with
    | property slot =>
        dsimp only
        rw [resolveValue_recorded]
        refine .after _ .none fun resolved => ?_
        rw [Host.setProperty_recorded]
        exact (Act.Records.silent _ AtMostOne.none).andThen_pure _
    | _ => exact .throw _ .none
  · rw [Field.get_within]
    refine .after _ .none fun live => ?_
    cases live with
    | list slot =>
        dsimp only
        rw [appendAll_recorded]
        exact (Act.Records.silent _ AtMostOne.none).andThen_pure _
    | _ => exact .throw _ .none
  · rw [Field.get_within]
    refine .after _ .none fun live => ?_
    cases live with
    | map slot =>
        dsimp only
        rw [insertAll_recorded]
        exact (Act.Records.silent _ AtMostOne.none).andThen_pure _
    | _ => exact .throw _ .none
  · rw [Field.get_within]
    refine .after _ .none fun live => ?_
    split
    · exact .pure _ .none
    · unfold Scope.unsetObject
      rw [show sc.recorded.isStrict = sc.isStrict from rfl]
      split
      · exact .throw _ .none
      · exact .pure _ .none
    · exact (assign_records host sc shape self f key _).andThen_pure _
  · exact (assign_records host sc shape self f key _).andThen_pure _

/-- A read-only field calls nothing. -/
theorem readOnlyStep_recorded :
    readOnlyStep host.recorded sc.recorded shape.recorded self (f.within .fst) v =
      (readOnlyStep host sc shape self f v).within .fst := by
  have hcontained : sc.recorded.contained shape.recorded (f.within .fst) = sc.contained shape f :=
    rfl
  unfold readOnlyStep
  rw [Act.within_bind, Field.get_within]
  congr 1
  funext live
  split
  · rw [elementsStep_recorded, Act.within_ofExcept]
  · simp only [Act.within_bind, Act.within_pure, Act.within_ofExcept, hcontained,
      insertAll_recorded]
  · rw [Act.within_pure]
  · simp only [Act.within_bind, Act.within_pure, Act.within_ofExcept, hcontained,
      appendAll_recorded]
  · split
    · exact (Act.within_throw _ _).symm
    · simp only [Act.within_bind, Act.within_pure, Act.within_ofExcept, hcontained,
        Host.append_recorded]
      rfl
  · simp only [Act.within_bind, Act.within_pure, Act.within_ofExcept, hcontained,
      resolveValue_recorded, Host.setProperty_recorded]
  · exact (Act.within_throw _ _).symm

theorem invokeFirst_records (first : Option Live) (mismatch : Option Error) (ms : List (Member σ)) :
    (invokeFirst host sc self key v first mismatch ms).Records
      (invokeFirst host.recorded sc.recorded self key v first mismatch (ms.map Member.recorded))
      (AtMostOne fun call => call.self = self ∧ call.member ∈ ms ∧
        call.member.arity = first.toList.length + 1 ∧
        ∃ argument, call.args = first.toList ++ [argument]) := by
  have hrest : ∀ mismatch, ∀ rest ⊆ ms, (invokeFirst host sc self key v first mismatch rest).Records
      (invokeFirst host.recorded sc.recorded self key v first mismatch (rest.map Member.recorded))
      (AtMostOne fun call => call.self = self ∧ call.member ∈ ms ∧
        call.member.arity = first.toList.length + 1 ∧
        ∃ argument, call.args = first.toList ++ [argument]) := by
    intro mismatch rest hsub
    induction rest generalizing mismatch with
    | nil =>
        cases mismatch with
        | some e => exact .throw _ .none
        | none =>
            change (sc.unresolved key).Records (sc.recorded.unresolved key) _
            unfold Scope.unresolved
            rw [show sc.recorded.isStrict = sc.isStrict from rfl]
            split
            · exact .throw _ .none
            · exact .pure _ .none
    | cons m rest ih =>
        obtain ⟨hm, hrest⟩ := List.cons_subset.1 hsub
        simp only [List.map_cons, invokeFirst]
        rw [show m.recorded.arity = m.arity from rfl, show m.recorded.params = m.params from rfl]
        split
        · rename_i harity
          rw [resolveArgument_recorded, ← Act.within_attempt]
          refine .after _ .none fun r => ?_
          split
          · rename_i argument
            have hinvoke := Act.Records.invoke m self (first.toList ++ [argument])
            refine (hinvoke.map fun _ => ()).mono ?_
            rintro calls rfl
            exact .one ⟨rfl, hm, harity, argument, rfl⟩
          · exact ih _ hrest
          · exact ih _ hrest
          · exact .throw _ .none
        · exact ih _ hrest
  exact hrest mismatch ms (List.Subset.refl _)

end Steps

end BuildReplay
