import BuildReplay.Proofs.Position

/-! # One key at two paths

What a key does never depends on the path that it stands at: the path is read into errors and into
nothing else. So the steps of a key at two paths do the same, and where they end with errors of
their own, these stand at the same place below the two paths. -/

namespace BuildReplay

variable {σ α β : Type} {p q : String}

/-! ## Errors at two paths -/

/-- The error at another path; an error that has none stays as it is. -/
def Error.withPath (path : String) : Error → Error
  | .unknownDeclarationKey _ key typeName available shape =>
    .unknownDeclarationKey path key typeName available shape
  | .malformedDispatch _ reason => .malformedDispatch path reason
  | .malformedVariantSelector _ callback variant => .malformedVariantSelector path callback variant
  | .unsupportedCoercion _ target found => .unsupportedCoercion path target found
  | .missingValue _ => .missingValue path
  | .unassignableField _ field typeName reason => .unassignableField path field typeName reason
  | .unresolvedArgument _ key => .unresolvedArgument path key
  | .invalidDeclaration _ reason => .invalidDeclaration path reason
  | e => e

/-- The paths lead to the same place, one from `p` and the other from `q`. -/
def SamePlace (p q path path' : String) : Prop := ∃ rest, path = p ++ rest ∧ path' = q ++ rest

namespace SamePlace

variable {path path' : String}

theorem refl (p q : String) : SamePlace p q p q :=
  ⟨"", String.append_empty.symm, String.append_empty.symm⟩

theorem append (h : SamePlace p q path path') (s : String) :
    SamePlace p q (path ++ s) (path' ++ s) := by
  obtain ⟨rest, rfl, rfl⟩ := h
  exact ⟨rest ++ s, String.append_assoc, String.append_assoc⟩

theorem itemPath (h : SamePlace p q path path') (i : Nat) :
    SamePlace p q (itemPath path i) (BuildReplay.itemPath path' i) :=
  ((h.append "[").append (toString i)).append "]"

end SamePlace

/-- The errors are the same, or differ in paths that lead to the same place. -/
inductive Error.Moved (p q : String) : Error → Error → Prop where
  | same (e : Error) : Moved p q e e
  | moved (e : Error) {path path' : String} :
      SamePlace p q path path' → Moved p q (e.withPath path) (e.withPath path')

/-- The results are the same value, or errors that differ in their paths at most. -/
inductive SameResult (p q : String) : Except Error α → Except Error α → Prop where
  | ok (a : α) : SameResult p q (.ok a) (.ok a)
  | error {e e' : Error} : e.Moved p q e' → SameResult p q (.error e) (.error e')

namespace SameResult

theorem refl (p q : String) (r : Except Error α) : SameResult p q r r := by
  cases r with
  | ok a => exact .ok a
  | error e => exact .error (.same e)

theorem bind {r r' : Except Error α} {f g : α → Except Error β} (h : SameResult p q r r')
    (hfg : ∀ a, SameResult p q (f a) (g a)) : SameResult p q (r >>= f) (r' >>= g) := by
  cases h with
  | ok a => exact hfg a
  | error he => exact .error he

theorem map {r r' : Except Error α} (h : SameResult p q r r') (f : α → β) :
    SameResult p q (r.map f) (r'.map f) := by
  cases h with
  | ok a => exact .ok (f a)
  | error he => exact .error he

/-- The items of a list, one after the other. -/
theorem mapM {f g : α → Except Error β} {l : List α} (h : ∀ a, SameResult p q (f a) (g a)) :
    SameResult p q (l.mapM f) (l.mapM g) := by
  induction l with
  | nil => exact .ok []
  | cons a l ih =>
      rw [List.mapM_cons, List.mapM_cons]
      exact (h a).bind fun b => ih.bind fun bs => .ok (b :: bs)

end SameResult

/-! ## Acts at two paths -/

namespace Act

/-- From the state on, the acts leave the same state and end with the same result, but for the path
of an error. -/
def ParallelFrom (p q : String) (s : σ) (x y : Act σ α) : Prop :=
  SameResult p q (x s).1 (y s).1 ∧ (x s).2 = (y s).2

/-- The acts run in parallel from every state on. -/
def Parallel (p q : String) (x y : Act σ α) : Prop := ∀ s, ParallelFrom p q s x y

theorem ParallelFrom.bind {x y : Act σ α} {f g : α → Act σ β} {s : σ}
    (h : ParallelFrom p q s x y) (hfg : ∀ a s', x.Gives s a s' → ParallelFrom p q s' (f a) (g a)) :
    ParallelFrom p q s (x >>= f) (y >>= g) := by
  obtain ⟨hresult, hstate⟩ := h
  rw [ParallelFrom, bind_apply, bind_apply]
  rcases hx : x s with ⟨r, s₁⟩
  rcases hy : y s with ⟨r', s₂⟩
  rw [hx, hy] at hresult hstate
  obtain rfl : s₁ = s₂ := hstate
  cases hresult with
  | ok a => exact hfg a s₁ hx
  | error he => exact ⟨.error he, rfl⟩

theorem ParallelFrom.gives {x y : Act σ α} {s s' : σ} {a : α} (h : ParallelFrom p q s x y)
    (hx : x.Gives s a s') : y.Gives s a s' := by
  obtain ⟨hresult, hstate⟩ := h
  rw [hx] at hresult hstate
  rcases hy : y s with ⟨r, s₂⟩
  rw [hy] at hresult hstate
  obtain rfl : s' = s₂ := hstate
  cases hresult
  exact hy

namespace Parallel

variable {x y : Act σ α}

theorem refl (p q : String) (x : Act σ α) : Parallel p q x x := fun _ => ⟨.refl p q _, rfl⟩

theorem throw {e e' : Error} (h : e.Moved p q e') :
    Parallel p q (throw e : Act σ α) (throw e' : Act σ α) :=
  fun _ => ⟨.error h, rfl⟩

theorem ofExcept {r r' : Except Error α} (h : SameResult p q r r') :
    Parallel p q (.ofExcept r : Act σ α) (.ofExcept r') :=
  fun _ => ⟨h, rfl⟩

theorem bind {f g : α → Act σ β} (h : Parallel p q x y) (hfg : ∀ a, Parallel p q (f a) (g a)) :
    Parallel p q (x >>= f) (y >>= g) :=
  fun s => (h s).bind fun a s' _ => hfg a s'

theorem map (h : Parallel p q x y) (f : α → β) : Parallel p q (f <$> x) (f <$> y) := by
  rw [map_eq_pure_bind, map_eq_pure_bind]
  exact h.bind fun a => .refl p q _

/-- Acts whose results are looked at, errors included. -/
theorem attempt_bind {f g : Except Error α → Act σ β} (h : Parallel p q x y)
    (hfg : ∀ {r r'}, SameResult p q r r' → Parallel p q (f r) (g r')) :
    Parallel p q (x.attempt >>= f) (y.attempt >>= g) := by
  intro s
  obtain ⟨hresult, hstate⟩ := h s
  have hf : x.attempt.Gives s (x s).1 (x s).2 := attempt_gives.2 rfl
  have hg : y.attempt.Gives s (y s).1 (y s).2 := attempt_gives.2 rfl
  rw [ParallelFrom, hf.bind_eq, hg.bind_eq, ← hstate]
  exact hfg hresult _

end Parallel

end Act

open Act (Parallel)

/-! ## Resolution -/

section Resolution

variable {host : Host σ} {path path' : String} (hpath : SamePlace p q path path')
include hpath

theorem coerce_sameResult (root : Path) (v? : Option Value) (t : ValueType) :
    SameResult p q (coerce root v? t path) (coerce root v? t path') := by
  unfold coerce
  split
  · exact .error (.moved (.missingValue "") hpath)
  · split
    · exact .ok _
    · exact .error (.moved (.unsupportedCoercion "" _ _) hpath)

theorem enumConstant_sameResult (e : EnumRef) (argument : String) :
    SameResult p q (enumConstant e argument path) (enumConstant e argument path') := by
  unfold enumConstant
  split
  · exact .ok _
  · exact .error (.moved (.unsupportedCoercion "" _ _) hpath)

theorem invokeFactory_parallel (t : ValueType) (factory argument : String) :
    Parallel p q (invokeFactory host t factory argument path)
      (invokeFactory host t factory argument path') := by
  unfold invokeFactory
  split
  · split
    · exact .ofExcept ((enumConstant_sameResult hpath _ _).map some)
    · exact .refl p q _
  · exact .refl p q _
  · exact .refl p q _

theorem Frame.resolve_parallel (v : Value) (t : ValueType) (f : Frame σ) :
    Parallel p q (f.resolve host v t path) (f.resolve host v t path') := by
  cases f with
  | object self shape =>
      simp only [Frame.resolve]
      split
      · exact invokeFactory_parallel hpath _ _ _
      · exact .refl p q _
  | collection element slot => exact .refl p q _

theorem resolveSymbol_parallel (v : Value) (t : ValueType) (frames : List (Frame σ)) :
    Parallel p q (resolveSymbol host v t path frames) (resolveSymbol host v t path' frames) := by
  induction frames with
  | nil => exact .refl p q _
  | cons f outer ih =>
      refine (Frame.resolve_parallel hpath v t f).bind fun live? => ?_
      cases live? with
      | some live => exact .refl p q _
      | none => exact ih

theorem coerceParams_sameResult (root : Path) (params : List Value) (types : List ValueType) :
    SameResult p q (Frame.coerceParams root params path types)
      (Frame.coerceParams root params path' types) :=
  .mapM fun e => coerce_sameResult (hpath.itemPath e.2) root _ e.1

end Resolution

/-- Of the errors that are remembered the first one counts. -/
theorem orElse_moved {e? e'? : Option Error} (h : Option.Rel (Error.Moved p q) e? e'?)
    {e e' : Error} (he : e.Moved p q e') :
    Option.Rel (Error.Moved p q) (e? <|> some e) (e'? <|> some e') := by
  cases h with
  | some h => exact .some h
  | none => exact .some he

theorem Frame.callFirst_parallel {path path' : String} (hpath : SamePlace p q path path')
    (root : Path) (self : ObjectRef) (params : List Value) (ms : List (Member σ))
    {e? e'? : Option Error} (he : Option.Rel (Error.Moved p q) e? e'?) :
    Parallel p q (Frame.callFirst root self params path e? ms)
      (Frame.callFirst root self params path' e'? ms) := by
  induction ms generalizing e? e'? with
  | nil =>
      cases he with
      | some he => exact .throw he
      | none => exact .refl p q _
  | cons m rest ih =>
      have hargs := coerceParams_sameResult hpath root params m.params
      simp only [Frame.callFirst]
      generalize Frame.coerceParams root params path m.params = r at hargs ⊢
      generalize Frame.coerceParams root params path' m.params = r' at hargs ⊢
      cases hargs with
      | ok args => exact .refl p q _
      | @error e e' hmoved =>
          cases hmoved with
          | same =>
              cases e with
              | unsupportedCoercion path target found => exact ih (orElse_moved he (.same _))
              | _ => exact .throw (.same _)
          | moved e hplace =>
              cases e with
              | unsupportedCoercion path target found =>
                  exact ih
                    (orElse_moved he (.moved (.unsupportedCoercion path target found) hplace))
              | _ => exact .throw (.moved _ hplace)

/-! ## Steps -/

namespace Scope

/-- The scope of the same key at another path. -/
def placed (sc : Scope σ) (path : List String) : Scope σ := { sc with path }

/-- The other path leads to where the scope is. Neither is that of a whole document. -/
structure Facing (p q : String) (sc : Scope σ) (path : List String) : Prop where
  ne_nil : sc.path ≠ []
  other_ne_nil : path ≠ []
  place : SamePlace p q sc.keyPath (sc.placed path).keyPath

namespace Facing

variable {sc : Scope σ} {path : List String}

theorem key (h : Facing p q sc path) (k : String) : Facing p q (sc.key k) (path ++ [k]) where
  ne_nil := by simp [Scope.key]
  other_ne_nil := by simp
  place := by
    have hplace := (h.place.append ".").append k
    simp only [keyPath, placed] at hplace
    rwa [intercalate_snoc h.ne_nil, intercalate_snoc h.other_ne_nil] at hplace

theorem enter (h : Facing p q sc path) (f : Frame σ) : Facing p q (sc.enter f) path :=
  ⟨h.ne_nil, h.other_ne_nil, h.place⟩

end Facing

end Scope

section Steps

variable {host : Host σ} {sc : Scope σ} {path : List String} {shape : Shape σ} {f : Field σ}
  {self : ObjectRef} {key : String} {v : Value}
  (h : SamePlace p q sc.keyPath (sc.placed path).keyPath)
include h

theorem resolveArgument_parallel (t : ValueType) :
    Parallel p q (resolveArgument host sc t v) (resolveArgument host (sc.placed path) t v) := by
  unfold resolveArgument
  split
  · split
    · exact invokeFactory_parallel h _ _ _
    · exact .refl p q _
  · split
    · exact (Parallel.ofExcept (coerce_sameResult h _ _ _)).map some
    · exact resolveSymbol_parallel h _ _ _

theorem resolveValue_parallel (t : ValueType) :
    Parallel p q (resolveValue host sc t v) (resolveValue host (sc.placed path) t v) := by
  unfold resolveValue
  split
  · refine (resolveSymbol_parallel h _ _ _).bind fun live? => ?_
    cases live? with
    | some live => exact .refl p q _
    | none => exact .throw (.moved (.unsupportedCoercion "" _ _) h)
  · exact .ofExcept (coerce_sameResult h _ _ _)

theorem unresolved_parallel (key : String) :
    Parallel p q (sc.unresolved key) ((sc.placed path).unresolved key) := by
  unfold Scope.unresolved
  by_cases hstrict : sc.isStrict
  · rw [if_pos hstrict, if_pos (show (sc.placed path).isStrict from hstrict)]
    exact .throw (.moved (.unresolvedArgument "" key) h)
  · rw [if_neg hstrict, if_neg (show ¬(sc.placed path).isStrict from hstrict)]
    exact .refl p q _

theorem unassignable_moved (shape : Shape σ) (f : Field σ) (reason : String) :
    (sc.unassignable shape f reason).Moved p q ((sc.placed path).unassignable shape f reason) :=
  .moved (.unassignableField "" f.name shape.type.name reason) h

theorem unsetObject_parallel (shape : Shape σ) (f : Field σ) :
    Parallel p q (sc.unsetObject shape f) ((sc.placed path).unsetObject shape f) := by
  unfold Scope.unsetObject
  by_cases hstrict : sc.isStrict
  · rw [if_pos hstrict, if_pos (show (sc.placed path).isStrict from hstrict)]
    exact .throw (unassignable_moved h shape f _)
  · rw [if_neg hstrict, if_neg (show ¬(sc.placed path).isStrict from hstrict)]
    exact .refl p q _

theorem contained_parallel (shape : Shape σ) (f : Field σ) :
    Parallel p q (.ofExcept (sc.contained shape f) : Act σ ValueType)
      (.ofExcept ((sc.placed path).contained shape f)) := by
  refine .ofExcept ?_
  unfold Scope.contained
  split
  · exact .ok _
  · exact .error (unassignable_moved h shape f _)

theorem elementsStep_sameResult (live : Live) :
    SameResult p q (elementsStep sc shape f live v)
      (elementsStep (sc.placed path) shape f live v) := by
  unfold elementsStep
  split
  · split
    · exact .ok _
    · exact .error (.moved (.invalidDeclaration "" _) h)
  · exact .error (unassignable_moved h shape f _)

theorem appendAll_parallel (slot : Slot) (element : ValueType) (index : Nat) (items : List Value) :
    Parallel p q (appendAll host sc slot element index items)
      (appendAll host (sc.placed path) slot element index items) := by
  induction items generalizing index with
  | nil => exact .refl p q _
  | cons v rest ih =>
      refine (Parallel.ofExcept (coerce_sameResult (h.itemPath index) _ _ _)).bind fun item => ?_
      exact (Parallel.refl p q _).bind fun _ => ih _

theorem insertAll_parallel (slot : Slot) (value : ValueType) (t : Table) :
    Parallel p q (insertAll host sc slot value t)
      (insertAll host (sc.placed path) slot value t) := by
  induction t with
  | nil => exact .refl p q _
  | cons e rest ih =>
      obtain ⟨key, v⟩ := e
      refine (Parallel.ofExcept (coerce_sameResult ((h.append ".").append key) _ _ _)).bind
        fun item => ?_
      exact (Parallel.refl p q _).bind fun _ => ih

theorem assign_parallel :
    Parallel p q (assign host sc shape self f key v)
      (assign host (sc.placed path) shape self f key v) := by
  refine (resolveValue_parallel h f.type).bind fun live => ?_
  split
  · exact .refl p q _
  · split
    · exact .refl p q _
    · exact .throw (unassignable_moved h shape f _)

/-- A settable field at two paths and under two keys. Only a plain write sees the key. -/
theorem settableStep_parallel_or_assigns (key key' : String) (s : σ) :
    Act.ParallelFrom p q s (settableStep host sc shape self f key v)
        (settableStep host (sc.placed path) shape self f key' v) ∨
      settableStep host sc shape self f key v s =
          (do assign host sc shape self f key v; return Next.done : Act σ Next) s ∧
        settableStep host (sc.placed path) shape self f key' v s =
          (do assign host (sc.placed path) shape self f key' v; return Next.done : Act σ Next) s := by
  unfold settableStep
  split
  · left
    exact (Parallel.refl p q _).bind (fun live => .ofExcept (elementsStep_sameResult h live)) s
  · left
    refine (Parallel.refl p q _).bind (fun live => ?_) s
    split
    · exact (resolveValue_parallel h _).bind fun live => .refl p q _
    · exact .throw (unassignable_moved h shape f _)
  · left
    refine (Parallel.refl p q _).bind (fun live => ?_) s
    split
    · exact (appendAll_parallel h _ _ _ _).bind fun _ => .refl p q _
    · exact .throw (unassignable_moved h shape f _)
  · left
    refine (Parallel.refl p q _).bind (fun live => ?_) s
    split
    · exact (insertAll_parallel h _ _ _).bind fun _ => .refl p q _
    · exact .throw (unassignable_moved h shape f _)
  · rcases Act.gives_or_raises (f.get self) s with ⟨live, s', hget⟩ | ⟨e, s', hget⟩
    · obtain ⟨-, rfl⟩ := Act.readExcept_gives.1 hget
      rw [Act.ParallelFrom, hget.bind_eq, hget.bind_eq]
      cases live with
      | object r => exact .inl (Parallel.refl p q _ s)
      | nothing =>
          generalize htype : f.type = type
          cases type with
          | object t => exact .inl (unsetObject_parallel h shape f s)
          | _ => exact .inr ⟨rfl, rfl⟩
      | _ => exact .inr ⟨rfl, rfl⟩
    · left
      rw [Act.ParallelFrom, hget.bind, hget.bind]
      exact ⟨.refl p q _, rfl⟩
  · exact .inr ⟨rfl, rfl⟩

theorem settableStep_parallel :
    Parallel p q (settableStep host sc shape self f key v)
      (settableStep host (sc.placed path) shape self f key v) := by
  intro s
  rcases settableStep_parallel_or_assigns h key key s with hparallel | ⟨hassign, hassign'⟩
  · exact hparallel
  · rw [Act.ParallelFrom, hassign, hassign']
    exact (assign_parallel h).bind (fun _ => .refl p q _) s

theorem readOnlyStep_parallel :
    Parallel p q (readOnlyStep host sc shape self f v)
      (readOnlyStep host (sc.placed path) shape self f v) := by
  have hrefused : ∀ live : Live, Parallel p q
      (throw (readOnlyStep.refused sc shape f live v) : Act σ Next)
      (throw (readOnlyStep.refused (sc.placed path) shape f live v)) :=
    fun live => .throw (unassignable_moved h shape f _)
  unfold readOnlyStep
  refine (Parallel.refl p q _).bind fun live => ?_
  split
  · exact .ofExcept (elementsStep_sameResult h _)
  · refine (contained_parallel h shape f).bind fun value => ?_
    exact (insertAll_parallel h _ _ _).bind fun _ => .refl p q _
  · exact .refl p q _
  · refine (contained_parallel h shape f).bind fun element => ?_
    exact (appendAll_parallel h _ _ _ _).bind fun _ => .refl p q _
  · split
    · exact hrefused _
    · refine (contained_parallel h shape f).bind fun element => ?_
      exact (Parallel.ofExcept (coerce_sameResult h _ _ _)).bind fun item => .refl p q _
  · refine (contained_parallel h shape f).bind fun inner => ?_
    exact (resolveValue_parallel h inner).bind fun live => .refl p q _
  · exact hrefused _

theorem invokeFirst_parallel (first : Option Live) (ms : List (Member σ)) {e? e'? : Option Error}
    (he : Option.Rel (Error.Moved p q) e? e'?) :
    Parallel p q (invokeFirst host sc self key v first e? ms)
      (invokeFirst host (sc.placed path) self key v first e'? ms) := by
  induction ms generalizing e? e'? with
  | nil =>
      cases he with
      | some he => exact .throw he
      | none => exact unresolved_parallel h key
  | cons m rest ih =>
      simp only [invokeFirst]
      split
      · refine (resolveArgument_parallel h _).attempt_bind fun hargument => ?_
        cases hargument with
        | ok argument? =>
            cases argument? with
            | some argument => exact .refl p q _
            | none => exact ih he
        | @error e e' hmoved =>
            cases hmoved with
            | same =>
                cases e with
                | unsupportedCoercion path target found => exact ih (orElse_moved he (.same _))
                | _ => exact .throw (.same _)
            | moved e hplace =>
                cases e with
                | unsupportedCoercion path target found =>
                    exact ih
                      (orElse_moved he (.moved (.unsupportedCoercion path target found) hplace))
                | _ => exact .throw (.moved _ hplace)
      · exact ih he

theorem memberStep_parallel :
    Parallel p q (memberStep host sc shape self key v)
      (memberStep host (sc.placed path) shape self key v) := by
  unfold memberStep
  split
  · exact invokeFirst_parallel h _ _ .none
  · split
    · exact invokeFirst_parallel h _ _ .none
    · exact .throw (.moved (.unknownDeclarationKey "" _ _ _ _) h)

theorem dispatch_parallel :
    Parallel p q (dispatch host sc shape self v) (dispatch host (sc.placed path) shape self v) := by
  unfold dispatch
  split
  · exact .throw (.moved (.malformedDispatch "" _) h)
  · rename_i request _
    split
    · exact .throw (.moved (.unknownDeclarationKey "" _ _ _ _) h)
    · refine (Parallel.refl p q _).bind fun target => ?_
      rw [show (sc.placed path).frames = sc.frames from rfl]
      split
      · exact unresolved_parallel h request.method
      · rename_i frame _ _
        have hcall : Parallel p q
            (frame.callMember sc.options.projectRoot request.method request.params sc.keyPath)
            (frame.callMember sc.options.projectRoot request.method request.params
              (sc.placed path).keyPath) := by
          cases frame with
          | object self shape => exact Frame.callFirst_parallel h _ _ _ _ .none
          | collection element slot => exact .refl p q _
        refine hcall.bind fun result? => ?_
        cases result? with
        | none => exact unresolved_parallel h request.method
        | some result => exact .refl p q _

/-- The step of a key does the same at two paths, and leaves the same to walk. -/
theorem keyStep_parallel :
    Parallel p q (keyStep host sc shape self key v)
      (keyStep host (sc.placed path) shape self key v) := by
  unfold keyStep
  split
  · exact (dispatch_parallel h).bind fun _ => .refl p q _
  · exact settableStep_parallel h
  · exact readOnlyStep_parallel h
  · exact (memberStep_parallel h).bind fun _ => .refl p q _

end Steps

end BuildReplay
