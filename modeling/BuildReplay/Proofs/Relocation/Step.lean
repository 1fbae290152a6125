import BuildReplay.Proofs.Position
import BuildReplay.Proofs.Relocation.Mirror

/-! # One key from two roots

The root of a project is asked for in one place only, where a text becomes a path. So the steps of a
key from two roots go side by side: they differ in the paths that they hand to the host. -/

namespace BuildReplay

open Act (Mirrors)

variable {σ : Type}

/-! ## Texts of a document -/

/-- The text stands in the value. -/
inductive Value.Mentions (s : String) : Value → Prop where
  | here : Mentions s (.string s)
  | item {items : List Value} {v : Value} : v ∈ items → Mentions s v → Mentions s (.array items)
  | entry {t : Table} {key : String} {v : Value} : (key, v) ∈ t → Mentions s v →
      Mentions s (.table t)

variable {R : Path → Path → Prop} {root root' : Path}

/-- Seen from the two roots, the texts of the value are related paths. -/
def Value.Relocates (R : Path → Path → Prop) (root root' : Path) (v : Value) : Prop :=
  ∀ s, v.Mentions s → R (resolvePath root s) (resolvePath root' s)

namespace Value.Relocates

theorem item {items : List Value} (h : Relocates R root root' (.array items)) {v : Value}
    (hv : v ∈ items) : v.Relocates R root root' :=
  fun s hs => h s (.item hv hs)

theorem entry {t : Table} (h : Relocates R root root' (.table t)) {key : String} {v : Value}
    (hv : (key, v) ∈ t) : v.Relocates R root root' :=
  fun s hs => h s (.entry hv hs)

theorem head {t : Table} {key : String} {v : Value}
    (h : Relocates R root root' (.table ((key, v) :: t))) : v.Relocates R root root' :=
  h.entry List.mem_cons_self

theorem tail {t : Table} {e : String × Value} (h : Relocates R root root' (.table (e :: t))) :
    Relocates R root root' (.table t) := by
  intro s hs
  cases hs with
  | entry hv hs => exact h s (.entry (List.mem_cons_of_mem _ hv) hs)

theorem get? {t : Table} (h : Relocates R root root' (.table t)) {key : String} {v : Value}
    (hv : t.get? key = some v) : v.Relocates R root root' := by
  obtain ⟨e, he, rfl⟩ := Option.map_eq_some_iff.1 hv
  exact h.entry (List.mem_of_find?_eq_some he)

theorem param {v : Value} (h : v.Relocates R root root') {request : DispatchRequest}
    (hv : DispatchRequest.ofValue v = .ok request) {u : Value} (hu : u ∈ request.params) :
    u.Relocates R root root' := by
  obtain ⟨t, rfl, hparams⟩ := DispatchRequest.params_of_lt hv (List.length_pos_of_mem hu)
  exact (h.get? hparams).item hu

end Value.Relocates

/-! ## Conversions -/

section Conversions

variable {v : Value}

/-- Only a text becomes something else from another root, and only as a path. -/
theorem convert?_relocates (h : v.Relocates R root root') (t : ValueType) :
    Option.Rel (Live.Alike R) (convert? root t v) (convert? root' t v) := by
  have hrefl : ∀ r : Option Live, Option.Rel (Live.Alike R) r r := by
    intro r
    cases r with
    | none => exact .none
    | some live => exact .some (.refl live)
  cases t with
  | path =>
      cases v with
      | string s => exact .some (.path (h s .here))
      | _ => exact .none
  | _ => cases v <;> exact hrefl _

theorem coerce_relocates (h : v.Relocates R root root') (t : ValueType) (path : String) :
    Outcome (Live.Alike R) (coerce root (some v) t path) (coerce root' (some v) t path) := by
  have hconvert := convert?_relocates h t
  simp only [coerce]
  generalize convert? root t v = r at hconvert ⊢
  generalize convert? root' t v = r' at hconvert ⊢
  cases hconvert with
  | some hlive => exact .ok hlive
  | none => exact .error (.refl _)

theorem coerceParams_relocates {params : List Value} (h : ∀ v ∈ params, v.Relocates R root root')
    (path : String) (types : List ValueType) :
    Outcome (List.Forall₂ (Live.Alike R)) (Frame.coerceParams root params path types)
      (Frame.coerceParams root' params path types) := by
  refine Outcome.mapM fun e _ => ?_
  obtain ⟨t, i⟩ := e
  dsimp only [coerceItem]
  cases hi : params[i]? with
  | none => exact .error (.refl _)
  | some v => exact coerce_relocates (h v (List.mem_of_getElem? hi)) t _

end Conversions

/-! ## Hosts -/

/-- All that a type does from related states goes side by side. -/
structure Shape.Mirrored (S : σ → σ → Prop) (R : Path → Path → Prop) (shape : Shape σ) :
    Prop where
  read : ∀ {f}, shape.HasField f → ∀ r {s t}, S s t →
    Outcome (Live.Alike R) (f.read r s) (f.read r t)
  write : ∀ {name f write}, shape.settable? name = some f → f.write? = some write →
    ∀ r {v w}, Live.Alike R v w → Mirrors S Eq (write r v) (write r w)
  invoke : ∀ {name ms m}, shape.members? name = some ms → m ∈ ms →
    ∀ r {args args'}, List.Forall₂ (Live.Alike R) args args' →
      Mirrors S (Live.Alike R) (m.invoke r args) (m.invoke r args')
  build : ∀ {name f}, shape.factory? name = some f →
    ∀ argument, Mirrors S (Live.Alike R) (f.build argument) (f.build argument)

/-- All that a host does from related states goes side by side. -/
structure Host.Mirrored (S : σ → σ → Prop) (R : Path → Path → Prop) (host : Host σ) : Prop where
  shapeOf : ∀ t, Mirrors S (fun shape shape' => shape = shape' ∧ shape.Mirrored S R)
    (host.shapeOf t) (host.shapeOf t)
  append : ∀ slot {v w}, Live.Alike R v w →
    Mirrors S Eq (host.append slot v) (host.append slot w)
  insert : ∀ slot key {v w}, Live.Alike R v w →
    Mirrors S Eq (host.insert slot key v) (host.insert slot key w)
  setProperty : ∀ slot {v w}, Live.Alike R v w →
    Mirrors S Eq (host.setProperty slot v) (host.setProperty slot w)
  maybeCreate : ∀ slot name, Mirrors S Eq (host.maybeCreate slot name) (host.maybeCreate slot name)
  getByName : ∀ slot name, Mirrors S Eq (host.getByName slot name) (host.getByName slot name)

/-- The objects around a key are of types that go side by side. -/
def Scope.Mirrored (S : σ → σ → Prop) (R : Path → Path → Prop) (sc : Scope σ) : Prop :=
  ∀ self shape, Frame.object self shape ∈ sc.frames → shape.Mirrored S R

/-- The scope of the same key seen from another root. -/
def Scope.seenFrom (sc : Scope σ) (root : Path) : Scope σ :=
  { sc with options := { sc.options with projectRoot := root } }

variable {S : σ → σ → Prop} {host : Host σ}

theorem Shape.Mirrored.get {shape : Shape σ} (h : shape.Mirrored S R) {f : Field σ}
    (hf : shape.HasField f) (r : ObjectRef) : Mirrors S (Live.Alike R) (f.get r) (f.get r) :=
  .readExcept fun hst => h.read hf r hst

theorem Shape.Mirrored.overloads {shape : Shape σ} (h : shape.Mirrored S R) {name : String}
    {arity : Nat} {m : Member σ} (hm : m ∈ shape.overloads name arity) (r : ObjectRef)
    {args args' : List Live} (hargs : List.Forall₂ (Live.Alike R) args args') :
    Mirrors S (Live.Alike R) (m.invoke r args) (m.invoke r args') := by
  rw [Shape.overloads, List.mem_filter] at hm
  cases hms : shape.members? name with
  | none => simp [hms] at hm
  | some ms =>
      rw [hms] at hm
      exact h.invoke hms hm.1 r hargs

/-! ## Resolution -/

section Resolution

variable (hhost : host.Mirrored S R)
include hhost

theorem invokeFactory_mirrors (t : ValueType) (factory argument path : String) :
    Mirrors S (Option.Rel (Live.Alike R)) (invokeFactory host t factory argument path)
      (invokeFactory host t factory argument path) := by
  unfold invokeFactory
  split
  · split
    · rename_i r _
      refine .ofExcept ?_
      cases enumConstant r argument path with
      | ok constant => exact .ok (.some (.refl constant))
      | error e => exact .error (.refl e)
    · exact .pure .none
  · refine (hhost.shapeOf _).bind fun hshape => ?_
    obtain ⟨rfl, hshape⟩ := hshape
    split
    · exact (hshape.build ‹_› argument).map .some
    · exact .pure .none
  · exact .pure .none

theorem Frame.resolve_mirrors (v : Value) (t : ValueType) (path : String) (f : Frame σ) :
    Mirrors S (Option.Rel (Live.Alike R)) (f.resolve host v t path) (f.resolve host v t path) := by
  cases f with
  | object self shape =>
      simp only [Frame.resolve]
      split
      · exact invokeFactory_mirrors hhost _ _ _ _
      · exact .pure .none
  | collection element slot =>
      simp only [Frame.resolve]
      split
      · split
        · refine (hhost.getByName _ _).andThen fun r? => .pure ?_
          cases r? with
          | none => exact .none
          | some r => exact .some (.refl _)
        · exact .pure .none
      · exact .pure .none

theorem resolveSymbol_mirrors (v : Value) (t : ValueType) (path : String)
    (frames : List (Frame σ)) :
    Mirrors S (Option.Rel (Live.Alike R)) (resolveSymbol host v t path frames)
      (resolveSymbol host v t path frames) := by
  induction frames with
  | nil => exact .pure .none
  | cons f outer ih =>
      refine (Frame.resolve_mirrors hhost v t path f).bind fun hlive => ?_
      cases hlive with
      | some hlive => exact .pure (.some hlive)
      | none => exact ih

variable {sc : Scope σ} {v : Value} (hv : v.Relocates R sc.options.projectRoot root)
include hv

theorem resolveArgument_mirrors (t : ValueType) :
    Mirrors S (Option.Rel (Live.Alike R)) (resolveArgument host sc t v)
      (resolveArgument host (sc.seenFrom root) t v) := by
  unfold resolveArgument
  split
  · split
    · exact invokeFactory_mirrors hhost _ _ _ _
    · exact .pure .none
  · split
    · exact (Mirrors.ofExcept (coerce_relocates hv t _)).map .some
    · exact resolveSymbol_mirrors hhost v t _ _

theorem resolveValue_mirrors (t : ValueType) :
    Mirrors S (Live.Alike R) (resolveValue host sc t v)
      (resolveValue host (sc.seenFrom root) t v) := by
  unfold resolveValue
  split
  · refine (resolveSymbol_mirrors hhost v t _ _).bind fun hlive => ?_
    cases hlive with
    | some hlive => exact .pure hlive
    | none => exact .throw (.refl _)
  · exact .ofExcept (coerce_relocates hv t _)

end Resolution

/-! ## Steps -/

section Steps

variable {sc : Scope σ} {shape : Shape σ} {f : Field σ} {self : ObjectRef} {key : String}
  {v : Value}

theorem unresolved_mirrors (key : String) :
    Mirrors S Eq (sc.unresolved key) ((sc.seenFrom root).unresolved key) := by
  unfold Scope.unresolved
  by_cases hstrict : sc.isStrict
  · rw [if_pos hstrict, if_pos (show (sc.seenFrom root).isStrict from hstrict)]
    exact .throw (.refl _)
  · rw [if_neg hstrict, if_neg (show ¬(sc.seenFrom root).isStrict from hstrict)]
    exact .pure rfl

theorem unsetObject_mirrors (f : Field σ) :
    Mirrors S Eq (sc.unsetObject shape f) ((sc.seenFrom root).unsetObject shape f) := by
  unfold Scope.unsetObject
  by_cases hstrict : sc.isStrict
  · rw [if_pos hstrict, if_pos (show (sc.seenFrom root).isStrict from hstrict)]
    exact .throw (.refl _)
  · rw [if_neg hstrict, if_neg (show ¬(sc.seenFrom root).isStrict from hstrict)]
    exact .pure rfl

theorem elementsStep_relocates {live live' : Live} (h : Live.Alike R live live') :
    Outcome Eq (elementsStep sc shape f live v)
      (elementsStep (sc.seenFrom root) shape f live' v) := by
  cases h with
  | refl live => exact .refl (fun _ => rfl) _
  | path _ => exact .error (.refl _)

variable (hhost : host.Mirrored S R)
include hhost

theorem appendAll_mirrors {items : List Value}
    (hitems : ∀ v ∈ items, v.Relocates R sc.options.projectRoot root) (slot : Slot)
    (element : ValueType) (index : Nat) :
    Mirrors S Eq (appendAll host sc slot element index items)
      (appendAll host (sc.seenFrom root) slot element index items) := by
  induction items generalizing index with
  | nil => exact .pure rfl
  | cons v rest ih =>
      obtain ⟨hv, hrest⟩ := List.forall_mem_cons.1 hitems
      refine (Mirrors.ofExcept (coerce_relocates hv element _)).bind fun hitem => ?_
      exact (hhost.append slot hitem).andThen fun _ => ih hrest _

theorem insertAll_mirrors {t : Table}
    (ht : Value.Relocates R sc.options.projectRoot root (.table t)) (slot : Slot)
    (value : ValueType) :
    Mirrors S Eq (insertAll host sc slot value t)
      (insertAll host (sc.seenFrom root) slot value t) := by
  induction t with
  | nil => exact .pure rfl
  | cons e rest ih =>
      obtain ⟨key, v⟩ := e
      refine (Mirrors.ofExcept (coerce_relocates ht.head value _)).bind fun hitem => ?_
      exact (hhost.insert slot key hitem).andThen fun _ => ih ht.tail

variable (hv : v.Relocates R sc.options.projectRoot root) (hshape : shape.Mirrored S R)
include hv hshape

theorem assign_mirrors (hf : route shape key = .settable f) :
    Mirrors S Eq (assign host sc shape self f key v)
      (assign host (sc.seenFrom root) shape self f key v) := by
  refine (resolveValue_mirrors hhost hv f.type).bind fun hlive => ?_
  split
  · obtain ⟨name, -, hname⟩ := settable?_of_route hf
    exact hshape.write hname ‹_› self hlive
  · split
    · exact (hshape.overloads (List.mem_of_head? ‹_›) self (.cons hlive .nil)).discard
    · exact .throw (.refl _)

theorem settableStep_mirrors (hf : route shape key = .settable f) :
    Mirrors S Eq (settableStep host sc shape self f key v)
      (settableStep host (sc.seenFrom root) shape self f key v) := by
  have hfield : shape.HasField f := by
    obtain ⟨name, -, hname⟩ := settable?_of_route hf
    exact ⟨name, .inl hname⟩
  have hget := hshape.get hfield self
  have hassign : Mirrors S Eq (do assign host sc shape self f key v; return Next.done)
      (do assign host (sc.seenFrom root) shape self f key v; return Next.done) :=
    (assign_mirrors hhost hv hshape hf).andThen fun _ => .pure rfl
  unfold settableStep
  split
  · exact hget.bind fun hlive => .ofExcept (elementsStep_relocates hlive)
  · refine hget.bind fun hlive => ?_
    cases hlive with
    | path _ => exact .throw (.refl _)
    | refl live =>
        split
        · refine (resolveValue_mirrors hhost hv _).bind fun hlive => ?_
          exact (hhost.setProperty _ hlive).andThen fun _ => .pure rfl
        · exact .throw (.refl _)
  · refine hget.bind fun hlive => ?_
    cases hlive with
    | path _ => exact .throw (.refl _)
    | refl live =>
        split
        · exact (appendAll_mirrors hhost (fun _ => hv.item) _ _ _).andThen fun _ => .pure rfl
        · exact .throw (.refl _)
  · refine hget.bind fun hlive => ?_
    cases hlive with
    | path _ => exact .throw (.refl _)
    | refl live =>
        split
        · exact (insertAll_mirrors hhost hv _ _).andThen fun _ => .pure rfl
        · exact .throw (.refl _)
  · refine hget.bind fun hlive => ?_
    cases hlive with
    | path _ => exact hassign
    | refl live =>
        split
        · exact .pure rfl
        · exact unsetObject_mirrors _
        · exact hassign
  · exact hassign

theorem readOnlyStep_mirrors (hf : shape.HasField f) :
    Mirrors S Eq (readOnlyStep host sc shape self f v)
      (readOnlyStep host (sc.seenFrom root) shape self f v) := by
  have hcontained : Mirrors S Eq (.ofExcept (sc.contained shape f))
      (.ofExcept ((sc.seenFrom root).contained shape f)) :=
    .ofExcept (.refl (fun _ => rfl) _)
  unfold readOnlyStep
  refine (hshape.get hf self).bind fun hlive => ?_
  cases hlive with
  | path _ => exact .throw (.refl _)
  | refl live =>
      split
      · exact .ofExcept (.refl (fun _ => rfl) _)
      · refine hcontained.andThen fun _ => ?_
        exact (insertAll_mirrors hhost hv _ _).andThen fun _ => .pure rfl
      · exact .pure rfl
      · refine hcontained.andThen fun _ => ?_
        exact (appendAll_mirrors hhost (fun _ => hv.item) _ _ _).andThen fun _ => .pure rfl
      · split
        · exact .throw (.refl _)
        · refine hcontained.andThen fun _ => ?_
          refine (Mirrors.ofExcept (coerce_relocates hv _ _)).bind fun hitem => ?_
          exact (hhost.append _ hitem).andThen fun _ => .pure rfl
      · refine hcontained.andThen fun _ => ?_
        refine (resolveValue_mirrors hhost hv _).bind fun hlive => ?_
        exact (hhost.setProperty _ hlive).andThen fun _ => .pure rfl
      · exact .throw (.refl _)

omit hshape in
theorem invokeFirst_mirrors {ms : List (Member σ)}
    (hms : ∀ m ∈ ms, ∀ {args args'}, List.Forall₂ (Live.Alike R) args args' →
      Mirrors S (Live.Alike R) (m.invoke self args) (m.invoke self args'))
    (first : Option Live) (mismatch : Option Error) :
    Mirrors S Eq (invokeFirst host sc self key v first mismatch ms)
      (invokeFirst host (sc.seenFrom root) self key v first mismatch ms) := by
  induction ms generalizing mismatch with
  | nil =>
      cases mismatch with
      | some e => exact .throw (.refl e)
      | none => exact unresolved_mirrors key
  | cons m rest ih =>
      obtain ⟨hm, hrest⟩ := List.forall_mem_cons.1 hms
      have hfirst : List.Forall₂ (Live.Alike R) first.toList first.toList :=
        List.forall₂_same.2 fun live _ => .refl live
      simp only [invokeFirst]
      split
      · refine (resolveArgument_mirrors hhost hv _).attempt.bind fun hargument => ?_
        cases hargument with
        | ok hargument =>
            cases hargument with
            | some hlive => exact (hm (List.rel_append hfirst (.cons hlive .nil))).discard
            | none => exact ih hrest mismatch
        | error he =>
            cases he with
            | refl e =>
                split
                · exact (hm (List.rel_append hfirst (.cons (.refl _) .nil))).discard
                · exact ih hrest mismatch
                · exact ih hrest _
                · exact .throw (.refl _)
            | host message message' => exact .throw (.host message message')
      · exact ih hrest mismatch

theorem memberStep_mirrors :
    Mirrors S Eq (memberStep host sc shape self key v)
      (memberStep host (sc.seenFrom root) shape self key v) := by
  unfold memberStep
  split
  · rename_i heq
    refine invokeFirst_mirrors hhost hv (fun m hm _ _ hargs => ?_) _ _
    split at heq
    · exact hshape.invoke heq hm self hargs
    · cases heq
  · split
    · rename_i heq
      refine invokeFirst_mirrors hhost hv (fun m hm _ _ hargs => ?_) _ _
      rcases hkey : shape.members? key with _ | ms
      · rw [hkey] at heq
        exact hshape.invoke heq hm self hargs
      · rw [hkey] at heq
        cases heq
        exact hshape.invoke hkey hm self hargs
    · exact .throw (.refl _)

omit hhost hv hshape in
theorem callFirst_mirrors {params : List Value} {root root' : Path}
    (hparams : ∀ u ∈ params, u.Relocates R root root') {ms : List (Member σ)}
    (hms : ∀ m ∈ ms, ∀ {args args'}, List.Forall₂ (Live.Alike R) args args' →
      Mirrors S (Live.Alike R) (m.invoke self args) (m.invoke self args'))
    (path : String) (mismatch : Option Error) :
    Mirrors S (Option.Rel (Live.Alike R)) (Frame.callFirst root self params path mismatch ms)
      (Frame.callFirst root' self params path mismatch ms) := by
  induction ms generalizing mismatch with
  | nil =>
      cases mismatch with
      | some e => exact .throw (.refl e)
      | none => exact .pure .none
  | cons m rest ih =>
      obtain ⟨hm, hrest⟩ := List.forall_mem_cons.1 hms
      have hargs := coerceParams_relocates hparams path m.params
      simp only [Frame.callFirst]
      generalize Frame.coerceParams root params path m.params = r at hargs ⊢
      generalize Frame.coerceParams root' params path m.params = r' at hargs ⊢
      cases hargs with
      | ok hargs => exact (hm hargs).map .some
      | @error e e' he =>
          cases he with
          | refl =>
              cases e with
              | unsupportedCoercion p target found => exact ih hrest _
              | _ => exact .throw (.refl _)
          | host message message' => exact .throw (.host message message')

theorem dispatch_mirrors (hsc : sc.Mirrored S R) :
    Mirrors S Eq (dispatch host sc shape self v)
      (dispatch host (sc.seenFrom root) shape self v) := by
  unfold dispatch
  split
  · exact .throw (.refl _)
  · rename_i request hrequest
    split
    · exact .throw (.refl _)
    · refine (hshape.get (Shape.hasField_of_field? ‹_›) self).bind fun {target _} htarget => ?_
      have hframes : (sc.seenFrom root).frames = sc.frames := rfl
      rw [hframes]
      split
      · exact unresolved_mirrors _
      · rename_i frame m hfind
        obtain ⟨hframe, hm⟩ := mem_of_findMember? hfind
        cases frame with
        | collection element slot => cases hm
        | object self' shape' =>
            have hcall : Mirrors S (Option.Rel (Live.Alike R))
                (Frame.callMember sc.options.projectRoot request.method request.params sc.keyPath
                  (.object self' shape'))
                (Frame.callMember root request.method request.params sc.keyPath
                  (.object self' shape')) :=
              callFirst_mirrors (fun u hu => hv.param hrequest hu)
                (fun m hm _ _ hargs => (hsc _ _ hframe).overloads hm self' hargs) _ _
            refine hcall.bind fun hresult => ?_
            cases hresult with
            | none => exact unresolved_mirrors _
            | some hlive =>
                cases htarget with
                | path _ => exact .pure rfl
                | refl =>
                    cases target with
                    | list slot => exact hhost.append slot hlive
                    | _ => exact .pure rfl

/-- The step of a key from two roots goes side by side, and leaves the same to walk. -/
theorem keyStep_mirrors (hsc : sc.Mirrored S R) :
    Mirrors S Eq (keyStep host sc shape self key v)
      (keyStep host (sc.seenFrom root) shape self key v) := by
  unfold keyStep
  split
  · exact (dispatch_mirrors hhost hv hshape hsc).andThen fun _ => .pure rfl
  · exact settableStep_mirrors hhost hv hshape ‹_›
  · exact readOnlyStep_mirrors hhost hv hshape ⟨key, .inr (readOnly?_of_route ‹_›)⟩
  · exact (memberStep_mirrors hhost hv hshape).andThen fun _ => .pure rfl

end Steps

end BuildReplay
