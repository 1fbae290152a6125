import BuildReplay.Proofs.Agreement

/-! # What a host can refuse

The keys of objects whose types agree with the host are refused by the host in two cases only: a
member refuses a call with an argument of its type, or a list does not take what a request's method
has returned. -/

namespace BuildReplay

open Act Law

variable {σ : Type} {host : Host σ} {R : Refusal σ → Prop} {t : TypeRef}
  {sc : Scope σ} {shape : Shape σ} {self : ObjectRef} {key : String} {v : Value}

/-! ## What agreement gives -/

namespace Shape.Agrees

variable {f : Field σ} (h : shape.Agrees host R t)
include h

theorem field (hf : shape.HasField f) : f.Agrees host t := by
  obtain ⟨ds, hds, hall⟩ := h
  obtain ⟨name, hf | hf⟩ := hf
  · exact (hall _ (hds.settable hf).1).1
  · exact hall _ (hds.readOnly hf).1

/-- What reading a field gives has its container. -/
theorem backs {r : ObjectRef} {s s' : σ} {live : Live} (hf : shape.HasField f) (hr : r.type = t)
    (hget : (f.get r).Gives s live s') : host.Backs f.type live := by
  obtain ⟨live', hread, hbacks⟩ := (h.field hf).read r s hr
  cases hread.symm.trans (Act.readExcept_gives.1 hget).1
  exact hbacks

theorem settable (hroute : route shape key = .settable f) :
    (Declaration.settable f).Agrees host t R := by
  obtain ⟨ds, hds, hall⟩ := h
  obtain ⟨name, -, hf⟩ := settable?_of_route hroute
  exact hall _ (hds.settable hf).1

theorem members {name : String} {ms : List (Member σ)} {m : Member σ}
    (hms : shape.members? name = some ms) (hm : m ∈ ms) :
    (Declaration.member m).Agrees host t R ∧ m.name = name := by
  obtain ⟨ds, hds, hall⟩ := h
  exact ⟨hall _ (hds.members hms m hm).1, (hds.members hms m hm).2⟩

theorem overload {name : String} {arity : Nat} {m : Member σ}
    (hm : m ∈ shape.overloads name arity) :
    (Declaration.member m).Agrees host t R ∧ m.name = name := by
  obtain ⟨ds, hds, hall⟩ := h
  obtain ⟨hmem, hname, -⟩ := hds.overloads hm
  exact ⟨hall _ hmem, hname⟩

/-- Only members of the key's name, or that set it, are called for a key. -/
theorem calls {first : Option Live} {ms : List (Member σ)} {m : Member σ}
    (hcalls : shape.Calls key first ms) (hm : m ∈ ms) :
    (Declaration.member m).Agrees host t R ∧ first = none ∧
      (m.name = key ∨ m.name = setterName key) := by
  cases hcalls with
  | put hmap _ =>
      obtain ⟨ds, hds, hall⟩ := h
      exact (hall _ (hds.mapLike hmap)).elim
  | named hms =>
      obtain ⟨hmember, hname⟩ := h.members hms hm
      exact ⟨hmember, rfl, .inl hname⟩
  | setter hms =>
      obtain ⟨hmember, hname⟩ := h.members hms hm
      exact ⟨hmember, rfl, .inr hname⟩

theorem shapeOf {asked : TypeRef} (hasked : shape.Asks key (.object asked)) :
    (host.shapeOf asked).Succeeds := by
  generalize htype : ValueType.object asked = type at hasked
  cases hasked with
  | field hroute => exact (h.settable hroute).2.1 _ htype.symm
  | contained hf hinner => exact (h.field hf).knows _ hinner _ htype.symm
  | @argument _ _ m hroute hcalls hm =>
      rcases hlast : m.params.getLast? with _ | p
      · rw [List.getLastD_eq_getLast?, hlast] at htype
        cases htype
      · rw [List.getLastD_eq_getLast?, hlast] at htype
        exact (h.calls hcalls hm).1.1 p (List.mem_of_getLast? hlast) _ htype.symm

end Shape.Agrees

theorem Scope.Agrees.typed (hhost : host.Agrees R) (hsc : sc.Agrees host R) : Typed host sc where
  build hshape hf hbuild := by
    obtain ⟨ds, hds, hall⟩ := hhost hshape
    obtain ⟨live, s', hgives, hlive⟩ := hall _ (hds.factories hf).1 _ _
    obtain ⟨rfl, -⟩ := hgives.unique hbuild
    exact hlive
  element hframe hget := by
    obtain ⟨c, hc, rfl⟩ := hsc.collection hframe
    rw [Host.getByName, hc] at hget
    obtain ⟨r, -, rfl⟩ := Option.map_eq_some_iff.1 (Act.read_gives.1 hget).1
    rfl

theorem getByName_succeeds (slot : Slot) (name : String) : (host.getByName slot name).Succeeds := by
  intro s
  unfold Host.getByName
  split
  · exact ⟨_, s, rfl⟩
  · exact ⟨_, s, rfl⟩

/-! ## Errors that are not the host's -/

theorem OwnError.ne_host {e : Error} (h : OwnError sc shape key v e) (message : String) :
    e ≠ .host message := by
  rintro rfl
  cases h with
  | here hpath _ _ _ => cases hpath

theorem coerce_ne_host {root : Path} {v? : Option Value} {type : ValueType} {path : String}
    {e : Error} (h : coerce root v? type path = .error e) (message : String) :
    e ≠ .host message := by
  rintro rfl
  cases v? with
  | none => cases h
  | some v => cases coerce_error h

theorem unresolved_raises {s s' : σ} {e : Error} (h : (sc.unresolved key).Raises s e s') :
    e = .unresolvedArgument sc.keyPath key := by
  unfold Scope.unresolved at h
  split at h
  · exact (Act.throw_raises.1 h).1.symm
  · exact absurd h Act.not_pure_raises

/-- When a call is refused by the host, it is the overload on its converted parameters that
refuses. -/
theorem callFirst_host_error {root : Path} {params : List Value} {path : String}
    {mismatch : Option Error} {ms : List (Member σ)} {s s' : σ} {message : String}
    (hmismatch : ∀ e, mismatch = some e → e ≠ .host message)
    (h : (Frame.callFirst root self params path mismatch ms).Raises s (.host message) s') :
    ∃ m ∈ ms, ∃ args, Frame.coerceParams root params path m.params = .ok args ∧
      (m.invoke self args).Raises s (.host message) s' := by
  induction ms generalizing mismatch with
  | nil =>
      cases mismatch with
      | some e => exact absurd (Act.throw_raises.1 h).1 (hmismatch e rfl)
      | none => exact absurd h Act.not_pure_raises
  | cons m rest ih =>
      have hrest : ∀ {mismatch : Option Error}, (∀ e, mismatch = some e → e ≠ .host message) →
          (Frame.callFirst root self params path mismatch rest).Raises s (.host message) s' →
          ∃ m' ∈ m :: rest, ∃ args, Frame.coerceParams root params path m'.params = .ok args ∧
            (m'.invoke self args).Raises s (.host message) s' := by
        intro mismatch hmismatch h
        obtain ⟨m', hm', hcall⟩ := ih hmismatch h
        exact ⟨m', List.mem_cons_of_mem m hm', hcall⟩
      simp only [Frame.callFirst] at h
      split at h
      · exact ⟨m, List.mem_cons_self, _, ‹_›, Act.map_raises.1 h⟩
      · refine hrest (fun e he => ?_) h
        cases mismatch with
        | some e' => exact hmismatch e he
        | none =>
            cases he
            exact fun h => by cases h
      · rename_i heq
        obtain ⟨rfl, -⟩ := Act.throw_raises.1 h
        obtain ⟨⟨type, i⟩, -, hitem⟩ := exists_of_mapM_error heq
        exact absurd rfl (coerce_ne_host hitem message)

/-! ## Keys -/

/-- A member that the key calls refuses the argument that the key's value stands for. -/
def CallRefused (host : Host σ) (I : σ → Prop) (R : Refusal σ → Prop) (sc : Scope σ)
    (self : ObjectRef) (key : String) (v : Value) (message : String) : Prop :=
  ∃ name param argument s s' s₁, (name = key ∨ name = setterName key) ∧ I s' ∧
    (resolveArgument host sc param v).Gives s (some argument) s' ∧ I s₁ ∧
    R ⟨name, self, [argument], s₁, .host message⟩ ∧ argument.HasType param

/-- The target of a request is a list, and the list does not take what the method has returned. -/
def DispatchRefused (host : Host σ) (sc : Scope σ) (shape : Shape σ) (self : ObjectRef) (v : Value)
    (s : σ) (message : String) : Prop :=
  ∃ request f slot c frame m result s',
    DispatchRequest.ofValue v = .ok request ∧ shape.field? request.target = some f ∧
    f.read self s = .ok (.list slot) ∧ host.list? slot = some c ∧
    findMember? request.method request.params.length sc.frames = some (frame, m) ∧
    (frame.callMember sc.options.projectRoot request.method request.params sc.keyPath).Gives s
      (some result) s' ∧
    c.accept result = .error (.host message)

section Keys

variable {I : σ → Prop} (hhost : host.Agrees R) (hsc : sc.Agrees host R)
  (hshape : shape.Agrees host R self.type)
include hhost hsc hshape

/-- Without a request, only the call of a member is refused. -/
theorem Effects.of_agrees (heffects : Effects (keeps I fun _ => True) host sc shape self key v)
    (hkey : key ≠ dispatchKey) :
    Effects (keeps I fun e => ∀ message, e = .host message →
      CallRefused host I R sc self key v message) host sc shape self key v where
  shapeOf hasked := keeps_errors (heffects.shapeOf hasked) fun _ _ _ _ he =>
    absurd he (hshape.shapeOf hasked).not_raises
  build hs hgives hf := keeps_errors (heffects.build hs hgives hf) fun s e s' _ he => by
    obtain ⟨ds, hds, hall⟩ := hhost hgives
    obtain ⟨live, s₁, hbuild, -⟩ := hall _ (hds.factories hf).1 _ s
    exact absurd he hbuild.not_raises
  getByName hframe := keeps_errors (heffects.getByName hframe) fun _ _ _ _ he =>
    absurd he (getByName_succeeds _ _).not_raises
  own he message heq := absurd heq (he.ne_host message)
  get hf := keeps_errors (heffects.get hf) fun s _ _ _ he => by
    obtain ⟨live, hread, -⟩ := (hshape.field hf).read self s rfl
    cases hread.symm.trans (Act.readExcept_raises.1 he).1
  write hroute hwrite hs hlive :=
    keeps_errors (heffects.write hroute hwrite hs hlive) fun _ _ _ _ he => by
      obtain ⟨-, -, write, hwrite', hsucceeds⟩ := hshape.settable hroute
      cases hwrite.symm.trans hwrite'
      have hvalue := resolveValue_hasType (hsc.typed hhost) hlive
      exact absurd he (hsucceeds self _ rfl hvalue).not_raises
  setter hroute hnone _ _ _ := by
    obtain ⟨-, -, write, hwrite, -⟩ := hshape.settable hroute
    cases hnone.symm.trans hwrite
  append hf hs hget helement hitem :=
    keeps_errors (heffects.append hf hs hget helement hitem) fun s e s' _ he => by
      obtain ⟨c, hc, haccept⟩ := hshape.backs hf rfl hget
      obtain ⟨b, hb⟩ := haccept _ _ helement (coerce_hasType hitem)
      rw [Host.append, hc] at he
      exact absurd he (Act.succeeds_convert hb _).not_raises
  insert hf hroute hv hmem hs hget hvalue hitem :=
    keeps_errors (heffects.insert hf hroute hv hmem hs hget hvalue hitem) fun s e s' _ he => by
      obtain ⟨c, hc, haccept⟩ := hshape.backs hf rfl hget
      obtain ⟨b, hb⟩ := haccept _ _ hvalue (coerce_hasType hitem)
      rw [Host.insert, hc] at he
      exact absurd he (Act.succeeds_convert hb _).not_raises
  setProperty hf hs hget hinner hs₁ hlive :=
    keeps_errors (heffects.setProperty hf hs hget hinner hs₁ hlive) fun s e s' _ he => by
      obtain ⟨c, hc, haccept⟩ := hshape.backs hf rfl hget
      obtain ⟨b, hb⟩ := haccept _ _ hinner (resolveValue_hasType (hsc.typed hhost) hlive)
      rw [Host.setProperty, hc] at he
      exact absurd he (Act.succeeds_convert hb _).not_raises
  call hroute hcalls hm harity hs hgives :=
    keeps_errors (heffects.call hroute hcalls hm harity hs hgives) fun s e s' hs₁ he message heq => by
      obtain ⟨hmember, rfl, hname⟩ := hshape.calls hcalls hm
      obtain ⟨p, hp⟩ := List.length_eq_one_iff.1 harity
      have hresolve := resolveArgument_obeys heffects.toLookups heffects.own
        (.argument hroute hcalls hm)
      have hargument := resolveArgument_hasType (hsc.typed hhost) hgives
      subst heq
      refine ⟨_, _, _, _, _, s, hname, keeps_gives hresolve hs hgives, hgives, hs₁, ?_, hargument⟩
      rw [hp] at hargument
      exact hmember.2 self _ _ _ _ rfl (by rw [hp]; exact .cons hargument .nil) he
  dispatch heq := absurd heq hkey
  keep heq := absurd heq hkey

omit hhost hshape in
/-- Calling the methods around a key is not refused, where only objects are refused as arguments. -/
theorem callMember_unrefused (hR : ∀ {c}, R c → ∃ o, .object o ∈ c.arguments)
    {frame : Frame σ} (hframe : frame ∈ sc.frames) {root : Path} {name : String}
    {params : List Value} {path : String} {s s' : σ} {message : String} :
    ¬(frame.callMember root name params path).Raises s (.host message) s' := by
  intro h
  cases frame with
  | collection element slot => exact absurd h Act.not_pure_raises
  | object self' shape' =>
      obtain ⟨m, hm, args, hargs, hinvoke⟩ := callFirst_host_error (by simp) h
      obtain ⟨htypes, hobjects⟩ := coerceParams_hasType hargs
      obtain ⟨hmember, -⟩ := (hsc.object hframe).overload hm
      obtain ⟨o, ho⟩ := hR (hmember.2 self' args _ _ _ rfl htypes hinvoke)
      exact hobjects o ho

omit hhost in
/-- A request is refused by the list that is to keep the result. -/
theorem dispatch_host_error (hR : ∀ {c}, R c → ∃ o, .object o ∈ c.arguments)
    {s s' : σ} {message : String}
    (h : (dispatch host sc shape self v).Raises s (.host message) s') :
    DispatchRefused host sc shape self v s message := by
  unfold dispatch at h
  split at h
  · cases (Act.throw_raises.1 h).1
  · rename_i request hv
    split at h
    · cases (Act.throw_raises.1 h).1
    · rename_i f hfield
      have hf := Shape.hasField_of_field? hfield
      obtain ⟨live, hread, hbacks⟩ := (hshape.field hf).read self s rfl
      rcases Act.bind_raises.1 h with h | ⟨target, s₁, hget, h⟩
      · cases hread.symm.trans (Act.readExcept_raises.1 h).1
      · obtain ⟨htarget, rfl⟩ := Act.readExcept_gives.1 hget
        cases hread.symm.trans htarget
        split at h
        · cases unresolved_raises h
        · rename_i frame m hfind
          have hframe := (mem_of_findMember? hfind).1
          rcases Act.bind_raises.1 h with h | ⟨result?, s₂, hcall, h⟩
          · exact absurd h (callMember_unrefused hsc hR hframe)
          · split at h
            · cases unresolved_raises h
            · split at h
              · obtain ⟨c, hc, haccept⟩ := hbacks
                rw [Host.append, hc] at h
                rcases Act.bind_raises.1 h with h | ⟨item, s₃, -, h⟩
                · exact ⟨request, f, _, c, frame, m, _, s₂, hv, hfield, hread, hc, hfind, hcall,
                    (Act.ofExcept_raises.1 h).1⟩
                · exact absurd h Act.not_modify_raises
              · exact absurd h Act.not_pure_raises

/-- The host refuses a key through a member or through the list of a request, and in no other
way. -/
theorem keyStep_host_error (heffects : Effects (keeps I fun _ => True) host sc shape self key v)
    (hR : ∀ {c}, R c → ∃ o, .object o ∈ c.arguments) {s s' : σ} {message : String}
    (hs : I s) (h : (keyStep host sc shape self key v).Raises s (.host message) s') :
    CallRefused host I R sc self key v message ∨
      key = dispatchKey ∧ DispatchRefused host sc shape self v s message := by
  by_cases hkey : key = dispatchKey
  · refine .inr ⟨hkey, ?_⟩
    rw [keyStep, show route shape key = .dispatch from if_pos hkey] at h
    rcases Act.bind_raises.1 h with h | ⟨_, _, _, h⟩
    · exact dispatch_host_error hsc hshape hR h
    · exact absurd h Act.not_pure_raises
  · have hobeys := (heffects.of_agrees hhost hsc hshape hkey).keyStep_obeys
    exact .inl ((hobeys s hs).2 _ s' h message rfl)

end Keys

end BuildReplay
