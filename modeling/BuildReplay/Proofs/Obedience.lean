import BuildReplay.Proofs.Effects

/-! # Hosts that obey a law

Where all effects of a host obey a law, every walk does, over any table and from any object. -/

namespace BuildReplay

open Act (Law)

variable {σ : Type} {L : Law σ}

/-- All effects of a type's fields, members and factories obey the law. -/
structure Shape.Obeys (L : Law σ) (shape : Shape σ) : Prop where
  get : ∀ {f}, shape.HasField f → ∀ r, L.Obeys (f.get r)
  write : ∀ {name f write}, shape.settable? name = some f → f.write? = some write →
    ∀ r v, L.Obeys (write r v)
  invoke : ∀ {name ms m}, shape.members? name = some ms → m ∈ ms →
    ∀ r args, L.Obeys (m.invoke r args)
  build : ∀ {name f}, shape.factory? name = some f → ∀ argument, L.Obeys (f.build argument)

/-- All that a host does obeys the law, other than making elements and entries. -/
structure Host.Heeds (L : Law σ) (host : Host σ) : Prop where
  shapeOf : ∀ t, L.Obeys (host.shapeOf t)
  shape : ∀ {t s shape s'}, (host.shapeOf t).Gives s shape s' → Shape.Obeys L shape
  append : ∀ slot v, L.Obeys (host.append slot v)
  setProperty : ∀ slot v, L.Obeys (host.setProperty slot v)
  getByName : ∀ slot name, L.Obeys (host.getByName slot name)

/-- All that a host does obeys the law, other than making elements. -/
structure Host.Obeys (L : Law σ) (host : Host σ) : Prop extends Host.Heeds L host where
  insert : ∀ slot key v, L.Obeys (host.insert slot key v)

/-! ## Scopes -/

@[simp] theorem Scope.mem_enter {sc : Scope σ} {f g : Frame σ} :
    f ∈ (sc.enter g).frames ↔ f = g ∨ f ∈ sc.frames :=
  List.mem_cons

@[simp] theorem Scope.not_mem_top {options : Options} {start : String} {f : Frame σ} :
    f ∉ (top options start).frames :=
  List.not_mem_nil

/-- The objects around a key are of types that obey the law. -/
def Scope.Obeys (L : Law σ) (sc : Scope σ) : Prop :=
  ∀ self shape, Frame.object self shape ∈ sc.frames → Shape.Obeys L shape

theorem Scope.top_obeys (options : Options) (start : String) : (top options start).Obeys L :=
  fun _ _ h => absurd h Scope.not_mem_top

theorem Scope.Obeys.key {sc : Scope σ} (hsc : sc.Obeys L) (k : String) : (sc.key k).Obeys L := hsc

theorem Scope.Obeys.enter_object {sc : Scope σ} (hsc : sc.Obeys L) {shape : Shape σ}
    (hshape : shape.Obeys L) (self : ObjectRef) : (sc.enter (.object self shape)).Obeys L := by
  intro self' shape' h
  rcases Scope.mem_enter.1 h with heq | h
  · cases heq
    exact hshape
  · exact hsc _ _ h

theorem Scope.Obeys.enter_collection {sc : Scope σ} (hsc : sc.Obeys L) (element : TypeRef)
    (slot : Slot) : (sc.enter (.collection element slot)).Obeys L :=
  fun self shape h => hsc self shape (by simpa using h)

theorem Shape.Obeys.overloads {shape : Shape σ} (h : shape.Obeys L) {name : String} {arity : Nat}
    {m : Member σ} (hm : m ∈ shape.overloads name arity) (r : ObjectRef) (args : List Live) :
    L.Obeys (m.invoke r args) := by
  rw [Shape.overloads, List.mem_filter] at hm
  cases hms : shape.members? name with
  | none => simp [hms] at hm
  | some ms =>
      rw [hms] at hm
      exact h.invoke hms hm.1 r args

/-! ## Laws that follow from others -/

section Mono

variable {L' : Law σ} (hL : ∀ {α : Type} {x : Act σ α}, L.Obeys x → L'.Obeys x)
include hL

theorem Shape.Obeys.mono {shape : Shape σ} (h : shape.Obeys L) : shape.Obeys L' where
  get hf r := hL (h.get hf r)
  write hf hwrite r v := hL (h.write hf hwrite r v)
  invoke hms hm r args := hL (h.invoke hms hm r args)
  build hf argument := hL (h.build hf argument)

theorem Scope.Obeys.mono {sc : Scope σ} (h : sc.Obeys L) : sc.Obeys L' :=
  fun self shape hframe => (h self shape hframe).mono hL

theorem Host.Obeys.mono {host : Host σ} (h : host.Obeys L) : host.Obeys L' where
  shapeOf t := hL (h.shapeOf t)
  shape hgives := (h.shape hgives).mono hL
  append slot v := hL (h.append slot v)
  setProperty slot v := hL (h.setProperty slot v)
  getByName slot name := hL (h.getByName slot name)
  insert slot key v := hL (h.insert slot key v)

end Mono

/-- The law allows every error, but that of lenient mode skipping what strict mode refuses. -/
def Law.Tolerates (L : Law σ) (strictness : Strictness) : Prop :=
  ∀ e, (∀ path key, e = .unresolvedArgument path key → strictness = .strict) → L.Allows e

section Walk

variable {host : Host σ} {sc : Scope σ} {shape : Shape σ}

theorem OwnError.tolerated {key : String} {v : Value} {e : Error} (h : OwnError sc shape key v e)
    (hL : Law.Tolerates L sc.options.strictness) : L.Allows e := by
  refine hL e fun path key heq => ?_
  cases h with
  | here _ _ hstrict _ => simpa [Scope.isStrict] using hstrict path key heq
  | item _ _ => cases heq
  | param _ _ _ => cases heq
  | entry _ _ => cases heq

/-- In a host that heeds the law, all effects of a key obey it where the entries do that it makes,
and where the law allows the key's own errors. -/
theorem Host.Heeds.effectsOf (hhost : host.Heeds L) (hsc : sc.Obeys L) (hshape : shape.Obeys L)
    {key : String} {v : Value} {self : ObjectRef}
    (hinsert : ∀ {f slot s s' entries raw name}, shape.HasField f →
      (route shape key = .settable f ∨ route shape key = .readOnly f) → v = .table entries →
      (name, raw) ∈ entries → (f.get self).Gives s (.map slot) s' →
      ∀ item, L.Obeys (host.insert slot name item))
    (hown : ∀ {e}, OwnError sc shape key v e → L.Allows e) :
    Effects L host sc shape self key v where
  shapeOf _ := hhost.shapeOf _
  build _ hgives hf := (hhost.shape hgives).build hf _
  getByName _ := hhost.getByName _ _
  own := hown
  get hf := hshape.get hf self
  write hroute hwrite _ _ := by
    obtain ⟨name, -, hf⟩ := settable?_of_route hroute
    exact hshape.write hf hwrite self _
  setter _ _ hm _ _ := hshape.overloads hm self _
  append _ _ _ _ _ := hhost.append _ _
  insert hf hroute hv hmem _ hget _ _ := hinsert hf hroute hv hmem hget _
  setProperty _ _ _ _ _ _ := hhost.setProperty _ _
  call _ hcalls hm _ _ _ := by
    cases hcalls with
    | put _ hms => exact hshape.invoke hms hm self _
    | named hms => exact hshape.invoke hms hm self _
    | setter hms => exact hshape.invoke hms hm self _
  dispatch _ _ hframe hm _ := (hsc _ _ hframe).overloads hm _ _
  keep _ _ _ _ _ _ _ _ _ _ := hhost.append _ _

/-- In a host that obeys the law, all effects of a key do where the law allows the key's own
errors. -/
theorem Host.Obeys.effectsOf (hhost : host.Obeys L) (hsc : sc.Obeys L) (hshape : shape.Obeys L)
    {key : String} {v : Value} (hown : ∀ {e}, OwnError sc shape key v e → L.Allows e)
    (self : ObjectRef) : Effects L host sc shape self key v :=
  hhost.toHeeds.effectsOf hsc hshape (fun _ _ _ _ _ _ => hhost.insert _ _ _) hown

/-- In a host that obeys the law, all effects of each key do. -/
theorem Host.Obeys.effects (hhost : host.Obeys L) (hsc : sc.Obeys L) (hshape : shape.Obeys L)
    (hL : Law.Tolerates L sc.options.strictness) (self : ObjectRef) (key : String) (v : Value) :
    Effects L host sc shape self key v :=
  hhost.effectsOf hsc hshape (fun he => he.tolerated hL) self

/-- The law of acts that fail with errors of the host only. -/
abbrev hostOnly : Law σ := Law.keeps (fun _ => True) fun e => ∃ message, e = .host message

/-- In a host that fails with its own errors only, every error of a key is one of these or one that
the mapper words itself. -/
theorem Host.Obeys.keyStep_error (hhost : host.Obeys hostOnly) (hsc : sc.Obeys hostOnly)
    (hshape : shape.Obeys hostOnly) {self : ObjectRef} {key : String} {v : Value} {s s' : σ}
    {e : Error} (h : (keyStep host sc shape self key v).Raises s e s') :
    OwnError sc shape key v e ∨ ∃ message, e = .host message := by
  let L' : Law σ := Law.keeps (fun _ => True) fun e =>
    OwnError sc shape key v e ∨ ∃ message, e = .host message
  have hL : ∀ {α : Type} {x : Act σ α}, hostOnly.Obeys x → L'.Obeys x :=
    fun hx s hs => ⟨trivial, fun e s' he => .inr ((hx s hs).2 e s' he)⟩
  have heffects : Effects L' host sc shape self key v :=
    (hhost.mono hL).effectsOf (hsc.mono hL) (hshape.mono hL) .inl self
  exact (heffects.keyStep_obeys s trivial).2 e s' h

/-- The walks below a table obey the law. -/
structure WalkObeys (L : Law σ) (host : Host σ) (options : Options) (t : Table) : Prop where
  entries : ∀ (sc : Scope σ) (shape : Shape σ), sc.options = options → sc.Obeys L →
    shape.Obeys L → ∀ self, L.Obeys (walkEntries host sc shape self t)
  elements : ∀ sc : Scope σ, sc.options = options → sc.Obeys L →
    ∀ element slot, L.Obeys (walkElements host sc element slot t)

variable {options : Options}

theorem WalkObeys.next (hhost : host.Obeys L) {t : Table} (ht : WalkObeys L host options t)
    (hoptions : sc.options = options) (hsc : sc.Obeys L) (next : Next) :
    L.Obeys (walkNext host sc next (.table t)) := by
  cases next with
  | done =>
      rw [walkNext_done]
      exact L.pure _
  | object r =>
      rw [walkNext_object]
      refine L.bind (hhost.shapeOf _) fun _ hgives => ?_
      have hshape := hhost.shape hgives
      exact ht.entries (sc.enter (.object r _)) _ hoptions (hsc.enter_object hshape r) hshape r
  | elements element slot =>
      rw [walkNext_elements]
      exact ht.elements sc hoptions hsc element slot

theorem Host.Obeys.walk (hhost : host.Obeys L)
    (hcreate : ∀ slot name, L.Obeys (host.maybeCreate slot name))
    (hL : Law.Tolerates L options.strictness) (t : Table) : WalkObeys L host options t := by
  induction t using Table.induct with
  | nil =>
      refine ⟨fun _ _ _ _ _ _ => ?_, fun _ _ _ _ _ => ?_⟩
      · rw [walkEntries_nil]
        exact L.pure _
      · rw [walkElements_nil]
        exact L.pure _
  | cons key v rest hv hrest =>
      have hnext : ∀ sc : Scope σ, sc.options = options → sc.Obeys L → ∀ next,
          L.Obeys (walkNext host sc next v) := by
        intro sc hoptions hsc next
        by_cases htable : v.isTable
        · obtain ⟨entries, rfl⟩ := Value.exists_of_isTable htable
          exact (hv entries rfl).next hhost hoptions hsc next
        · rw [walkNext_of_not_table host sc next (by simpa using htable)]
          exact L.pure _
      refine ⟨fun sc shape hoptions hsc hshape self => ?_,
        fun sc hoptions hsc element slot => ?_⟩
      · rw [walkEntries_cons]
        have hstep : Effects L host (sc.key key) shape self key v :=
          hhost.effects (hsc.key key) hshape (hoptions ▸ hL) self key v
        exact L.andThen hstep.keyStep_obeys fun next =>
          L.andThen (hnext (sc.key key) hoptions (hsc.key key) next) fun _ =>
            hrest.entries sc shape hoptions hsc hshape self
      · rw [walkElements]
        split
        · exact L.andThen (hcreate _ _) fun r =>
            L.andThen (hnext ((sc.key key).enter (.collection element slot)) hoptions
              ((hsc.key key).enter_collection element slot) _) fun _ =>
              hrest.elements sc hoptions hsc element slot
        · exact L.throw (hL _ fun _ _ h => by cases h)

theorem Host.Obeys.walkNext (hhost : host.Obeys L)
    (hcreate : ∀ slot name, L.Obeys (host.maybeCreate slot name))
    (hL : Law.Tolerates L sc.options.strictness) (hsc : sc.Obeys L) (next : Next) (v : Value) :
    L.Obeys (walkNext host sc next v) := by
  by_cases htable : v.isTable
  · obtain ⟨t, rfl⟩ := Value.exists_of_isTable htable
    exact (hhost.walk hcreate hL t).next hhost rfl hsc next
  · rw [walkNext_of_not_table host sc next (by simpa using htable)]
    exact L.pure _

/-- In a host that obeys a law, a whole document does. -/
theorem Host.Obeys.replay (hhost : host.Obeys L)
    (hcreate : ∀ slot name, L.Obeys (host.maybeCreate slot name))
    (hL : Law.Tolerates L options.strictness) (start : String) (t : Table) (r : ObjectRef) :
    L.Obeys (replay host options start t r) :=
  hhost.walkNext hcreate hL (Scope.top_obeys options start) (.object r) (.table t)

end Walk

/-! ## Types whose keys end at themselves -/

/-- No field hands out an object or a collection. -/
def Shape.Leaf (shape : Shape σ) : Prop :=
  ∀ {f}, shape.HasField f → ∀ {self s live}, f.read self s = .ok live → live.next = .done

theorem Shape.Leaf.done {shape : Shape σ} (h : shape.Leaf) {host : Host σ} {sc : Scope σ}
    {self : ObjectRef} {key : String} {v : Value} {s s' : σ} {next : Next}
    (hstep : (keyStep host sc shape self key v).Gives s next s') : next = .done := by
  refine Decidable.byContradiction fun hn => ?_
  obtain ⟨-, -, hon⟩ := (keyStep_goesOn hn).1 hstep
  cases hroute : route shape key with
  | settable f =>
      rw [hroute] at hon
      obtain ⟨live, hread, -, hnext⟩ := hon
      obtain ⟨name, -, hf⟩ := settable?_of_route hroute
      exact hn (hnext.symm.trans (h ⟨name, .inl hf⟩ hread))
  | readOnly f =>
      rw [hroute] at hon
      obtain ⟨live, hread, hnext⟩ := hon
      exact hn (hnext.symm.trans (h ⟨key, .inr (readOnly?_of_route hroute)⟩ hread))
  | _ =>
      rw [hroute] at hon
      exact hon

/-- A walk over an object of such a type is no more than the effects of its keys. -/
theorem Shape.Leaf.walkEntries_of_effects {shape : Shape σ} (hleaf : shape.Leaf) {host : Host σ}
    {sc : Scope σ} {self : ObjectRef}
    (heffects : ∀ key v, Effects L host (sc.key key) shape self key v) (t : Table) :
    L.Obeys (walkEntries host sc shape self t) := by
  induction t with
  | nil =>
      rw [walkEntries_nil]
      exact L.pure _
  | cons e t ih =>
      obtain ⟨key, v⟩ := e
      rw [walkEntries_cons]
      refine L.bind (heffects key v).keyStep_obeys fun _ hgives => ?_
      rw [hleaf.done hgives, walkNext_done]
      exact L.andThen (L.pure _) fun _ => ih

/-- A walk over an object of such a type makes no elements. -/
theorem Shape.Leaf.walkEntries_obeys {shape : Shape σ} (hleaf : shape.Leaf) {host : Host σ}
    (hhost : host.Obeys L) (hshape : shape.Obeys L) {sc : Scope σ} (hsc : sc.Obeys L)
    (hL : Law.Tolerates L sc.options.strictness) (self : ObjectRef) (t : Table) :
    L.Obeys (walkEntries host sc shape self t) :=
  hleaf.walkEntries_of_effects (fun key v => hhost.effects (hsc.key key) hshape hL self key v) t

end BuildReplay
