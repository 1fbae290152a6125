import BuildReplay.Proofs.Declared

/-! # What the keys of one object reach

The keys of an object change the object itself, through its fields and members, and the objects
around it, through the members that requests call. A law that these effects obey is obeyed by every
table for the object, whatever the same keys would do to other objects of the type. -/

namespace BuildReplay

open Act Law

variable {σ : Type} {L : Law σ} {host : Host σ}

/-- Filling the container behind a value obeys the law. -/
def Host.Fills (L : Law σ) (host : Host σ) : Live → Prop
  | .list slot => ∀ item, L.Obeys (host.append slot item)
  | .map slot => ∀ key item, L.Obeys (host.insert slot key item)
  | .property slot => ∀ item, L.Obeys (host.setProperty slot item)
  | _ => True

theorem Host.fills_of_plain {live : Live} (h : live.isHandle = false) : host.Fills L live := by
  cases live <;> trivial

/-- All effects of the fields and members of a type on one object obey the law. -/
structure Shape.ObeysAt (L : Law σ) (host : Host σ) (shape : Shape σ) (r : ObjectRef) : Prop where
  get : ∀ {f}, shape.HasField f → L.Obeys (f.get r)
  fill : ∀ {f s live}, shape.HasField f → f.read r s = .ok live → host.Fills L live
  write : ∀ {name f write}, shape.settable? name = some f → f.write? = some write →
    ∀ v, L.Obeys (write r v)
  invoke : ∀ {name arity m}, m ∈ shape.overloads name arity → ∀ args, L.Obeys (m.invoke r args)

/-- The members of the objects around a key obey the law. -/
def Scope.CallsObey (L : Law σ) (sc : Scope σ) : Prop :=
  ∀ {self shape name arity m}, Frame.object self shape ∈ sc.frames →
    m ∈ shape.overloads name arity → ∀ args, L.Obeys (m.invoke self args)

/-- In a host that looks up its shapes and elements by the law, all effects of a key on an object
obey it where those of the object's type do there, and the members around it. -/
theorem Shape.ObeysAt.effects {shape : Shape σ} {r : ObjectRef} (h : shape.ObeysAt L host r)
    {sc : Scope σ} (hlookups : Lookups L host sc fun _ => True) (hsc : sc.CallsObey L)
    {key : String} {v : Value} (hown : ∀ {e}, OwnError sc shape key v e → L.Allows e) :
    Effects L host sc shape r key v where
  shapeOf _ := hlookups.shapeOf trivial
  build := hlookups.build
  getByName := hlookups.getByName
  own := hown
  get := h.get
  write hroute hwrite _ _ := by
    obtain ⟨name, -, hf⟩ := settable?_of_route hroute
    exact h.write hf hwrite _
  setter _ _ hm _ _ := h.invoke hm _
  append hf _ hget _ _ := h.fill hf (Act.readExcept_gives.1 hget).1 _
  insert hf _ _ _ _ hget _ _ := h.fill hf (Act.readExcept_gives.1 hget).1 _ _
  setProperty hf _ hget _ _ _ := h.fill hf (Act.readExcept_gives.1 hget).1 _
  call _ hcalls hm _ _ _ := by
    cases hcalls with
    | put _ hms => exact h.invoke (Shape.mem_overloads hms hm) _
    | named hms => exact h.invoke (Shape.mem_overloads hms hm) _
    | setter hms => exact h.invoke (Shape.mem_overloads hms hm) _
  dispatch _ _ hframe hm _ := hsc hframe hm _
  keep _ _ hf _ hget _ _ _ _ _ :=
    h.fill (Shape.hasField_of_field? hf) (Act.readExcept_gives.1 hget).1 _

/-! ## Declarations -/

/-- The effects on one object that a declaration stands for obey the law. -/
def Declaration.ObeysAt (L : Law σ) (host : Host σ) (r : ObjectRef) : Declaration σ → Prop
  | .settable f => L.Obeys (f.get r) ∧ (∀ s live, f.read r s = .ok live → host.Fills L live) ∧
    ∀ write, f.write? = some write → ∀ v, L.Obeys (write r v)
  | .readOnly f => L.Obeys (f.get r) ∧ ∀ s live, f.read r s = .ok live → host.Fills L live
  | .member m => ∀ args, L.Obeys (m.invoke r args)
  | .factory _ => True
  | .mapLike => True

theorem Shape.DescribedBy.obeysAt {shape : Shape σ} {ds : List (Declaration σ)}
    (h : shape.DescribedBy ds) {r : ObjectRef} (hds : ∀ d ∈ ds, d.ObeysAt L host r) :
    shape.ObeysAt L host r where
  get := by
    rintro f ⟨name, hf | hf⟩
    · exact (hds _ (h.settable hf).1).1
    · exact (hds _ (h.readOnly hf).1).1
  fill := by
    rintro f s live ⟨name, hf | hf⟩ hread
    · exact (hds _ (h.settable hf).1).2.1 s live hread
    · exact (hds _ (h.readOnly hf).1).2 s live hread
  write hf hwrite := (hds _ (h.settable hf).1).2.2 _ hwrite
  invoke hm := hds _ (h.overloads hm).1

namespace Declaration

variable {α β : Type} [Stored σ α] {I : σ → Prop} {P : Error → Prop} {r : Ref α}

omit [Stored σ α] in
theorem getter_obeysAt [Described α] {look : Ref α → σ → Live} (r : Ref α) :
    (keeps I P).Obeys (.readExcept (getter look r.object)) := by
  rw [show getter look r.object = fun s => .ok (look r s) from funext (getter_object look r)]
  exact keeps_read _

@[simp] theorem viewed_obeysAt [ToLive β] [Plain β] (name : String) (type : ValueType)
    (get : α → β) :
    (viewed name type get : Declaration σ).ObeysAt (keeps I P) host r.object := by
  refine ⟨getter_obeysAt r, fun s live hread => ?_⟩
  obtain ⟨_, -, rfl⟩ := getter_eq_ok.1 hread
  exact Host.fills_of_plain (Plain.isHandle_toLive _)

theorem stored_obeysAt [ToLive β] [Plain β] [OfLive β] [Refusing β]
    (hP : ∀ message, P (.host message)) {name : String} {type : ValueType} {get : α → β}
    {set : β → α → α} (h : ∀ b s, I s → I (r.modify (set b) s)) :
    (stored name type get set : Declaration σ).ObeysAt (keeps I P) host r.object := by
  refine ⟨getter_obeysAt r, fun s live hread => ?_, fun write hwrite v => ?_⟩
  · obtain ⟨_, -, rfl⟩ := getter_eq_ok.1 hread
    exact Host.fills_of_plain (Plain.isHandle_toLive _)
  · cases hwrite
    dsimp only
    rw [act_convert_object]
    exact (keeps I P).andThen (ofLive_keeps hP v) fun b => keeps_modify (h b)

omit [Stored σ α] in
theorem call_obeysAt [Described α] {name : String} {params : List ValueType}
    {body : Ref α → List Live → Access σ Live}
    (h : ∀ args, (keeps I P).Obeys ((body r args).during (Borrows.nothing.set r.object .writer))) :
    (call name params body : Declaration σ).ObeysAt (keeps I P) host r.object := by
  intro args
  change (keeps I P).Obeys (r.object.lend .exclusive fun a => body a args).act
  rw [ObjectRef.act_lend_object]
  exact h args

theorem setter_obeysAt [OfLive β] [Refusing β] (hP : ∀ message, P (.host message)) {name : String}
    {param : ValueType} {set : β → α → α} (h : ∀ b s, I s → I (r.modify (set b) s)) :
    (setter name param set : Declaration σ).ObeysAt (keeps I P) host r.object := by
  refine call_obeysAt fun args => ?_
  simp only [Access.during_bind, Access.during_ofExcept, Access.during_modify, Access.during_pure]
  exact (keeps I P).andThen (ofLive_keeps hP _) fun b =>
    (keeps I P).andThen (keeps_modify (h b)) fun _ => (keeps I P).pure _

theorem list_obeysAt {name : String} {element : ValueType} {c : Collection σ}
    (hc : host.list? ⟨r.object, name⟩ = some c) (h : ∀ item, (keeps I P).Obeys (c.append item)) :
    (list α name element : Declaration σ).ObeysAt (keeps I P) host r.object := by
  refine ⟨getter_obeysAt r, fun s live hread => ?_⟩
  obtain ⟨a, ha, rfl⟩ := getter_eq_ok.1 hread
  obtain rfl := Ref.object_inj.1 ha
  intro item
  rw [Host.append, hc]
  exact h item

@[simp] theorem collection_obeysAt (name : String) (element : TypeRef) :
    (collection α name element : Declaration σ).ObeysAt (keeps I P) host r.object := by
  refine ⟨getter_obeysAt r, fun s live hread => ?_⟩
  obtain ⟨_, -, rfl⟩ := getter_eq_ok.1 hread
  trivial

theorem map_obeysAt {name : String} {value : ValueType} {c : MapSink σ}
    (hc : host.map? ⟨r.object, name⟩ = some c)
    (h : ∀ key item, (keeps I P).Obeys (c.insert key item)) :
    (map α name value : Declaration σ).ObeysAt (keeps I P) host r.object := by
  refine ⟨getter_obeysAt r, fun s live hread => ?_⟩
  obtain ⟨a, ha, rfl⟩ := getter_eq_ok.1 hread
  obtain rfl := Ref.object_inj.1 ha
  intro key item
  rw [Host.insert, hc]
  exact h key item

end Declaration

end BuildReplay
