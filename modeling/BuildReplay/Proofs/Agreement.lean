import BuildReplay.Proofs.Declared
import BuildReplay.Proofs.Typing

/-! # Declared types that agree with the host

Where every field and container takes the values of the type that it declares, no conversion into
the host fails. What a host can refuse then is the call of a member, and the result that a request
keeps in a list. -/

namespace BuildReplay

open Act Law

variable {σ : Type}

namespace Act

variable {α β : Type}

/-- From every state on, the act ends with a value. -/
def Succeeds (x : Act σ α) : Prop := ∀ s, ∃ a s', x.Gives s a s'

theorem Succeeds.not_raises {x : Act σ α} (h : x.Succeeds) {s s' : σ} {e : Error} :
    ¬x.Raises s e s' := by
  obtain ⟨a, s₁, ha⟩ := h s
  exact ha.not_raises

/-- A conversion that succeeds is followed by a change. -/
theorem succeeds_convert {r : Except Error α} {a : α} (h : r = .ok a) (f : α → σ → σ) :
    (Act.ofExcept r >>= fun a => Act.modify (f a)).Succeeds := fun s =>
  ⟨(), f a s, bind_gives.2 ⟨a, s, ofExcept_gives.2 ⟨h, rfl⟩, modify_gives.2 rfl⟩⟩

end Act

/-- An invariant that the act keeps is kept with fewer errors, where no others are raised. -/
theorem Act.Law.keeps_errors {α : Type} {I : σ → Prop} {P : Error → Prop} {x : Act σ α}
    (h : (keeps I fun _ => True).Obeys x) (hP : ∀ s e s', I s → x.Raises s e s' → P e) :
    (keeps I P).Obeys x :=
  fun s hs => ⟨(h s hs).1, fun e s' he => hP s e s' hs he⟩

/-! ## Agreement -/

section Agreement

variable (host : Host σ)

/-- The host has the type, where it is one of objects. -/
def Host.Knows (type : ValueType) : Prop := ∀ t, type = .object t → (host.shapeOf t).Succeeds

/-- The containers behind a value take what a field of the type declares for them. -/
def Host.Backs (type : ValueType) : Live → Prop
  | .list slot => ∃ c, host.list? slot = some c ∧
    ∀ t v, type.contained? = some t → v.HasType t → ∃ item, c.accept v = .ok item
  | .map slot => ∃ c, host.map? slot = some c ∧
    ∀ t v, type.contained? = some t → v.HasType t → ∃ item, c.accept v = .ok item
  | .property slot => ∃ c, host.property? slot = some c ∧
    ∀ t v, type.contained? = some t → v.HasType t → ∃ item, c.accept v = .ok item
  | .named element slot => ∃ c, host.named? slot = some c ∧ c.element = element
  | _ => True

theorem Host.backs_of_not_handle (type : ValueType) {live : Live} (h : live.isHandle = false) :
    host.Backs type live := by
  cases live <;> trivial

/-- A call of a member that ends with an error: the object, what it is given, the state that it
starts from and the error. -/
structure Refusal (σ : Type) where
  member : String
  object : ObjectRef
  arguments : List Live
  state : σ
  error : Error

/-- The field of an object of the type is there, and so are its containers. -/
structure Field.Agrees (t : TypeRef) (f : Field σ) : Prop where
  read : ∀ r s, r.type = t → ∃ live, f.read r s = .ok live ∧ host.Backs f.type live
  knows : ∀ inner, f.type.contained? = some inner → host.Knows inner

/-- What the declaration says of types is so, for objects of the type. Members may refuse calls in
the way `R`. -/
def Declaration.Agrees (t : TypeRef) (R : Refusal σ → Prop) : Declaration σ → Prop
  | .settable f => f.Agrees host t ∧ host.Knows f.type ∧ ∃ write, f.write? = some write ∧
    ∀ r v, r.type = t → v.HasType f.type → (write r v).Succeeds
  | .readOnly f => f.Agrees host t
  | .member m => (∀ p ∈ m.params, host.Knows p) ∧ ∀ r args s e s', r.type = t →
    List.Forall₂ Live.HasType args m.params → (m.invoke r args).Raises s e s' →
      R ⟨m.name, r, args, s, e⟩
  | .factory f => ∀ argument s, ∃ live s', (f.build argument).Gives s live s' ∧
    live.HasType (.object t)
  | .mapLike => False

variable (R : Refusal σ → Prop)

/-- The shape consists of declarations that agree with the host. -/
def Shape.Agrees (t : TypeRef) (shape : Shape σ) : Prop :=
  ∃ ds, shape.DescribedBy ds ∧ ∀ d ∈ ds, d.Agrees host t R

/-- All types of the host agree with it. -/
def Host.Agrees : Prop :=
  ∀ {t s shape s'}, (host.shapeOf t).Gives s shape s' → shape.Agrees host R t

/-- All types around a key agree with the host. -/
structure Scope.Agrees (sc : Scope σ) : Prop where
  object : ∀ {self shape}, Frame.object self shape ∈ sc.frames → shape.Agrees host R self.type
  collection : ∀ {element slot}, Frame.collection element slot ∈ sc.frames →
    ∃ c, host.named? slot = some c ∧ c.element = element

end Agreement

/-! ## Declarations -/

namespace Declaration

variable {host : Host σ} {t : TypeRef} {R : Refusal σ → Prop}
  {α β : Type} {name : String} {type : ValueType}

theorem knows_of_isScalar (h : type.isScalar) : host.Knows type := by
  rintro o rfl
  cases h

theorem contained?_of_isScalar (h : type.isScalar) : type.contained? = none := by
  cases type <;> first | rfl | cases h

/-- An object of the type is found, and it is not lent to anybody. -/
theorem getter_succeeds [Described α] (ht : t = typeRef α) {P : Live → Prop}
    {look : Ref α → σ → Live} (h : ∀ a s, P (look a s)) (r : ObjectRef) (s : σ) (hr : r.type = t) :
    ∃ live, getter look r s = .ok live ∧ P live := by
  obtain ⟨a, rfl⟩ := ObjectRef.exists_cell (hr.trans ht)
  exact ⟨look a s, getter_object look a s, h a s⟩

/-- A member is called on an object that is lent to nobody else. -/
theorem call_agrees [Described α] (ht : t = typeRef α) {params : List ValueType}
    {body : Ref α → List Live → Access σ Live} (hknows : ∀ p ∈ params, host.Knows p)
    (hbody : ∀ (a : Ref α) args s e s', List.Forall₂ Live.HasType args params →
      ((body a args).during (Borrows.nothing.set a.object .writer)).Raises s e s' →
      R ⟨name, a.object, args, s, e⟩) :
    (call name params body : Declaration σ).Agrees host t R := by
  refine ⟨hknows, fun r args s e s' hr hargs hraises => ?_⟩
  obtain ⟨a, rfl⟩ := ObjectRef.exists_cell (hr.trans ht)
  dsimp only at hraises
  rw [ObjectRef.act_lend_object] at hraises
  exact hbody a args s e s' hargs hraises

section Scalars

variable [Stored σ α] [ToLive β] (ht : t = typeRef α)
include ht

theorem stored_agrees [OfLive β] [Plain β] [Takes β type] {get : α → β} {set : β → α → α}
    (h : type.isScalar) : (stored name type get set : Declaration σ).Agrees host t R := by
  refine ⟨⟨getter_succeeds ht fun _ _ => ?_, fun inner hinner => ?_⟩, knows_of_isScalar h,
    _, rfl, fun r v hr hv => ?_⟩
  · exact host.backs_of_not_handle _ (Plain.isHandle_toLive _)
  · cases (contained?_of_isScalar h).symm.trans hinner
  · obtain ⟨a, rfl⟩ := ObjectRef.exists_cell (hr.trans ht)
    obtain ⟨b, hb⟩ : ∃ b : β, ofLive v = .ok b := Takes.exists_ofLive hv
    rw [act_convert_object]
    exact Act.succeeds_convert hb _

theorem viewed_agrees [Plain β] {get : α → β} (h : type.isScalar) :
    (viewed name type get : Declaration σ).Agrees host t R := by
  refine ⟨getter_succeeds ht fun _ _ => ?_, fun inner hinner => ?_⟩
  · exact host.backs_of_not_handle _ (Plain.isHandle_toLive _)
  · cases (contained?_of_isScalar h).symm.trans hinner

end Scalars

theorem viewed_object_agrees {γ : Type} [Stored σ α] [Described γ] {get : α → Ref γ}
    {o : TypeRef} (ht : t = typeRef α) :
    (viewed name (.object o) get : Declaration σ).Agrees host t R :=
  ⟨getter_succeeds ht fun _ _ => trivial, fun _ h => by cases h⟩

section Containers

theorem held_agrees [Described α] (ht : t = typeRef α) {live : Slot → Live}
    (hbacks : ∀ a : Ref α, host.Backs type (live ⟨a.object, name⟩))
    (hknows : ∀ inner, type.contained? = some inner → host.Knows inner) :
    (Field.held α name type live).Agrees host t :=
  ⟨getter_succeeds ht fun a _ => hbacks a, hknows⟩

variable [Stored σ α] [OfLive β] (ht : t = typeRef α)
include ht

theorem list_agrees [Takes β type] {field : Lens α (List β)} (htype : type.isScalar)
    (h : ∀ a : Ref α, host.list? ⟨a.object, name⟩ = some (a.list field)) :
    (list α name type : Declaration σ).Agrees host t R := by
  refine held_agrees ht (fun a => ⟨_, h a, fun inner v hinner hv => ?_⟩) fun inner hinner => ?_
  · cases hinner
    exact Takes.exists_ofLive (β := β) hv
  · cases hinner
    exact knows_of_isScalar htype

theorem map_agrees [Takes β type] {field : Lens α (Dictionary β)} (htype : type.isScalar)
    (h : ∀ a : Ref α, host.map? ⟨a.object, name⟩ = some (a.map field)) :
    (map α name type : Declaration σ).Agrees host t R := by
  refine held_agrees ht (fun a => ⟨_, h a, fun inner v hinner hv => ?_⟩) fun inner hinner => ?_
  · cases hinner
    exact Takes.exists_ofLive (β := β) hv
  · cases hinner
    exact knows_of_isScalar htype

theorem property_agrees [Takes β type] {field : Lens α (Option β)} (htype : type.isScalar)
    (h : ∀ a : Ref α, host.property? ⟨a.object, name⟩ = some (a.property field)) :
    (property α name type : Declaration σ).Agrees host t R := by
  refine held_agrees ht (fun a => ⟨_, h a, fun inner v hinner hv => ?_⟩) fun inner hinner => ?_
  · cases hinner
    exact Takes.exists_ofLive (β := β) hv
  · cases hinner
    exact knows_of_isScalar htype

omit [OfLive β] in
theorem collection_agrees [Stored σ β] {field : Lens α (List (String × Ref β))} {make : String → β}
    (h : ∀ a : Ref α, host.named? ⟨a.object, name⟩ = some (a.collection field make)) :
    (collection α name (typeRef β) : Declaration σ).Agrees host t R :=
  held_agrees ht (fun a => ⟨_, h a, rfl⟩) fun _ h => by cases h

theorem setter_agrees [Takes β type] {set : β → α → α} (h : type.isScalar) :
    (setter name type set : Declaration σ).Agrees host t R := by
  refine call_agrees ht (fun p hp => ?_) fun a args s e s' hargs hraises => ?_
  · rw [List.mem_singleton.1 hp]
    exact knows_of_isScalar h
  · obtain ⟨v, rest, hv, hrest, rfl⟩ := List.forall₂_cons_right_iff.1 hargs
    cases hrest
    obtain ⟨b, hb⟩ : ∃ b : β, ofLive v = .ok b := Takes.exists_ofLive hv
    simp only [Access.during_bind, Access.during_ofExcept, Access.during_modify,
      Access.during_pure] at hraises
    rcases bind_raises.1 hraises with hraises | ⟨b', s₁, -, hraises⟩
    · cases hb.symm.trans (ofExcept_raises.1 hraises).1
    · rcases bind_raises.1 hraises with hraises | ⟨_, s₂, -, hraises⟩
      · exact absurd hraises not_modify_raises
      · exact absurd hraises not_pure_raises

end Containers

end Declaration

end BuildReplay
