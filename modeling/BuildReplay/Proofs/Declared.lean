import BuildReplay.Proofs.Access
import BuildReplay.Proofs.Live
import BuildReplay.Proofs.Obedience
import BuildReplay.Proofs.Shape

/-! # What declared types keep

An invariant of the host's state that every declaration of a type keeps is kept by all effects of
the type, and likewise for the containers in the fields of its objects. What such an effect refuses,
it refuses in the name of the host. -/

namespace BuildReplay

open Act Law

variable {σ β : Type} {L : Law σ}

/-- The effects that a declaration stands for obey the law. -/
def Declaration.Obeys (L : Law σ) : Declaration σ → Prop
  | .settable f =>
    (∀ r, L.Obeys (f.get r)) ∧ ∀ write, f.write? = some write → ∀ r v, L.Obeys (write r v)
  | .readOnly f => ∀ r, L.Obeys (f.get r)
  | .member m => ∀ r args, L.Obeys (m.invoke r args)
  | .factory f => ∀ argument, L.Obeys (f.build argument)
  | .mapLike => True

theorem Shape.DescribedBy.obeys {shape : Shape σ} {ds : List (Declaration σ)}
    (h : shape.DescribedBy ds) (hds : ∀ d ∈ ds, d.Obeys L) : shape.Obeys L where
  get := by
    rintro f ⟨name, hf | hf⟩
    · exact (hds _ (h.settable hf).1).1
    · exact hds _ (h.readOnly hf).1
  write hf hwrite := (hds _ (h.settable hf).1).2 _ hwrite
  invoke hms hm := hds _ (h.members hms _ hm).1
  build hf := hds _ (h.factories hf).1

section Keeps

variable {I : σ → Prop} {P : Error → Prop} (hP : ∀ message, P (.host message))

theorem getByName_keeps (host : Host σ) (slot : Slot) (name : String) :
    (keeps I P).Obeys (host.getByName slot name) := by
  unfold Host.getByName
  split
  · exact keeps_read _
  · exact (keeps I P).pure _

include hP

/-- An object of another type is refused by the host. -/
theorem cell_keeps {γ : Type} [Described γ] (o : ObjectRef) :
    (keeps I P).Obeys (.ofExcept (o.cell γ)) := by
  refine (keeps I P).ofExcept fun e he => ?_
  rw [ObjectRef.cell_error he]
  exact hP _

theorem getter_keeps {γ : Type} [Described γ] (look : Ref γ → σ → Live) (o : ObjectRef) :
    (keeps I P).Obeys (.readExcept (getter look o)) := by
  intro s hs
  refine ⟨hs, fun e s' h => ?_⟩
  rw [getter_error (readExcept_raises.1 h).1]
  exact hP _

namespace Declaration

section Fields

variable (γ : Type) [Described γ] (name : String) (type : ValueType)

theorem list_keeps : (list γ name type : Declaration σ).Obeys (keeps I P) :=
  fun o => getter_keeps hP _ o

theorem map_keeps : (map γ name type : Declaration σ).Obeys (keeps I P) :=
  fun o => getter_keeps hP _ o

theorem property_keeps : (property γ name type : Declaration σ).Obeys (keeps I P) :=
  fun o => getter_keeps hP _ o

theorem collection_keeps (element : TypeRef) :
    (collection γ name element : Declaration σ).Obeys (keeps I P) :=
  fun o => getter_keeps hP _ o

end Fields

theorem viewed_keeps {γ : Type} [Stored σ γ] [ToLive β] (name : String) (type : ValueType)
    (get : γ → β) : (viewed name type get : Declaration σ).Obeys (keeps I P) :=
  fun o => getter_keeps hP _ o

/-- A member keeps what its body keeps, whatever is lent while it runs. -/
theorem call_keeps {γ : Type} [Described γ] {name : String} {params : List ValueType}
    {body : Ref γ → List Live → Access σ Live}
    (h : ∀ a args bs, (keeps I P).Obeys ((body a args).during bs)) :
    (call name params body : Declaration σ).Obeys (keeps I P) := by
  intro o args
  change (keeps I P).Obeys (o.lend .exclusive fun a => body a args).act
  rw [ObjectRef.act_lend_exclusive]
  exact (keeps I P).andThen (cell_keeps hP o) fun a => h a args _

theorem ofLive_keeps [OfLive β] [Refusing β] (v : Live) :
    (keeps I P).Obeys (.ofExcept (ofLive v : Except Error β)) := by
  refine (keeps I P).ofExcept fun e he => ?_
  obtain ⟨message, rfl⟩ := Refusing.host_of_error he
  exact hP message

section Object

variable {γ : Type} [Stored σ γ] [OfLive β] [Refusing β]

theorem stored_keeps [ToLive β] {name : String} {type : ValueType} {get : γ → β}
    {set : β → γ → γ} (h : ∀ (r : Ref γ) b s, I s → I (r.modify (set b) s)) :
    (stored name type get set : Declaration σ).Obeys (keeps I P) := by
  refine ⟨fun o => getter_keeps hP _ o, fun write hwrite o v => ?_⟩
  cases hwrite
  dsimp only
  rw [act_convert]
  exact (keeps I P).andThen (ofLive_keeps hP v) fun b =>
    (keeps I P).andThen (cell_keeps hP o) fun a => keeps_modify (h a b)

theorem setter_keeps {name : String} {param : ValueType} {set : β → γ → γ}
    (h : ∀ (r : Ref γ) b s, I s → I (r.modify (set b) s)) :
    (setter name param set : Declaration σ).Obeys (keeps I P) := by
  refine call_keeps hP fun a args bs => ?_
  simp only [Access.during_bind, Access.during_ofExcept, Access.during_modify, Access.during_pure]
  exact (keeps I P).andThen (ofLive_keeps hP _) fun b =>
    (keeps I P).andThen (keeps_modify (h a b)) fun _ => (keeps I P).pure _

end Object

end Declaration

omit hP

/-! ## Containers in the fields of objects -/

section Containers

variable {γ : Type} [Stored σ γ] [OfLive β] [Refusing β] {r : Ref γ} {v : Live}

include hP

theorem Ref.append_keeps {field : Lens γ (List β)}
    (h : ∀ b s, I s → I (r.modify (field.modify (· ++ [b])) s)) :
    (keeps I P).Obeys ((r.list field).append v) :=
  (keeps I P).andThen (Declaration.ofLive_keeps (β := β) hP v) fun b => keeps_modify (h b)

theorem Ref.insert_keeps {field : Lens γ (Dictionary β)} {key : String}
    (h : ∀ b s, I s → I (r.modify (field.modify (·.insert key b)) s)) :
    (keeps I P).Obeys ((r.map field).insert key v) :=
  (keeps I P).andThen (Declaration.ofLive_keeps (β := β) hP v) fun b => keeps_modify (h b)

theorem Ref.set_keeps {field : Lens γ (Option β)}
    (h : ∀ b s, I s → I (r.modify (field.set (some b)) s)) :
    (keeps I P).Obeys ((r.property field).set v) :=
  (keeps I P).andThen (Declaration.ofLive_keeps (β := β) hP v) fun b => keeps_modify (h b)

end Containers

end Keeps

end BuildReplay
