import BuildReplay.Proofs.Own
import BuildReplay.Proofs.Typing

/-! # The fields of an object

A declaration puts the value of its key into one field of the object. The fields of a type are
listed by their own names, apart from the declarations, which spell them in their own ways: as an
accessor or as a setter. -/

namespace BuildReplay

variable {σ α β : Type} {t : ValueType}

/-! ## Fields -/

/-- A field of an object, and which value of a document it holds. A container holds none. -/
structure Attribute (α : Type) where
  name : String
  {Value : Type}
  get : α → Value
  set : Value → α → α
  live? : Value → Option Live

namespace Attribute

/-- A field with one value. -/
def value [ToLive β] (name : String) (get : α → β) (set : β → α → α) : Attribute α :=
  ⟨name, get, set, fun b => some (toLive b)⟩

def container (name : String) (get : α → β) (set : β → α → α) : Attribute α :=
  ⟨name, get, set, fun _ => none⟩

/-- A field of one object, as a part of the state. -/
def ofObject [Stored σ α] (c : Attribute α) (r : Ref α) : Attribute σ :=
  ⟨c.name, fun s => c.get (r.get s), fun b => r.modify (c.set b), c.live?⟩

def Holds (c : Attribute σ) (live : Live) (s : σ) : Prop := c.live? (c.get s) = some live

/-- What is written to one field is not seen in the other. -/
def Unseen (c c' : Attribute α) : Prop := ∀ b x, c'.get (c.set b x) = c'.get x

/-- The field that a declared name is about: the name without the `is` or `set` of an accessor. -/
def nameOf (declared : String) : String :=
  match declared.toList with
  | 'i' :: 's' :: c :: rest | 's' :: 'e' :: 't' :: c :: rest =>
    if c.isUpper then String.ofList (c.toLower :: rest) else declared
  | _ => declared

end Attribute

/-- All fields of the objects of a type, each with a name and a place of its own. -/
structure Record (α : Type) where
  attributes : List (Attribute α)
  distinct : (attributes.map Attribute.name).Nodup := by decide
  get_set : ∀ c ∈ attributes, ∀ b x, c.get (c.set b x) = b := by
    simp only [List.forall_mem_cons, List.not_mem_nil, IsEmpty.forall_iff, implies_true, and_true]
    and_intros <;> exact fun _ _ => rfl
  unseen : attributes.Pairwise fun c c' => c.Unseen c' ∧ c'.Unseen c := by
    simp only [List.pairwise_cons, List.forall_mem_cons, List.not_mem_nil, IsEmpty.forall_iff,
      implies_true, List.Pairwise.nil, and_true]
    and_intros <;> exact fun _ _ => rfl
  /-- An object is what its fields hold. -/
  complete : ∀ x y, (∀ c ∈ attributes, c.get x = c.get y) → x = y := by
    rintro ⟨⟩ ⟨⟩ h
    simpa [Attribute.value, Attribute.container] using h

namespace Record

variable (record : Record α)

theorem eq_of_name {c c' : Attribute α} (hc : c ∈ record.attributes) (hc' : c' ∈ record.attributes)
    (h : c.name = c'.name) : c = c' :=
  List.inj_on_of_nodup_map record.distinct hc hc' h

theorem unseen_of_name {c c' : Attribute α} (hc : c ∈ record.attributes)
    (hc' : c' ∈ record.attributes) (h : c.name ≠ c'.name) : c.Unseen c' := by
  have hsymm : Std.Symm fun c c' : Attribute α => c.Unseen c' ∧ c'.Unseen c :=
    ⟨fun _ _ h => h.symm⟩
  exact (record.unseen.forall hc hc' fun heq => h (congrArg Attribute.name heq)).1

/-- The fields of one object. -/
def ofObject [Stored σ α] (r : Ref α) : List (Attribute σ) :=
  record.attributes.map (·.ofObject r)

/-- The field of a name. -/
def attribute? (name : String) : Option (Attribute α) := record.attributes.find? (·.name == name)

variable {record} {name : String} {c : Attribute α}

theorem mem_of_attribute? (h : record.attribute? name = some c) : c ∈ record.attributes :=
  List.mem_of_find?_eq_some h

theorem name_of_attribute? (h : record.attribute? name = some c) : c.name = name := by
  simpa using List.find?_some h

end Record

@[simp] theorem Ref.get_modify [Stored σ α] (r : Ref α) (f : α → α) (s : σ) :
    r.get (r.modify f s) = f (r.get s) := Lens.get_modify _ f s

/-- A value was put into the field of a name, and nothing else was changed. -/
structure Puts (attributes : List (Attribute σ)) (name : String) (live : Live) (s s' : σ) :
    Prop where
  holds : ∀ c ∈ attributes, c.name = name → c.Holds live s'
  others : ∀ c ∈ attributes, c.name ≠ name → c.get s' = c.get s
  only : ∃ c ∈ attributes, c.name = name ∧ ∃ b, s' = c.set b s

theorem Record.puts [Stored σ α] (record : Record α) {c : Attribute α} (hc : c ∈ record.attributes)
    {b : c.Value} {live : Live} (hb : c.live? b = some live) (r : Ref α) (s : σ) :
    Puts (record.ofObject r) c.name live s (r.modify (c.set b) s) := by
  refine ⟨?_, ?_, c.ofObject r, List.mem_map_of_mem hc, rfl, b, rfl⟩
  · rintro _ hmem hname
    obtain ⟨c', hc', rfl⟩ := List.mem_map.1 hmem
    obtain rfl := record.eq_of_name hc' hc hname
    change c'.live? (c'.get (r.get (r.modify (c'.set b) s))) = some live
    rw [Ref.get_modify, record.get_set c' hc', hb]
  · rintro _ hmem hname
    obtain ⟨c', hc', rfl⟩ := List.mem_map.1 hmem
    change c'.get (r.get (r.modify (c.set b) s)) = c'.get (r.get s)
    rw [Ref.get_modify, record.unseen_of_name hc hc' (Ne.symm hname)]

/-! ## Conversions -/

/-- The type of a host field takes all values of a declared type, and shows them as they were. -/
class Faithful (β : Type) [OfLive β] [ToLive β] (t : ValueType) : Prop extends Takes β t where
  toLive_of_ofLive : ∀ {live : Live} {b : β}, live.HasType t → ofLive live = .ok b → toLive b = live

instance : Faithful Bool .bool where
  toLive_of_ofLive h hb := by
    cases h
    cases hb
    rfl

instance : Faithful Int32 .int where
  toLive_of_ofLive h hb := by
    cases h
    cases hb
    rfl

instance : Faithful String .string where
  toLive_of_ofLive h hb := by
    cases h
    cases hb
    rfl

instance : Faithful Path .path where
  toLive_of_ofLive h hb := by
    cases h
    cases hb
    rfl

instance [OfLive β] [ToLive β] [Faithful β t] : Faithful (Option β) t where
  toLive_of_ofLive {live b?} h hb := by
    have hsome : (ofLive live : Except Error β).map some = .ok b? := by
      cases h <;> exact hb
    obtain ⟨b, hofLive⟩ : ∃ b : β, ofLive live = .ok b := Takes.exists_ofLive h
    rw [hofLive] at hsome
    cases hsome
    exact Faithful.toLive_of_ofLive (β := β) h hofLive

theorem exists_toLive_eq [OfLive β] [ToLive β] [Faithful β t] {live : Live}
    (h : live.HasType t) : ∃ b : β, ofLive live = .ok b ∧ toLive b = live := by
  obtain ⟨b, hb⟩ : ∃ b : β, ofLive live = .ok b := Takes.exists_ofLive h
  exact ⟨b, hb, Faithful.toLive_of_ofLive h hb⟩

theorem Scope.required_hasType {sc : Scope σ} {v : Value} {live : Live}
    (h : sc.required t v = .ok live) : live.HasType t := by
  have hliteral : sc.literal t v = .ok (some live) := by
    unfold required at h
    split at h
    · cases h
      assumption
    · cases h
    · cases h
  unfold literal at hliteral
  split at hliteral
  · unfold enumCall at hliteral
    split at hliteral
    · split at hliteral
      · unfold enumConstant at hliteral
        split at hliteral
        · cases hliteral
          exact .enumeration (EnumRef.mem_of_valueOf? ‹_›)
        · cases hliteral
      · cases hliteral
    · cases hliteral
  · cases hcoerce : coerce sc.options.projectRoot (some v) t sc.keyPath with
    | ok live' =>
        rw [hcoerce] at hliteral
        cases hliteral
        exact coerce_hasType hcoerce
    | error e =>
        rw [hcoerce] at hliteral
        cases hliteral

/-! ## Declarations -/

/-- A member of one scalar parameter that hands out nothing. -/
def Member.IsSetter (m : Member σ) (t : ValueType) : Prop :=
  m.params = [t] ∧ t.isScalar ∧
    ∀ r live s out s', (m.invoke r [live]).Gives s out s' → out = .nothing

namespace Declaration

/-- The declaration is about something that can be written under its name: a settable field, a cell,
or a setter. -/
def Writes (name : String) (t : ValueType) : Declaration σ → Prop
  | .settable f => f.name = name ∧ f.type = t
  | .readOnly f => f.name = name ∧ f.type = .property t
  | .member m => m.name = name ∧ m.IsSetter t
  | .factory _ | .mapLike => False

theorem Writes.exists_binding? {d : Declaration σ} {name : String} (h : d.Writes name t) :
    ∃ b, d.binding? = some b ∧ b.name = name := by
  cases d with
  | settable f => exact ⟨.field f.name, rfl, h.1⟩
  | readOnly f => exact ⟨.field f.name, rfl, h.1⟩
  | member m => exact ⟨.member m.name, rfl, h.1⟩
  | factory _ => cases h
  | mapLike => cases h

/-- What is read through the declaration, where it can be read. The getter of a cell hands out the
cell. -/
def Returns (host : Host σ) (r : ObjectRef) (live : Live) (s : σ) : Declaration σ → Prop
  | .settable f => f.read r s = .ok live
  | .readOnly f => ∃ slot cell item, f.read r s = .ok (.property slot) ∧
    host.property? slot = some cell ∧ cell.accept live = .ok item ∧ cell.value.get s = some item
  | _ => True

/-- The declaration puts values of a type into a field of the object. -/
inductive Fills [Stored σ α] (host : Host σ) (t : ValueType) :
    Attribute α → Declaration σ → Prop where
  | stored {β : Type} [OfLive β] [ToLive β] [Plain β] [Faithful β t] {declared name : String}
      (get : α → β) (set : β → α → α) :
      Fills host t (.value name get set) (.stored declared t get set)
  | property {β : Type} [OfLive β] [ToLive β] [Faithful β t] {declared name : String}
      (lens : Lens α (Option β)) :
      (∀ r : Ref α, host.property? ⟨r.object, declared⟩ = some (r.property lens)) →
      Fills host t (.value name lens.get lens.set) (.property α declared t)
  | setter {β : Type} [OfLive β] [ToLive β] [Faithful β t] {declared name : String}
      (get : α → Option β) (set : Option β → α → α) :
      Fills host t (.value name get set) (.setter declared t fun b : β => set (some b))

/-- What is written under the declared name is put into the field that the name is about. -/
def FillsOwn [Stored σ α] (host : Host σ) (record : Record α) (d : Declaration σ) : Prop :=
  ∀ name t, d.Writes name t →
    t.isAtomic ∧ ∃ c, record.attribute? (Attribute.nameOf name) = some c ∧ d.Fills host t c

section FillsOwn

variable [Stored σ α] {host : Host σ} {record : Record α} {declared name : String}

theorem readOnly_fillsOwn {f : Field σ} (h : ∀ t, f.type ≠ .property t) :
    (Declaration.readOnly f).FillsOwn host record := fun _ t hwrites => absurd hwrites.2 (h t)

theorem stored_fillsOwn [OfLive β] [ToLive β] [Plain β] [Faithful β t] {get : α → β}
    {set : β → α → α} (ht : t.isAtomic)
    (hc : record.attribute? (Attribute.nameOf declared) = some (.value name get set)) :
    (Declaration.stored declared t get set : Declaration σ).FillsOwn host record := by
  rintro _ _ ⟨rfl, rfl⟩
  exact ⟨ht, _, hc, .stored get set⟩

theorem property_fillsOwn [OfLive β] [ToLive β] [Faithful β t] {lens : Lens α (Option β)}
    (ht : t.isAtomic)
    (hproperty : ∀ r : Ref α, host.property? ⟨r.object, declared⟩ = some (r.property lens))
    (hc : record.attribute? (Attribute.nameOf declared) = some (.value name lens.get lens.set)) :
    (Declaration.property α declared t : Declaration σ).FillsOwn host record := by
  rintro _ _ ⟨rfl, htype⟩
  cases htype
  exact ⟨ht, _, hc, .property lens hproperty⟩

theorem setter_fillsOwn [OfLive β] [ToLive β] [Faithful β t] {get : α → Option β}
    (set : Option β → α → α) (ht : t.isAtomic)
    (hc : record.attribute? (Attribute.nameOf declared) = some (.value name get set)) :
    (Declaration.setter declared t fun b : β => set (some b) : Declaration σ).FillsOwn host
      record := by
  rintro _ _ ⟨rfl, hparams, -⟩
  cases hparams
  exact ⟨ht, _, hc, .setter get set⟩

end FillsOwn

theorem setter_writes [Stored σ α] [OfLive β] (declared : String) (ht : t.isScalar)
    (set : β → α → α) : (Declaration.setter declared t set : Declaration σ).Writes declared t := by
  refine ⟨rfl, rfl, ht, fun r live s out s' h => ?_⟩
  change (ObjectRef.lend _ _ _).act.Gives s out s' at h
  rw [ObjectRef.act_lend_exclusive] at h
  obtain ⟨a, s₁, -, h⟩ := Act.bind_gives.1 h
  simp only [Access.during_bind, Access.during_modify, Access.during_pure] at h
  obtain ⟨b, s₂, -, h⟩ := Act.bind_gives.1 h
  obtain ⟨_, s₃, -, h⟩ := Act.bind_gives.1 h
  exact (Act.pure_gives.1 h).1.symm

end Declaration

/-! ## Keys -/

/-- What becomes of a value: the act puts it into the state, as `Q` says, or leaves the state as it
is. In strict mode it does not leave a value out in silence. -/
inductive Scope.Settles (sc : Scope σ) (t : ValueType) (v : Value) (Q : Live → σ → Prop)
    (x : Act σ Unit) (s : σ) : Prop where
  | puts {live : Live} {s' : σ} : sc.required t v = .ok live → Q live s' → x.Gives s () s' →
      Settles sc t v Q x s
  | leaves {r : Except Error Unit} : x s = (r, s) → (sc.isStrict → ∀ u, r ≠ .ok u) →
      Settles sc t v Q x s

section Keys

variable {host : Host σ} {sc : Scope σ} {shape : Shape σ} {self : ObjectRef} {key : String}
  {v : Value} {Q : Live → σ → Prop} {s : σ}

theorem Scope.settles_required (sc : Scope σ) {put : Live → Act σ Unit}
    (hput : ∀ live, live.HasType t → ∃ s', Q live s' ∧ (put live).Gives s () s') :
    sc.Settles t v Q (Act.ofExcept (sc.required t v) >>= put) s := by
  cases h : sc.required t v with
  | ok live =>
      obtain ⟨s', hQ, hgives⟩ := hput live (required_hasType h)
      exact .puts h hQ hgives
  | error e => exact .leaves rfl fun _ _ h => by cases h

/-- Overloads that are all the same settle a value like the one that they are. -/
theorem invokeFirst_settles {m : Member σ} {ms : List (Member σ)} (hms : ∀ m' ∈ ms, m' = m)
    (hparams : m.params = [t]) (ht : t.isAtomic)
    (hput : ∀ live, live.HasType t →
      ∃ s', Q live s' ∧ (discard (m.invoke self [live])).Gives s () s') (mismatch : Option Error) :
    sc.Settles t v Q (invokeFirst host sc self key v none mismatch ms) s := by
  induction ms generalizing mismatch with
  | nil =>
      cases mismatch with
      | some e => exact .leaves rfl fun _ _ h => by cases h
      | none =>
          simp only [invokeFirst, Scope.unresolved]
          split
          · exact .leaves rfl fun _ _ h => by cases h
          · exact .leaves rfl fun hstrict => absurd hstrict ‹_›
  | cons m' rest ih =>
      obtain ⟨rfl, hrest⟩ := List.forall_mem_cons.1 hms
      rw [invokeFirst_atomic hparams ht]
      split
      · rename_i live hliteral
        have hrequired : sc.required t v = .ok live := by rw [Scope.required, hliteral]
        obtain ⟨s', hQ, hgives⟩ := hput live (Scope.required_hasType hrequired)
        exact .puts hrequired hQ hgives
      · exact ih hrest mismatch
      · exact ih hrest _
      · exact .leaves rfl fun _ _ h => by cases h

variable [Stored σ α] {c : Attribute α} {d : Declaration σ}

/-- A key puts its value into the field that its declaration fills. -/
theorem Declaration.Fills.settles (h : d.Fills host t c) (hc : ∀ b x, c.get (c.set b x) = b)
    (ht : t.isAtomic) (hmapLike : shape.mapLike = false) (hroute : shape.RoutesTo key d)
    (sc : Scope σ) (v : Value) (i : Ref α × List (Frame σ)) (s : σ) :
    ((sc.key key).around shape i).Settles t v (fun live s' => d.Returns host i.1.object live s' ∧
      ∃ b, c.live? b = some live ∧ s' = i.1.modify (c.set b) s)
      (keyOf host sc shape (key, v) i) s := by
  cases h with
  | @stored β _ _ _ _ declared name get set =>
      rw [keyOf_settable sc hroute ht (fun _ _ => ⟨_, getter_object _ _ _, Plain.isHandle_toLive _⟩) rfl]
      simp only [act_convert_object]
      refine Scope.settles_required ((sc.key key).around shape i) fun live hlive => ?_
      obtain ⟨b, hb, hshown⟩ : ∃ b : β, ofLive live = .ok b ∧ toLive b = live :=
        exists_toLive_eq hlive
      refine ⟨_, ⟨?_, b, congrArg some hshown, rfl⟩, ?_⟩
      · have hread : get (i.1.get (i.1.modify (set b) s)) = b := by
          rw [Ref.get_modify]
          exact hc b _
        exact (getter_object _ i.1 _).trans
          (congrArg Except.ok ((congrArg toLive hread).trans hshown))
      · exact Act.bind_gives.2 ⟨b, s, Act.ofExcept_gives.2 ⟨hb, rfl⟩, rfl⟩
  | @property β _ _ _ declared name lens hproperty =>
      rw [keyOf_property sc hroute ht]
      refine Scope.settles_required ((sc.key key).around shape i) fun live hlive => ?_
      obtain ⟨b, hb, hshown⟩ : ∃ b : β, ofLive live = .ok b ∧ toLive b = live :=
        exists_toLive_eq hlive
      refine ⟨_, ⟨⟨_, i.1.property lens, b, getter_object _ i.1 _, hproperty i.1, hb, ?_⟩, some b,
        congrArg some hshown, rfl⟩, ?_⟩
      · exact (i.1.property (σ := σ) lens).value.get_set (some b) s
      · rw [Host.setProperty, hproperty]
        exact Act.bind_gives.2 ⟨b, s, Act.ofExcept_gives.2 ⟨hb, rfl⟩, rfl⟩
  | @setter β _ _ _ declared name get set =>
      obtain ⟨hroute, ms, hfind, hms⟩ := hroute
      rw [keyOf_member sc hmapLike hroute hfind]
      refine invokeFirst_settles hms rfl ht (fun live hlive => ?_) none
      obtain ⟨b, hb, hshown⟩ : ∃ b : β, ofLive live = .ok b ∧ toLive b = live :=
        exists_toLive_eq hlive
      refine ⟨_, ⟨trivial, some b, congrArg some hshown, rfl⟩, ?_⟩
      simp only [ObjectRef.act_lend_object, Access.during_bind, Access.during_ofExcept,
        Access.during_modify, Access.during_pure]
      refine Act.map_gives.2 ⟨.nothing, Act.bind_gives.2 ⟨b, s, ?_, rfl⟩, rfl⟩
      exact Act.ofExcept_gives.2 ⟨hb, rfl⟩

/-- A document of one key. -/
theorem populate_singleton (hshapeOf : host.shapeOf (typeRef α) = pure shape) (sc : Scope σ)
    (r : Ref α) (key : String) (v : Value) :
    populate host sc r.object [(key, v)] = keyOf host sc shape (key, v) (r, sc.frames) := by
  refine (populate_eq_inOrder sc hshapeOf [(key, v)] (r, sc.frames)).trans ?_
  rw [inOrder, inOrder, bind_pure_unit]

/-- In strict mode a document of one key puts what its value resolves to into the field of the key
and changes nothing else, or it fails. Where it fails, in either mode, it changes nothing. -/
theorem Record.populate_puts {record : Record α} (hc : c ∈ record.attributes)
    (h : d.Fills host t c) (ht : t.isAtomic) (hshapeOf : host.shapeOf (typeRef α) = pure shape)
    (hmapLike : shape.mapLike = false) (hroute : shape.RoutesTo key d) (sc : Scope σ) (r : Ref α)
    (v : Value) {s s' : σ} :
    (sc.isStrict → (populate host sc r.object [(key, v)]).Gives s () s' →
      ∃ live,
        (resolveValue host ((sc.enter (.object r.object shape)).key key) t v).Gives s live s ∧
          Puts (record.ofObject r) c.name live s s' ∧ d.Returns host r.object live s') ∧
    ∀ e, (populate host sc r.object [(key, v)]).Raises s e s' → s' = s := by
  rw [populate_singleton hshapeOf]
  have hresolve : resolveValue host ((sc.enter (.object r.object shape)).key key) t v =
      .ofExcept (((sc.enter (.object r.object shape)).key key).required t v) :=
    resolveValue_atomic ht rfl
  cases h.settles (record.get_set c hc) ht hmapLike hroute sc v (r, sc.frames) s with
  | puts hrequired hQ hputs =>
      obtain ⟨hreturns, b, hb, rfl⟩ := hQ
      refine ⟨fun _ hgives => ?_, fun e hraises => absurd hraises hputs.not_raises⟩
      obtain ⟨-, rfl⟩ := hputs.unique hgives
      refine ⟨_, ?_, record.puts hc hb r s, hreturns⟩
      rw [hresolve]
      exact Act.ofExcept_gives.2 ⟨hrequired, rfl⟩
  | leaves hleaves hstrict =>
      refine ⟨fun hs hgives => ?_, fun e hraises => ?_⟩
      · obtain ⟨hok, -⟩ := Prod.mk.inj (hleaves.symm.trans hgives)
        exact absurd hok (hstrict hs ())
      · exact (Prod.mk.inj (hleaves.symm.trans hraises)).2.symm

end Keys

end BuildReplay
