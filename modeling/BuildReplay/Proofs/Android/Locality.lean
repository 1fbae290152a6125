import BuildReplay.Proofs.Android.Contents
import BuildReplay.Proofs.Android.Split
import BuildReplay.Proofs.Locality

/-! # What the table of an element reaches

The table of an element changes the element. Beside it, the requests in the table can reach the
application around the element, and all that they can change there is its resource prefix. -/

namespace BuildReplay.Android

open Act Law

/-! ## Changes of an element -/

section Touches

variable {β : Type} [Stored Model β]

def ApplicationExtension.withPrefix (p : Option String) (x : ApplicationExtension) :
    ApplicationExtension :=
  { x with resourcePrefix := p }

/-- The second model has come from the first one by changes of an element, and of the resource
prefix of the application. -/
inductive Touches (a : Ref ApplicationExtension) (r : Ref β) (m : Model) : Model → Prop where
  | refl : Touches a r m m
  | element {m'} (f : β → β) : Touches a r m m' → Touches a r m (r.modify f m')
  | resourcePrefix {m'} (p : Option String) : Touches a r m m' →
      Touches a r m (a.modify (·.withPrefix p) m')

variable {a : Ref ApplicationExtension} {r : Ref β} {m m' : Model}

theorem lookups_keep (I : Model → Prop) (sc : Scope Model) :
    Lookups (keeps I fun _ => True) host sc fun _ => True where
  shapeOf {t} _ m hm := by
    refine ⟨?_, fun _ _ _ => trivial⟩
    cases h : shape? t with
    | none =>
        rw [host_shapeOf_none h]
        exact hm
    | some shape =>
        rw [host_shapeOf_some h]
        exact hm
  build _ hgives hf := by
    rw [factory?_eq_none hgives] at hf
    cases hf
  getByName _ := getByName_keeps _ _ _

/-- Of the application's members, requests can only set the resource prefix. -/
theorem ApplicationExtension.member_keeps {I : Model → Prop}
    (hI : ∀ p m, I m → I (a.modify (·.withPrefix p) m)) :
    ∀ x, .member x ∈ ApplicationExtension.declarations →
      (Declaration.member x).ObeysAt (keeps I fun _ => True) host a.object := by
  intro x hx
  simp only [ApplicationExtension.declarations, List.mem_cons, List.not_mem_nil, or_false] at hx
  rcases hx with h | h | h | h | h | h | h | h | h | h <;> cases h
  · exact Declaration.setter_obeysAt (fun _ => trivial) fun p m hm => hI (some p) m hm
  · refine Declaration.call_obeysAt fun args => ?_
    rw [Access.during_bind]
    exact andThen (Declaration.ofLive_keeps (fun _ => trivial) _) fun name => keeps_read _

theorem application_keeps {I : Model → Prop}
    (hI : ∀ p m, I m → I (a.modify (·.withPrefix p) m)) {name : String} {arity : Nat}
    {x : Member Model} (hx : x ∈ applicationShape.overloads name arity) (args : List Live) :
    (keeps I fun _ => True).Obeys (x.invoke a.object args) :=
  ApplicationExtension.member_keeps hI x ((Shape.ofDeclarations_describedBy _ _).overloads hx).1 args

/-- A table for an object without nested ones keeps what the keys of the object keep, and what the
members around it do. -/
theorem populate_keeps {I : Model → Prop} {r : ObjectRef} {ds : List (Declaration Model)}
    (hshape : shape? r.type = some (.ofDeclarations r.type ds))
    (hne : r.type ≠ typeRef ApplicationExtension)
    (hds : ∀ d ∈ ds, d.ObeysAt (keeps I fun _ => True) host r) {sc : Scope Model}
    (hsc : sc.CallsObey (keeps I fun _ => True)) (t : Table) :
    (keeps I fun _ => True).Obeys (populate host sc r t) := by
  have hobeys := (Shape.ofDeclarations_describedBy r.type ds).obeysAt hds
  unfold populate
  rw [walkNext_object, host_shapeOf_some hshape, pure_bind]
  have hleaf : Shape.Leaf _ := shape?_leaf hne hshape
  refine hleaf.walkEntries_of_effects (fun key v => ?_) t
  refine hobeys.effects (lookups_keep _ _) ?_ fun _ => trivial
  intro self shape name arity x hframe hx args
  rcases Scope.mem_enter.1 hframe with heq | hframe
  · cases heq
    exact hobeys.invoke hx args
  · exact hsc hframe hx args

theorem Place.calls_keep {I : Model → Prop} (hI : ∀ p m, I m → I (a.modify (·.withPrefix p) m))
    (p : Place) (options : Options) (start : String) :
    (p.scope a options start).CallsObey (keeps I fun _ => True) := by
  intro self shape name arity x hframe hx args
  cases p <;>
  · simp only [Scope.key, Scope.enter, Place.scope, Scope.top, List.mem_cons, List.not_mem_nil,
      or_false, reduceCtorEq, false_or, Frame.object.injEq] at hframe
    obtain ⟨rfl, rfl⟩ := hframe
    exact application_keeps hI hx args

/-- The table of an element changes the element, and at most the resource prefix beside it. -/
theorem populate_touches {ds : List (Declaration Model)}
    (hshape : shape? (typeRef β) = some (.ofDeclarations (typeRef β) ds))
    (hne : typeRef β ≠ typeRef ApplicationExtension)
    (hds : ∀ d ∈ ds, d.ObeysAt (keeps (Touches a r m) fun _ => True) host r.object)
    (f : CollectionField) (name : String) (options : Options) (start : String) (t : Table) :
    Touches a r m
      (populate host ((Place.element f name).scope a options start) r.object t m).2 := by
  have hcalls : ((Place.element f name).scope a options start).CallsObey
      (keeps (Touches a r m) fun _ => True) :=
    Place.calls_keep (fun p _ hm => hm.resourcePrefix p) _ options start
  exact (populate_keeps hshape hne hds hcalls t m .refl).1

end Touches

section Declarations

variable {a : Ref ApplicationExtension} {m : Model}

theorem stored_touches {α β : Type} [Stored Model α] [ToLive β] [Plain β] [OfLive β] [Refusing β]
    (r : Ref α) (name : String) (type : ValueType) (get : α → β) (set : β → α → α) :
    (Declaration.stored name type get set : Declaration Model).ObeysAt
      (keeps (Touches a r m) fun _ => True) host r.object :=
  Declaration.stored_obeysAt (fun _ => trivial) fun b _ hm => hm.element (set b)

theorem BuildType.declarations_touch (r : Ref BuildType) :
    ∀ d ∈ BuildType.declarations,
      d.ObeysAt (keeps (Touches a r m) fun _ => True) host r.object := by
  simp only [BuildType.declarations, List.forall_mem_cons, Declaration.viewed_obeysAt,
    stored_touches, true_and]
  refine ⟨?_, ?_, ?_, ?_, fun d hd => absurd hd List.not_mem_nil⟩
  · exact Declaration.list_obeysAt rfl fun item => Ref.append_keeps (fun _ => trivial)
      fun _ _ hm => hm.element _
  · exact Declaration.list_obeysAt rfl fun item => Ref.append_keeps (fun _ => trivial)
      fun _ _ hm => hm.element _
  · exact Declaration.map_obeysAt rfl fun key item => Ref.insert_keeps (fun _ => trivial)
      fun _ _ hm => hm.element _
  · exact Declaration.call_obeysAt fun args =>
      BuildType.initWith_keeps (fun _ => trivial) r args _ fun other m hm => hm.element _

theorem ProductFlavor.declarations_touch (r : Ref ProductFlavor) :
    ∀ d ∈ ProductFlavor.declarations,
      d.ObeysAt (keeps (Touches a r m) fun _ => True) host r.object := by
  simp only [ProductFlavor.declarations, List.forall_mem_cons, Declaration.viewed_obeysAt,
    stored_touches, true_and]
  refine ⟨?_, fun d hd => absurd hd List.not_mem_nil⟩
  exact Declaration.map_obeysAt rfl fun key item => Ref.insert_keeps (fun _ => trivial)
    fun _ _ hm => hm.element _

theorem SigningConfig.declarations_touch (r : Ref SigningConfig) :
    ∀ d ∈ SigningConfig.declarations,
      d.ObeysAt (keeps (Touches a r m) fun _ => True) host r.object := by
  simp only [SigningConfig.declarations, List.forall_mem_cons, Declaration.viewed_obeysAt,
    stored_touches, true_and]
  exact fun d hd => absurd hd List.not_mem_nil

end Declarations

/-! ## What an application contains around its elements -/

/-- The contents are the same, but for the elements of some names in one collection, and for the
resource prefix. -/
def Contents.SameBut {γ : Type} (k : Lens Contents (String → Option γ)) (names : List String)
    (c c' : Contents) : Prop :=
  ∃ elements p, c' = resourcePrefixLens.set p (k.set elements c) ∧
    ∀ n, n ∉ names → elements n = k.get c n

/-- A collection whose elements lie apart from the resource prefix. -/
structure Confines {β : Type} [Stored Model β]
    (field : Lens ApplicationExtension (List (String × Ref β)))
    (k : Lens Contents (String → Option β)) : Prop extends Collects field k where
  withPrefix : ∀ p x, field.get (ApplicationExtension.withPrefix p x) = field.get x
  prefixApart : k.Apart Contents.resourcePrefixLens

section SameBut

variable {γ : Type} {k : Lens Contents (String → Option γ)}
  (hk : k.Apart Contents.resourcePrefixLens) {names names' : List String} {c c' c'' : Contents}

theorem Contents.SameBut.refl (k : Lens Contents (String → Option γ)) (names : List String)
    (c : Contents) : SameBut k names c c :=
  ⟨k.get c, c.resourcePrefix, by rw [k.set_get]; rfl, fun _ _ => rfl⟩

theorem Contents.SameBut.mono (h : SameBut k names c c') (hnames : names ⊆ names') :
    SameBut k names' c c' := by
  obtain ⟨elements, p, hc', helements⟩ := h
  exact ⟨elements, p, hc', fun n hn => helements n fun hmem => hn (hnames hmem)⟩

include hk

theorem Contents.SameBut.trans (h : SameBut k names c c') (h' : SameBut k names c' c'') :
    SameBut k names c c'' := by
  obtain ⟨elements, p, rfl, helements⟩ := h
  obtain ⟨elements', p', rfl, helements'⟩ := h'
  refine ⟨elements', p', ?_, fun n hn => ?_⟩
  · rw [hk, k.set_set, resourcePrefixLens.set_set]
  · rw [helements' n hn, hk.get_set, k.get_set, helements n hn]

theorem Contents.SameBut.get_eq (h : SameBut k names c c') {n : String} (hn : n ∉ names) :
    k.get c' n = k.get c n := by
  obtain ⟨elements, p, rfl, helements⟩ := h
  rw [hk.get_set, k.get_set, helements n hn]

end SameBut

section Confines

variable {β : Type} [Stored Model β] {field : Lens ApplicationExtension (List (String × Ref β))}
  {k : Lens Contents (String → Option β)} (hk : Confines field k) {a : Ref ApplicationExtension}
  {m m' : Model} {name : String} {r : Ref β}
include hk

omit hk [Stored Model β] in
theorem Contents.sameBut_upsert (k : Lens Contents (String → Option β)) (name : String) (b : β)
    (f : β → β) (c : Contents) :
    SameBut k [name] c ((k.comp (Lens.point name)).upsert b f c) := by
  refine ⟨Function.update (k.get c) name (some (f ((k.get c name).getD b))),
    resourcePrefixLens.get ((k.comp (Lens.point name)).upsert b f c), ?_, fun n hn => ?_⟩
  · exact (resourcePrefixLens.set_get _).symm
  · exact Function.update_of_ne (List.ne_of_not_mem_cons hn) _ _

theorem find?_of_mem (make : String → β) (hm : (a.get m).Sound m)
    (hmem : (name, r) ∈ field.get (a.get m)) :
    (a.collection field make).find? name m = some r :=
  congrArg (Option.map fun e : String × Ref β => e.2) ((hk.holds hm).find?_eq hmem)

/-- A change of an element of the application shows under its name. -/
theorem modify_sameBut (f : β → β) (hm : (a.get m).Sound m)
    (hmem : (name, r) ∈ field.get (a.get m)) :
    (a.get (r.modify f m)).Sound (r.modify f m) ∧
      field.get (a.get (r.modify f m)) = field.get (a.get m) ∧
      Contents.SameBut k [name] ((a.get m).contents m)
        ((a.get (r.modify f m)).contents (r.modify f m)) := by
  have hget : (a.get (r.modify f m) : ApplicationExtension) = a.get m :=
    (hk.apart.symm.comp_left (Heap.object a.id)).get_set _ m
  obtain ⟨r', m₁, hobtain, hmoves⟩ := hk.obtain_moves (i := (a, [])) (fun _ => r.get m) name hm
  rw [NamedCollection.obtain_of_find? (find?_of_mem hk _ hm hmem)] at hobtain
  cases hobtain
  obtain ⟨hsound, hcontents⟩ := hmoves f
  refine ⟨hsound, congrArg field.get hget, ?_⟩
  exact hcontents ▸ Contents.sameBut_upsert k name _ f _

/-- Changes of an element of the application show under its name. -/
theorem Touches.sameBut (hm : (a.get m).Sound m) (hmem : (name, r) ∈ field.get (a.get m))
    (h : Touches a r m m') :
    (a.get m').Sound m' ∧ field.get (a.get m') = field.get (a.get m) ∧
      Contents.SameBut k [name] ((a.get m).contents m) ((a.get m').contents m') := by
  induction h with
  | refl => exact ⟨hm, rfl, .refl k [name] _⟩
  | @element m' f _ ih =>
      obtain ⟨hm', hfield, hsame⟩ := ih
      obtain ⟨hsound, hfield', hsame'⟩ := modify_sameBut hk f hm' (hfield ▸ hmem)
      exact ⟨hsound, hfield'.trans hfield, hsame.trans hk.prefixApart hsame'⟩
  | @resourcePrefix m' p _ ih =>
      obtain ⟨hm', hfield, hsame⟩ := ih
      have hget : (a.get (a.modify (·.withPrefix p) m') : ApplicationExtension) =
          (a.get m').withPrefix p := Lens.get_modify _ _ m'
      refine ⟨sound_modify ⟨hm'.buildTypes, hm'.productFlavors, hm'.signingConfigs⟩, ?_, ?_⟩
      · rw [hget, hk.withPrefix, hfield]
      · refine hsame.trans hk.prefixApart ?_
        rw [contents_modify]
        exact ⟨k.get ((a.get m').contents m'), p, by rw [k.set_get]; rfl, fun _ _ => rfl⟩

/-- The element of a name, made where it is missing, is an element of the application, and its
making shows under its name alone. -/
theorem obtain_sameBut (make : String → β) (name : String) (hm : (a.get m).Sound m) :
    ∃ (r : Ref β) (m₁ : Model), (a.collection field make).obtain name m = (r, m₁) ∧
      (a.get m₁).Sound m₁ ∧ (name, r) ∈ field.get (a.get m₁) ∧
      Contents.SameBut k [name] ((a.get m).contents m) ((a.get m₁).contents m₁) := by
  obtain ⟨es, h, r, _, hobtain, rfl, hholds, hmem, helement⟩ :=
    Ref.obtain_eq field make hk.apart a name (hk.holds hm)
  obtain ⟨r', m₁, hobtain', hmoves⟩ := hk.obtain_moves (i := (a, [])) make name hm
  rw [hobtain] at hobtain'
  cases hobtain'
  obtain ⟨hsound, hcontents⟩ := hmoves fun b => b
  rw [Ref.modify, Lens.modify_id] at hsound hcontents
  refine ⟨r, _, hobtain, hsound, ?_, ?_⟩
  · have hget : a.get (a.modify (field.set es) (Stored.heap.set h m)) =
        field.set es (a.get (Stored.heap.set h m)) := Lens.get_modify _ _ _
    rw [hget, field.get_set]
    exact hmem
  · exact hcontents ▸ Contents.sameBut_upsert k name _ _ _

end Confines

theorem confines_buildTypes :
    Confines { get := ApplicationExtension.buildTypes
               set := fun v a => { a with buildTypes := v } }
      Contents.buildTypesLens :=
  { collects_buildTypes with withPrefix := fun _ _ => rfl, prefixApart := fun _ _ _ => rfl }

theorem confines_productFlavors :
    Confines { get := ApplicationExtension.productFlavors
               set := fun v a => { a with productFlavors := v } }
      Contents.productFlavorsLens :=
  { collects_productFlavors with withPrefix := fun _ _ => rfl, prefixApart := fun _ _ _ => rfl }

theorem confines_signingConfigs :
    Confines { get := ApplicationExtension.signingConfigs
               set := fun v a => { a with signingConfigs := v } }
      Contents.signingConfigsLens :=
  { collects_signingConfigs with withPrefix := fun _ _ => rfl, prefixApart := fun _ _ _ => rfl }

/-! ## Tables of elements -/

namespace CollectionField

/-- The contents are the same, but for the elements of some names in the collection, and for the
resource prefix. -/
def SameBut (names : List String) (c c' : Contents) : CollectionField → Prop
  | buildTypes => Contents.SameBut Contents.buildTypesLens names c c'
  | productFlavors => Contents.SameBut Contents.productFlavorsLens names c c'
  | signingConfigs => Contents.SameBut Contents.signingConfigsLens names c c'

variable {names names' : List String} {c c' c'' : Contents}

theorem SameBut.refl (f : CollectionField) (names : List String) (c : Contents) :
    f.SameBut names c c := by
  cases f <;> exact Contents.SameBut.refl _ _ _

theorem SameBut.mono {f : CollectionField} (h : f.SameBut names c c') (hnames : names ⊆ names') :
    f.SameBut names' c c' := by
  cases f <;> exact Contents.SameBut.mono h hnames

theorem SameBut.trans {f : CollectionField} (h : f.SameBut names c c')
    (h' : f.SameBut names c' c'') : f.SameBut names c c'' := by
  cases f <;> exact Contents.SameBut.trans (fun _ _ _ => rfl) h h'

/-- The other collections hold the same elements. -/
theorem SameBut.others {f : CollectionField} (h : f.SameBut names c c') :
    (f ≠ buildTypes → c'.buildTypes = c.buildTypes) ∧
    (f ≠ productFlavors → c'.productFlavors = c.productFlavors) ∧
    (f ≠ signingConfigs → c'.signingConfigs = c.signingConfigs) := by
  cases f with
  | buildTypes =>
      obtain ⟨_, _, rfl, -⟩ := h
      exact ⟨fun hne => absurd rfl hne, fun _ => rfl, fun _ => rfl⟩
  | productFlavors =>
      obtain ⟨_, _, rfl, -⟩ := h
      exact ⟨fun _ => rfl, fun hne => absurd rfl hne, fun _ => rfl⟩
  | signingConfigs =>
      obtain ⟨_, _, rfl, -⟩ := h
      exact ⟨fun _ => rfl, fun _ => rfl, fun hne => absurd rfl hne⟩

end CollectionField

section Tables

variable {a : Ref ApplicationExtension} {m : Model}

theorem element_sameBut {β : Type} [Stored Model β]
    {field : Lens ApplicationExtension (List (String × Ref β))}
    {k : Lens Contents (String → Option β)} (hk : Confines field k) (make : String → β)
    {ds : List (Declaration Model)}
    (hshape : shape? (typeRef β) = some (.ofDeclarations (typeRef β) ds))
    (hne : typeRef β ≠ typeRef ApplicationExtension)
    (hds : ∀ {m : Model} (r : Ref β), ∀ d ∈ ds,
      d.ObeysAt (keeps (Touches a r m) fun _ => True) host r.object)
    {f : CollectionField} (hf : f.collection a = a.collection field make) (name : String)
    (options : Options) (start : String) (t : Table) (hm : (a.get m).Sound m) {m' : Model}
    (hm' : (replay host options start ((Place.element f name).table t) a.object m).2 = m') :
    Contents.SameBut k [name] ((a.get m).contents m) ((a.get m').contents m') := by
  obtain ⟨r, m₁, hobtain, hsound, hmem, hmade⟩ := obtain_sameBut hk make name hm
  have hreach : ((Place.element f name).reach a).Gives m r.object m₁ := by
    rw [Place.reach, hf, Gives, NamedCollection.maybeCreate, hobtain]
    rfl
  rw [Place.replay_table, hreach.bind_eq] at hm'
  have htouches := populate_touches (a := a) (m := m₁) hshape hne (hds r) f name options start t
  rw [hm'] at htouches
  exact hmade.trans hk.prefixApart (htouches.sameBut hk hsound hmem).2.2

/-- The table of an element leaves all other elements as they are, and all that the application
holds beside them other than the resource prefix. -/
theorem replay_element_sameBut (f : CollectionField) (name : String) (options : Options)
    (start : String) (t : Table) (hm : (a.get m).Sound m) {m' : Model}
    (hm' : (replay host options start ((Place.element f name).table t) a.object m).2 = m') :
    f.SameBut [name] ((a.get m).contents m) ((a.get m').contents m') := by
  cases f with
  | buildTypes =>
      exact element_sameBut confines_buildTypes _ rfl (of_decide_eq_false rfl)
        BuildType.declarations_touch rfl name options start t hm hm'
  | productFlavors =>
      exact element_sameBut confines_productFlavors _ rfl (of_decide_eq_false rfl)
        ProductFlavor.declarations_touch rfl name options start t hm hm'
  | signingConfigs =>
      exact element_sameBut confines_signingConfigs _ rfl (of_decide_eq_false rfl)
        SigningConfig.declarations_touch rfl name options start t hm hm'

end Tables

end BuildReplay.Android
