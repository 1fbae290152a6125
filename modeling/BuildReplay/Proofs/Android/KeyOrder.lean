import BuildReplay.Proofs.Android.Cells
import BuildReplay.Proofs.Android.Contents

/-! # The order of keys

What a plain table makes of an application does not depend on the order of its keys, at any depth,
and neither does whether it is accepted. Each key changes a part of the contents of its own: a
setting, the contents of one object, or the elements of one collection, of which each name in turn
is changed on its own. -/

namespace BuildReplay.Android

/-! ## Settings -/

namespace ApplicationExtension

/-- The names of the fields that hold objects and collections. -/
def nested : List String :=
  ["defaultConfig", "buildTypes", "productFlavors", "signingConfigs", "compileOptions"]

def packageNameLens : Lens ApplicationExtension (Option String) :=
  .ofField packageName fun v a => { a with packageName := v }

def compileSdkLens : Lens ApplicationExtension (Option Int32) :=
  .ofField compileSdk fun v a => { a with compileSdk := v }

def resourcePrefixLens : Lens ApplicationExtension (Option String) :=
  .ofField resourcePrefix fun v a => { a with resourcePrefix := v }

def flavorDimensionsLens : Lens ApplicationExtension (List String) :=
  .ofField flavorDimensions fun v a => { a with flavorDimensions := v }

/-- The settings of an application itself. -/
def cells : Cells ApplicationExtension :=
  .ofList [
    (.field "namespace", .value packageNameLens),
    (.field "compileSdk", .value compileSdkLens),
    (.field "flavorDimensions", .any flavorDimensionsLens),
    (.member "resourcePrefix", .value resourcePrefixLens)]

theorem own : ∀ d ∈ declarations, ∀ b, d.binding? = some b → (∀ name ∈ nested, b ≠ .field name) →
    d.Own host (cells.cell b) := by
  intro d hd b hb hnested
  simp only [declarations, List.mem_cons, List.not_mem_nil, or_false] at hd
  rcases hd with rfl | rfl | rfl | rfl | rfl | rfl | rfl | rfl | rfl | rfl <;> cases hb
  · exact Declaration.stored_own rfl (Lens.set_mem_writes packageNameLens)
  · exact Declaration.stored_own rfl (Lens.set_mem_writes compileSdkLens)
  · exact absurd rfl (hnested "defaultConfig" (by decide))
  · exact absurd rfl (hnested "buildTypes" (by decide))
  · exact absurd rfl (hnested "productFlavors" (by decide))
  · exact absurd rfl (hnested "signingConfigs" (by decide))
  · exact absurd rfl (hnested "compileOptions" (by decide))
  · exact .list (fun _ => rfl) fun _ => Lens.modify_mem_changes flavorDimensionsLens _
  · exact Declaration.setter_own rfl fun b => Lens.set_mem_writes resourcePrefixLens (some b)
  · exact Declaration.query_own rfl

/-- The keys of objects and collections, besides those that are not plain. -/
def IsNested (key : String) : Prop :=
  IsBarred key ∨ ∃ name ∈ nested, applicationShape.binding? key = some (.field name)

theorem ownType : OwnType host applicationShape cells IsNested where
  described := by
    refine ⟨declarations, Shape.ofDeclarations_describedBy _ _, fun key hkey d hd b hb hbinding => ?_⟩
    exact own d hd b hb fun name hname heq => hkey (.inr ⟨name, hname, heq ▸ hbinding⟩)
  mapLike := rfl
  dispatch := .inl (.inl rfl)
  shapeOf := host_shapeOf_application

end ApplicationExtension

/-- The settings of an application, and other parts of what it contains. -/
abbrev Contents.settingsAnd (l : List (Binding × Part Contents)) : List (Binding × Part Contents) :=
  (.field "namespace", .value packageNameLens) ::
  (.field "compileSdk", .value compileSdkLens) ::
  (.field "flavorDimensions", .any flavorDimensionsLens) ::
  (.member "resourcePrefix", .value resourcePrefixLens) :: l

/-- The parts of what an application contains, each of them changed by a key of its own. -/
def Contents.cells : Cells Contents :=
  .ofList <| settingsAnd [
    (.field "defaultConfig", .any defaultConfigLens),
    (.field "buildTypes", .any buildTypesLens),
    (.field "productFlavors", .any productFlavorsLens),
    (.field "signingConfigs", .any signingConfigsLens),
    (.field "compileOptions", .any compileOptionsLens)]

/-- The settings show, whatever else there is. -/
theorem shows_cell {l : List (Binding × Part Contents)}
    {h : (Contents.settingsAnd l).Pairwise fun x y => x.2.lens.Apart y.2.lens} (b : Binding) :
    Shows (ApplicationExtension.cells.cell b) ((Cells.ofList (Contents.settingsAnd l) h).cell b) := by
  rcases Cells.cell_ofList (l := _) (h := _) b with hbot | ⟨part, hmem, hcell⟩
  · rw [ApplicationExtension.cells, hbot]
    exact .bot _
  · rw [ApplicationExtension.cells, hcell]
    simp only [List.mem_cons, Prod.mk.injEq, List.not_mem_nil, or_false] at hmem
    rcases hmem with ⟨rfl, rfl⟩ | ⟨rfl, rfl⟩ | ⟨rfl, rfl⟩ | ⟨rfl, rfl⟩
    · exact shows_writes (k := Contents.packageNameLens) (fun _ _ => rfl) fun _ _ _ => rfl
    · exact shows_writes (k := Contents.compileSdkLens) (fun _ _ => rfl) fun _ _ _ => rfl
    · exact shows_changes (k := Contents.flavorDimensionsLens) (fun _ _ => rfl) fun _ _ _ => rfl
    · exact shows_writes (k := Contents.resourcePrefixLens) (fun _ _ => rfl) fun _ _ _ => rfl

theorem route_of_field {f : Field Model} {key : String}
    (hf : .readOnly f ∈ ApplicationExtension.declarations)
    (hbinding : applicationShape.binding? key = some (.field f.name)) :
    route applicationShape key = .readOnly f :=
  Shape.routesTo_of_binding? (Shape.ofDeclarations_describedBy _ _)
    (declarationTable_distinct _ (.head _)) hf rfl hbinding

section Keys

variable (sc : Scope Model) {key : String} {v v' : Value} (hv : v.Shuffled v')
include hv

/-- A key of a setting. -/
theorem setting_alike {l : List (Binding × Part Contents)}
    {h : (Contents.settingsAnd l).Pairwise fun x y => x.2.lens.Apart y.2.lens}
    (hkey : ¬ApplicationExtension.IsNested key)
    (hnodup : applicationShape.subject key = .entries → ∀ t : Table, v = .table t →
      v = v' ∨ t.keys.Nodup) :
    applicationTrack.Alike ((Cells.ofList (Contents.settingsAnd l) h).ofKey applicationShape key)
      (keyOf host sc applicationShape (key, v)) (keyOf host sc applicationShape (key, v')) := by
  refine Shows.lift ?_ (ApplicationExtension.ownType.keyOf_alike sc hkey hv hnodup)
  unfold Cells.ofKey
  split
  · exact shows_cell _
  · exact .bot _

/-! ## Objects -/

/-- A key of an object that the application has changes it as its table does. -/
theorem object_lift {β : Type} [Stored Model β] {ref : ApplicationExtension → Ref β}
    {k : Lens Contents β} {f : Field Model} {K : Submonoid (Function.End β)}
    {K' : Submonoid (Function.End Contents)}
    (hf : .readOnly f ∈ ApplicationExtension.declarations)
    (hbinding : applicationShape.binding? key = some (.field f.name))
    (hread : ∀ (a : Ref ApplicationExtension) (m : Model),
      f.read a.object m = .ok (.object (ref (a.get m)).object))
    (hnests : Nests ref k) (hK : ∀ g ∈ K, k.modify g ∈ K')
    (hbelow : ∀ t t' : Table, v = .table t → v' = .table t' → (objectTrack Model β).Alike K
      (fun i => populate host ⟨(sc.key key).options, (sc.key key).path, i.2⟩ i.1.object t)
      fun i => populate host ⟨(sc.key key).options, (sc.key key).path, i.2⟩ i.1.object t') :
    applicationTrack.Alike K' (keyOf host sc applicationShape (key, v))
      (keyOf host sc applicationShape (key, v')) := by
  have hroute := route_of_field hf hbinding
  by_cases htable : v.isTable
  · obtain ⟨t, rfl⟩ := Value.exists_of_isTable htable
    obtain ⟨u, t', rfl, -, -⟩ := hv.exists_of_table
    have hdoes : ∀ {t : Table} {r : Except Error Unit} {f : Function.End β},
        (objectTrack Model β).Does (fun i => populate host ⟨(sc.key key).options, (sc.key key).path,
          i.2⟩ i.1.object t) r f →
        applicationTrack.Does (keyOf host sc applicationShape (key, .table t)) r (k.modify f) := by
      intro t r f hx i m hm
      obtain ⟨_, hrun, rfl⟩ :=
        hx (ref (i.1.get m), .object i.1.object applicationShape :: i.2) m trivial
      exact ⟨_, (keyOf_object hroute (hread i.1 m) t).trans hrun, hnests.moves f hm⟩
    exact (hbelow t t' rfl rfl).lift fun g hg => ⟨_, hK g hg, fun _ => hdoes, fun _ => hdoes⟩
  · have htable : v.isTable = false := by simpa using htable
    rw [hv.eq_of_not_table htable]
    have hdoes : applicationTrack.Does (keyOf host sc applicationShape (key, v))
        (.error ((sc.key key).cannotTake applicationShape f "object" v)) 1 := fun i m hm =>
      ⟨m, keyOf_object_refused hroute (hread i.1 m) htable, applicationTrack.one hm⟩
    exact .error K'.one_mem K'.one_mem hdoes hdoes

theorem object_alike {β : Type} [Stored Model β] {ref : ApplicationExtension → Ref β}
    {k : Lens Contents β} {f : Field Model} {shape : Shape Model} {cells : Cells β}
    (hf : .readOnly f ∈ ApplicationExtension.declarations) (htype : f.type = .object (typeRef β))
    (hbinding : applicationShape.binding? key = some (.field f.name))
    (hread : ∀ (a : Ref ApplicationExtension) (m : Model),
      f.read a.object m = .ok (.object (ref (a.get m)).object))
    (hnests : Nests ref k) (hown : OwnType host shape cells IsBarred)
    (hshape : shape? (typeRef β) = some shape)
    (hplain : ∀ body : Table, v = .table body →
      body.Plain shape? IsBarred (applicationShape.subject key)) :
    applicationTrack.Alike k.changes (keyOf host sc applicationShape (key, v))
      (keyOf host sc applicationShape (key, v')) := by
  simp only [Shape.subject, route_of_field hf hbinding, htype, ValueType.subject] at hplain
  refine object_lift (K := ⊤) sc hv hf hbinding hread hnests (fun g _ => k.modify_mem_changes g) ?_
  rintro t t' rfl rfl
  obtain ⟨u, t', heq, hmatched, hperm⟩ := hv.exists_of_table
  cases heq
  exact hown.populate_alike hshape (sc.key key) (hplain t rfl) hmatched hperm

/-! ## Collections -/

/-- A table for an element, which is made where it is missing, changes it as the table does. -/
theorem element_lift {β : Type} [Stored Model β]
    {field : Lens ApplicationExtension (List (String × Ref β))}
    {k : Lens Contents (String → Option β)} {make : String → β} {fieldName : String}
    {K : Submonoid (Function.End β)} {K' : Submonoid (Function.End Contents)}
    (hcollects : Collects field k)
    (hnamed : ∀ a : Ref ApplicationExtension,
      host.named? ⟨a.object, fieldName⟩ = some (a.collection field make)) (name : String)
    (hK : ∀ f ∈ K, (k.comp (Lens.point name)).upsert (make name) f ∈ K')
    (hbelow : ∀ t t' : Table, v = .table t → v' = .table t' → (objectTrack Model β).Alike K
      (fun i => populate host ⟨(sc.key name).options, (sc.key name).path, i.2⟩ i.1.object t)
      fun i => populate host ⟨(sc.key name).options, (sc.key name).path, i.2⟩ i.1.object t') :
    applicationTrack.Alike K'
      (fun i => elementEntry host (sc.around applicationShape i) (typeRef β)
        ⟨i.1.object, fieldName⟩ (name, v))
      fun i => elementEntry host (sc.around applicationShape i) (typeRef β)
        ⟨i.1.object, fieldName⟩ (name, v') := by
  by_cases htable : v.isTable
  · obtain ⟨t, rfl⟩ := Value.exists_of_isTable htable
    obtain ⟨u, t', rfl, -, -⟩ := hv.exists_of_table
    have hdoes : ∀ {t : Table} {r : Except Error Unit} {f : Function.End β},
        (objectTrack Model β).Does (fun i => populate host ⟨(sc.key name).options,
          (sc.key name).path, i.2⟩ i.1.object t) r f →
        applicationTrack.Does (fun i => elementEntry host (sc.around applicationShape i) (typeRef β)
          ⟨i.1.object, fieldName⟩ (name, .table t)) r
          ((k.comp (Lens.point name)).upsert (make name) f) := by
      intro t r f hx i m hm
      obtain ⟨b, m₁, hobtain, hmoves⟩ := hcollects.obtain_moves make name hm
      obtain ⟨_, hrun, rfl⟩ := hx (b, .collection (typeRef β) ⟨i.1.object, fieldName⟩ ::
        .object i.1.object applicationShape :: i.2) m₁ trivial
      have hcreate : (host.maybeCreate ⟨i.1.object, fieldName⟩ name).Gives m b.object m₁ := by
        rw [Host.maybeCreate, hnamed]
        exact congrArg (fun p : Ref β × Model => (Except.ok p.1.object, p.2)) hobtain
      have hentry := elementEntry_table host (sc.around applicationShape i) (typeRef β)
        ⟨i.1.object, fieldName⟩ name t
      exact ⟨_, (congrFun hentry m).trans ((hcreate.bind_eq _).trans hrun), hmoves f⟩
    exact (hbelow t t' rfl rfl).lift fun f hf => ⟨_, hK f hf, fun _ => hdoes, fun _ => hdoes⟩
  · have htable : v.isTable = false := by simpa using htable
    rw [hv.eq_of_not_table htable]
    simp only [elementEntry_of_not_table _ _ _ _ _ htable, Scope.around_key, Scope.around_keyPath]
    exact .throw _ _

theorem element_alike {β : Type} [Stored Model β]
    {field : Lens ApplicationExtension (List (String × Ref β))}
    {k : Lens Contents (String → Option β)} {make : String → β} {shape : Shape Model}
    {cells : Cells β} {fieldName : String} (hcollects : Collects field k)
    (hnamed : ∀ a : Ref ApplicationExtension,
      host.named? ⟨a.object, fieldName⟩ = some (a.collection field make))
    (hown : OwnType host shape cells IsBarred) (hshape : shape? (typeRef β) = some shape)
    (name : String)
    (hplain : ∀ body : Table, v = .table body → body.Plain shape? IsBarred (.object (typeRef β))) :
    applicationTrack.Alike (k.comp (Lens.point name)).changes
      (fun i => elementEntry host (sc.around applicationShape i) (typeRef β)
        ⟨i.1.object, fieldName⟩ (name, v))
      fun i => elementEntry host (sc.around applicationShape i) (typeRef β)
        ⟨i.1.object, fieldName⟩ (name, v') := by
  refine element_lift (K := ⊤) sc hv hcollects hnamed name (fun f _ => Lens.modify_mem_changes _ _) ?_
  rintro t t' rfl rfl
  obtain ⟨u, t', heq, hmatched, hperm⟩ := hv.exists_of_table
  cases heq
  exact hown.populate_alike hshape (sc.key name) (hplain t rfl) hmatched hperm

/-- A key of a collection that the application has. -/
theorem collection_alike {β : Type} [Stored Model β]
    {field : Lens ApplicationExtension (List (String × Ref β))}
    {k : Lens Contents (String → Option β)} {make : String → β} {shape : Shape Model}
    {cells : Cells β} {fieldName : String}
    (hf : .readOnly (.held ApplicationExtension fieldName (.named (typeRef β))
      (.named (typeRef β))) ∈ ApplicationExtension.declarations)
    (hbinding : applicationShape.binding? key = some (.field fieldName))
    (hcollects : Collects field k)
    (hnamed : ∀ a : Ref ApplicationExtension,
      host.named? ⟨a.object, fieldName⟩ = some (a.collection field make))
    (hown : OwnType host shape cells IsBarred) (hshape : shape? (typeRef β) = some shape)
    (hplain : ∀ body : Table, v = .table body →
      body.Plain shape? IsBarred (applicationShape.subject key)) :
    applicationTrack.Alike k.changes (keyOf host sc applicationShape (key, v))
      (keyOf host sc applicationShape (key, v')) := by
  have hroute := route_of_field hf hbinding
  simp only [Shape.subject, hroute] at hplain
  by_cases htable : v.isTable
  · obtain ⟨t, rfl⟩ := Value.exists_of_isTable htable
    obtain ⟨u, t', rfl, hmatched, hperm⟩ := hv.exists_of_table
    rw [keyOf_elements hroute, keyOf_elements hroute]
    cases hplain t rfl with
    | elements hnodup hbelow =>
        have helements := hmatched.forall₂ (R := fun e e' => applicationTrack.Alike
          (k.comp (Lens.point e.1)).changes
          (fun i => elementEntry host ((sc.key key).around applicationShape i) (typeRef β)
            ⟨i.1.object, fieldName⟩ e)
          fun i => elementEntry host ((sc.key key).around applicationShape i) (typeRef β)
            ⟨i.1.object, fieldName⟩ e') fun name v v' hmem hv =>
              element_alike (sc.key key) hv hcollects hnamed hown hshape name fun body hbody =>
                hbelow name body (hbody ▸ hmem)
        refine Track.Alike.inOrder_perm helements hperm ?_ fun e _ =>
          Lens.changes_comp_le k (Lens.point e.1)
        exact (List.pairwise_map.1 hnodup).imp fun hne f hf g hg =>
          ((Lens.point_apart hne).comp k).commute hf hg
  · have htable : v.isTable = false := by simpa using htable
    rw [hv.eq_of_not_table htable]
    rw [keyOf_elements_refused hroute htable]
    exact .throw _ _

end Keys

/-! ## Applications -/

/-- Every key that may stand in a plain table changes a part of its own. -/
theorem key_alike (sc : Scope Model) {key : String} {v v' : Value} (hkey : ¬IsBarred key)
    (hv : v.Shuffled v')
    (hplain : ∀ body : Table, v = .table body →
      body.Plain shape? IsBarred (applicationShape.subject key)) :
    applicationTrack.Alike (Contents.cells.ofKey applicationShape key)
      (keyOf host sc applicationShape (key, v)) (keyOf host sc applicationShape (key, v')) := by
  by_cases hnested : ApplicationExtension.IsNested key
  · obtain ⟨name, hname, hbinding⟩ := hnested.resolve_left hkey
    rw [Cells.ofKey, hbinding]
    simp only [ApplicationExtension.nested, List.mem_cons, List.not_mem_nil, or_false] at hname
    rcases hname with rfl | rfl | rfl | rfl | rfl
    · exact object_alike sc hv (List.mem_of_getElem? (i := 2) rfl) rfl hbinding (fun _ _ => rfl)
        nests_defaultConfig DefaultConfig.ownType rfl hplain
    · exact collection_alike sc hv (List.mem_of_getElem? (i := 3) rfl) hbinding
        collects_buildTypes (fun _ => rfl) BuildType.ownType rfl hplain
    · exact collection_alike sc hv (List.mem_of_getElem? (i := 4) rfl) hbinding
        collects_productFlavors (fun _ => rfl) ProductFlavor.ownType rfl hplain
    · exact collection_alike sc hv (List.mem_of_getElem? (i := 5) rfl) hbinding
        collects_signingConfigs (fun _ => rfl) SigningConfig.ownType rfl hplain
    · exact object_alike sc hv (List.mem_of_getElem? (i := 6) rfl) rfl hbinding (fun _ _ => rfl)
        nests_compileOptions CompileOptions.ownType rfl hplain
  · exact setting_alike sc hv hnested (nodup_of_plain hplain)

/-- The order of the keys does not matter in a plain table for an application. -/
theorem populate_application_alike (sc : Scope Model) {d u d' : Table}
    (hplain : d.Plain shape? IsBarred (.object (typeRef ApplicationExtension)))
    (hmatched : d.Matched u) (hperm : u.Perm d') :
    applicationTrack.Alike ⊤
      (fun i => populate host ⟨sc.options, sc.path, i.2⟩ i.1.object d)
      fun i => populate host ⟨sc.options, sc.path, i.2⟩ i.1.object d' :=
  populate_alike sc host_shapeOf_application rfl
    (fun _ _ _ hkey hv hbelow => key_alike sc hkey hv hbelow) hplain hmatched hperm

/-- The elements of a collection with their names, in the order of their creation. -/
def elements {β : Type} [Stored Model β] (es : List (String × Ref β)) (m : Model) :
    List (String × β) := es.map fun e => (e.1, e.2.get m)

/-- Two states of an application with the same settings, the same objects and the same elements,
which may have been made in another order. -/
structure SameUpToOrder (a : Ref ApplicationExtension) (m m' : Model) : Prop where
  packageName : (a.get m').packageName = (a.get m).packageName
  compileSdk : (a.get m').compileSdk = (a.get m).compileSdk
  resourcePrefix : (a.get m').resourcePrefix = (a.get m).resourcePrefix
  flavorDimensions : (a.get m').flavorDimensions = (a.get m).flavorDimensions
  projectDir : (a.get m').projectDir = (a.get m).projectDir
  defaultConfig : (a.get m').defaultConfig.get m' = (a.get m).defaultConfig.get m
  compileOptions : (a.get m').compileOptions.get m' = (a.get m).compileOptions.get m
  buildTypes : (elements (a.get m').buildTypes m').Perm (elements (a.get m).buildTypes m)
  productFlavors :
    (elements (a.get m').productFlavors m').Perm (elements (a.get m).productFlavors m)
  signingConfigs :
    (elements (a.get m').signingConfigs m').Perm (elements (a.get m).signingConfigs m)

theorem SameUpToOrder.of_contents {a : Ref ApplicationExtension} {m m' : Model}
    (hm : (a.get m).Sound m) (hm' : (a.get m').Sound m')
    (h : (a.get m').contents m' = (a.get m).contents m) : SameUpToOrder a m m' where
  packageName := congrArg Contents.packageName h
  compileSdk := congrArg Contents.compileSdk h
  resourcePrefix := congrArg Contents.resourcePrefix h
  flavorDimensions := congrArg Contents.flavorDimensions h
  projectDir := congrArg Contents.projectDir h
  defaultConfig := congrArg Contents.defaultConfig h
  compileOptions := congrArg Contents.compileOptions h
  buildTypes := hm.buildTypes.perm hm'.buildTypes (congrArg Contents.buildTypes h)
  productFlavors := hm.productFlavors.perm hm'.productFlavors (congrArg Contents.productFlavors h)
  signingConfigs := hm.signingConfigs.perm hm'.signingConfigs (congrArg Contents.signingConfigs h)

/-- A plain table and any order of its keys are both accepted or both refused, and they make the
same of an application, up to the order in which the elements of its collections are made. -/
theorem replay_shuffled (options : Options) (start : String) {a : Ref ApplicationExtension}
    {m : Model} (hm : (a.get m).Sound m) {d d' : Table}
    (hplain : d.Plain shape? IsBarred (.object (typeRef ApplicationExtension)))
    (hshuffled : (Value.table d).Shuffled (.table d')) :
    ((∃ m₁, (replay host options start d a.object).Gives m () m₁) ↔
      ∃ m₂, (replay host options start d' a.object).Gives m () m₂) ∧
    ∀ m₁ m₂, (replay host options start d a.object).Gives m () m₁ →
      (replay host options start d' a.object).Gives m () m₂ → SameUpToOrder a m₁ m₂ := by
  obtain ⟨u, t', heq, hmatched, hperm⟩ := hshuffled.exists_of_table
  cases heq
  cases populate_application_alike (.top options start) hplain hmatched hperm with
  | ok _ hd hd' =>
      obtain ⟨m₁, hrun, hsound, hcontents⟩ := hd (a, []) m hm
      obtain ⟨m₂, hrun', hsound', hcontents'⟩ := hd' (a, []) m hm
      refine ⟨⟨fun _ => ⟨m₂, hrun'⟩, fun _ => ⟨m₁, hrun⟩⟩, fun n₁ n₂ hn hn' => ?_⟩
      obtain ⟨-, rfl⟩ := Act.Gives.unique hrun hn
      obtain ⟨-, rfl⟩ := Act.Gives.unique hrun' hn'
      exact .of_contents hsound hsound' (hcontents'.trans hcontents.symm)
  | error _ _ hd hd' =>
      obtain ⟨m₁, hrun, -⟩ := hd (a, []) m hm
      obtain ⟨m₂, hrun', -⟩ := hd' (a, []) m hm
      refine ⟨⟨fun ⟨_, hn⟩ => ?_, fun ⟨_, hn⟩ => ?_⟩, fun _ _ hn _ => ?_⟩
      · exact absurd hrun (Act.Gives.not_raises hn)
      · exact absurd hrun' (Act.Gives.not_raises hn)
      · exact absurd hrun (Act.Gives.not_raises hn)

/-- Two build types and a setting. -/
def stagingTable : Table := [
  ("compileSdk", .integer 34),
  ("buildTypes", .table [
    ("staging", .table [("minifyEnabled", .boolean true), ("versionNameSuffix", .string "-s")]),
    ("qa", .table [])])]

/-- The same with the keys of every table in another order. -/
def stagingTable' : Table := [
  ("buildTypes", .table [
    ("qa", .table []),
    ("staging", .table [("versionNameSuffix", .string "-s"), ("minifyEnabled", .boolean true)])]),
  ("compileSdk", .integer 34)]

theorem stagingTable_plain :
    stagingTable.Plain shape? IsBarred (.object (typeRef ApplicationExtension)) := by
  refine .object rfl ?_ (by decide) fun key body hmem => ?_
  · simp [stagingTable, Table.keys, IsBarred, dispatchKey]
  · simp only [stagingTable, List.mem_cons, Prod.mk.injEq, reduceCtorEq, and_false, false_or,
      Value.table.injEq, List.not_mem_nil, or_false] at hmem
    obtain ⟨rfl, rfl⟩ := hmem
    refine .elements (by decide) fun name body hmem => ?_
    simp only [List.mem_cons, Prod.mk.injEq, Value.table.injEq, List.not_mem_nil, or_false] at hmem
    rcases hmem with ⟨rfl, rfl⟩ | ⟨rfl, rfl⟩
    · refine .object rfl ?_ (by decide) (by simp)
      simp [Table.keys, IsBarred, dispatchKey]
    · exact .object rfl (by simp [Table.keys]) (by decide) (by simp)

theorem stagingTable_shuffled : (Value.table stagingTable).Shuffled (.table stagingTable') :=
  .table (.cons (.same _) (.cons (.table (.cons (.table (.refl _) (.swap ..)) (.refl _)) (.swap ..))
    .nil)) (.swap ..)

/-- A new application takes both, and has the same in the end. -/
theorem replay_shuffled_staging :
    ∃ m₁ m₂,
      (replay host ⟨.strict, ⟨"/"⟩⟩ "android" stagingTable
        (Ref.mk 0 : Ref ApplicationExtension).object).Gives
          (ApplicationExtension.create ⟨"/"⟩ .empty).2 () m₁ ∧
      (replay host ⟨.strict, ⟨"/"⟩⟩ "android" stagingTable'
        (Ref.mk 0 : Ref ApplicationExtension).object).Gives
          (ApplicationExtension.create ⟨"/"⟩ .empty).2 () m₂ ∧
      SameUpToOrder ⟨0⟩ m₁ m₂ := by
  obtain ⟨hiff, hsame⟩ := replay_shuffled ⟨.strict, ⟨"/"⟩⟩ "android" (create_sound ⟨"/"⟩ .empty)
    stagingTable_plain stagingTable_shuffled
  have htaken : ∃ m₁, (replay host ⟨.strict, ⟨"/"⟩⟩ "android" stagingTable
      (Ref.mk 0 : Ref ApplicationExtension).object).Gives
        (ApplicationExtension.create ⟨"/"⟩ .empty).2 () m₁ :=
    ⟨_, Act.gives_of_isOk (by decide +kernel)⟩
  obtain ⟨m₂, htaken'⟩ := hiff.1 htaken
  obtain ⟨m₁, htaken⟩ := htaken
  exact ⟨m₁, m₂, htaken, htaken', hsame m₁ m₂ htaken htaken'⟩

end BuildReplay.Android
