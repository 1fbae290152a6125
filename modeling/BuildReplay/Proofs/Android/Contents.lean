import BuildReplay.Proofs.Android.Collections
import BuildReplay.Proofs.Elements
import BuildReplay.Proofs.Overwriting
import BuildReplay.Proofs.Own

/-! # What an application contains

The settings of an application together with what its objects hold, whichever numbers these have.
Elements are looked up by name, so the order of their creation does not show. -/

namespace BuildReplay.Android

/-- What an application and its objects hold. -/
structure Contents where
  packageName : Option String
  compileSdk : Option Int32
  resourcePrefix : Option String
  flavorDimensions : List String
  projectDir : Path
  defaultConfig : DefaultConfig
  compileOptions : CompileOptions
  buildTypes : String → Option BuildType
  productFlavors : String → Option ProductFlavor
  signingConfigs : String → Option SigningConfig

namespace Contents

def packageNameLens : Lens Contents (Option String) where
  get := packageName
  set v c := { c with packageName := v }

def compileSdkLens : Lens Contents (Option Int32) where
  get := compileSdk
  set v c := { c with compileSdk := v }

def resourcePrefixLens : Lens Contents (Option String) where
  get := resourcePrefix
  set v c := { c with resourcePrefix := v }

def flavorDimensionsLens : Lens Contents (List String) where
  get := flavorDimensions
  set v c := { c with flavorDimensions := v }

def defaultConfigLens : Lens Contents DefaultConfig where
  get := defaultConfig
  set v c := { c with defaultConfig := v }

def compileOptionsLens : Lens Contents CompileOptions where
  get := compileOptions
  set v c := { c with compileOptions := v }

def buildTypesLens : Lens Contents (String → Option BuildType) where
  get := buildTypes
  set v c := { c with buildTypes := v }

def productFlavorsLens : Lens Contents (String → Option ProductFlavor) where
  get := productFlavors
  set v c := { c with productFlavors := v }

def signingConfigsLens : Lens Contents (String → Option SigningConfig) where
  get := signingConfigs
  set v c := { c with signingConfigs := v }

end Contents

namespace ApplicationExtension

def contents (x : ApplicationExtension) (m : Model) : Contents where
  packageName := x.packageName
  compileSdk := x.compileSdk
  resourcePrefix := x.resourcePrefix
  flavorDimensions := x.flavorDimensions
  projectDir := x.projectDir
  defaultConfig := x.defaultConfig.get m
  compileOptions := x.compileOptions.get m
  buildTypes := m.buildTypes.element? x.buildTypes
  productFlavors := m.productFlavors.element? x.productFlavors
  signingConfigs := m.signingConfigs.element? x.signingConfigs

/-- The elements of an application have names and objects of their own. -/
structure Sound (x : ApplicationExtension) (m : Model) : Prop where
  buildTypes : m.buildTypes.Holds x.buildTypes
  productFlavors : m.productFlavors.Holds x.productFlavors
  signingConfigs : m.signingConfigs.Holds x.signingConfigs

end ApplicationExtension

/-- Changes of a model as they show in what an application contains. -/
def applicationTrack : Track (Ref ApplicationExtension × List (Frame Model)) Model Contents where
  Start i m := (i.1.get m).Sound m
  Moves f i m m' := (i.1.get m').Sound m' ∧ (i.1.get m').contents m' = f ((i.1.get m).contents m)
  start _ h := h.1
  one hm := ⟨hm, rfl⟩
  mul := by
    rintro f g i m m₁ m' ⟨-, hf⟩ ⟨hm', hg⟩
    exact ⟨hm', by rw [hg, hf]; rfl⟩

variable {i : Ref ApplicationExtension × List (Frame Model)} {m : Model}

/-- An application that was changed is read, in a model that is otherwise as it was. -/
theorem contents_modify (a : Ref ApplicationExtension)
    (f : ApplicationExtension → ApplicationExtension) (m : Model) :
    (a.get (a.modify f m)).contents (a.modify f m) = (f (a.get m)).contents m := by
  have hget : (a.get (a.modify f m) : ApplicationExtension) = f (a.get m) := Lens.get_modify _ f m
  rw [hget]
  rfl

theorem sound_modify {a : Ref ApplicationExtension} {f : ApplicationExtension → ApplicationExtension}
    (h : (f (a.get m)).Sound m) : (a.get (a.modify f m)).Sound (a.modify f m) := by
  have hget : (a.get (a.modify f m) : ApplicationExtension) = f (a.get m) := Lens.get_modify _ f m
  rw [hget]
  exact ⟨h.buildTypes, h.productFlavors, h.signingConfigs⟩

/-! ## Settings -/

/-- Each of the changes of applications shows as one of the changes of what they contain. -/
def Shows (K : Submonoid (Function.End ApplicationExtension))
    (K' : Submonoid (Function.End Contents)) : Prop :=
  ∀ f ∈ K, ∃ g ∈ K', ∀ x, (f x).links = x.links ∧ ∀ m, (f x).contents m = g (x.contents m)

theorem Shows.bot (K' : Submonoid (Function.End Contents)) : Shows ⊥ K' := by
  intro f hf
  rw [Submonoid.mem_bot.1 hf]
  exact ⟨1, K'.one_mem, fun _ => ⟨rfl, fun _ => rfl⟩⟩

theorem shows_changes {δ : Type} {l : Lens ApplicationExtension δ} {k : Lens Contents δ}
    (hlinks : ∀ g x, (l.modify g x).links = x.links)
    (hcontents : ∀ g x m, (l.modify g x).contents m = k.modify g (x.contents m)) :
    Shows l.changes k.changes := by
  rintro _ ⟨g, rfl⟩
  exact ⟨k.modify g, k.modify_mem_changes g, fun x => ⟨hlinks g x, hcontents g x⟩⟩

theorem shows_writes {δ : Type} {l : Lens ApplicationExtension δ} {k : Lens Contents δ}
    (hlinks : ∀ v x, (l.set v x).links = x.links)
    (hcontents : ∀ v x m, (l.set v x).contents m = k.set v (x.contents m)) :
    Shows l.writes k.writes := by
  rintro _ (rfl | ⟨v, rfl⟩)
  · exact ⟨1, k.writes.one_mem, fun _ => ⟨rfl, fun _ => rfl⟩⟩
  · exact ⟨k.set v, k.set_mem_writes v, fun x => ⟨hlinks v x, hcontents v x⟩⟩

theorem ApplicationExtension.Sound.congr {x y : ApplicationExtension} (h : x.Sound m)
    (hlinks : y.links = x.links) : y.Sound m := by
  obtain ⟨-, hbuildTypes, hflavors, hsigning, -⟩ := Links.mk.inj hlinks
  exact ⟨hbuildTypes ▸ h.buildTypes, hflavors ▸ h.productFlavors, hsigning ▸ h.signingConfigs⟩

/-- What changes every application in one way does so to what they contain. -/
theorem Shows.lift {α : Type} {K : Submonoid (Function.End ApplicationExtension)}
    {K' : Submonoid (Function.End Contents)} (h : Shows K K')
    {x y : Ref ApplicationExtension × List (Frame Model) → Act Model α}
    (hxy : (objectTrack Model ApplicationExtension).Alike K x y) : applicationTrack.Alike K' x y := by
  have hdoes : ∀ {x : Ref ApplicationExtension × List (Frame Model) → Act Model α} {r}
      {f : Function.End ApplicationExtension} {g : Function.End Contents},
      (∀ x, (f x).links = x.links ∧ ∀ m, (f x).contents m = g (x.contents m)) →
        (objectTrack Model ApplicationExtension).Does x r f → applicationTrack.Does x r g := by
    intro x r f g hg hx i m hm
    obtain ⟨_, hrun, rfl⟩ := hx i m trivial
    exact ⟨_, hrun, sound_modify (hm.congr (hg _).1), (contents_modify i.1 f m).trans ((hg _).2 m)⟩
  refine hxy.lift fun f hf => ?_
  obtain ⟨g, hg, hshow⟩ := h f hf
  exact ⟨g, hg, fun _ => hdoes hshow, fun _ => hdoes hshow⟩

/-! ## Objects -/

/-- An object that every application has, as it stands in what they contain. -/
structure Nests {β : Type} [Stored Model β] (ref : ApplicationExtension → Ref β)
    (k : Lens Contents β) : Prop where
  moves : ∀ {i m} (f : β → β), (i.1.get m).Sound m →
    applicationTrack.Moves (k.modify f) i m ((ref (i.1.get m)).modify f m)

theorem nests_defaultConfig :
    Nests ApplicationExtension.defaultConfig Contents.defaultConfigLens where
  moves {i m} f hm := by
    refine ⟨⟨hm.buildTypes, hm.productFlavors, hm.signingConfigs⟩, ?_⟩
    have hget := Lens.get_modify (i.1.get m : ApplicationExtension).defaultConfig.place f m
    exact congrArg (fun c => Contents.defaultConfigLens.set c ((i.1.get m).contents m)) hget

theorem nests_compileOptions :
    Nests ApplicationExtension.compileOptions Contents.compileOptionsLens where
  moves {i m} f hm := by
    refine ⟨⟨hm.buildTypes, hm.productFlavors, hm.signingConfigs⟩, ?_⟩
    have hget := Lens.get_modify (i.1.get m : ApplicationExtension).compileOptions.place f m
    exact congrArg (fun c => Contents.compileOptionsLens.set c ((i.1.get m).contents m)) hget

/-! ## Collections -/

/-- A collection of every application, as it stands in what they contain. -/
structure Collects {β : Type} [Stored Model β]
    (field : Lens ApplicationExtension (List (String × Ref β)))
    (k : Lens Contents (String → Option β)) : Prop where
  apart : (Stored.heap : Lens Model (Heap β)).Apart
    (Stored.heap : Lens Model (Heap ApplicationExtension))
  holds : ∀ {x : ApplicationExtension} {m : Model}, x.Sound m →
    ((Stored.heap : Lens Model (Heap β)).get m).Holds (field.get x)
  elements : ∀ (x : ApplicationExtension) (m : Model), k.get (x.contents m) =
    ((Stored.heap : Lens Model (Heap β)).get m).element? (field.get x)
  sound : ∀ {x : ApplicationExtension} {m : Model} {h : Heap β} {es}, x.Sound m → h.Holds es →
    (field.set es x).Sound (Stored.heap.set h m)
  contents : ∀ (x : ApplicationExtension) (m : Model) (h : Heap β) (es),
    (field.set es x).contents (Stored.heap.set h m) = k.set (h.element? es) (x.contents m)

/-- To make the element of a name where it is missing, and to change it, changes what the
application contains under that name. -/
theorem Collects.obtain_moves {β : Type} [Stored Model β]
    {field : Lens ApplicationExtension (List (String × Ref β))}
    {k : Lens Contents (String → Option β)} (hk : Collects field k) (make : String → β)
    (name : String) (hm : (i.1.get m).Sound m) :
    ∃ (r : Ref β) (m₁ : Model), (i.1.collection field make).obtain name m = (r, m₁) ∧
      ∀ f : β → β, applicationTrack.Moves ((k.comp (Lens.point name)).upsert (make name) f) i m
        (r.modify f m₁) := by
  obtain ⟨r, m₁, hobtain, hmodify⟩ :=
    Ref.obtain_modify field make hk.apart i.1 name (hk.holds hm)
  refine ⟨r, m₁, hobtain, fun f => ?_⟩
  obtain ⟨es, h, hholds, helement, hstate⟩ := hmodify f
  have hget : (i.1.get (Stored.heap.set h m) : ApplicationExtension) = i.1.get m :=
    (hk.apart.symm.comp_left (Heap.object i.1.id)).get_set h m
  rw [hstate]
  refine ⟨sound_modify ?_, ?_⟩
  · rw [hget]
    exact hk.sound hm hholds
  · rw [contents_modify, hget, hk.contents, helement, ← hk.elements]
    rfl

theorem collects_buildTypes :
    Collects { get := ApplicationExtension.buildTypes, set := fun v a => { a with buildTypes := v } }
      Contents.buildTypesLens where
  apart _ _ _ := rfl
  holds hx := hx.buildTypes
  elements _ _ := rfl
  sound hx hes := ⟨hes, hx.productFlavors, hx.signingConfigs⟩
  contents _ _ _ _ := rfl

theorem collects_productFlavors :
    Collects { get := ApplicationExtension.productFlavors
               set := fun v a => { a with productFlavors := v } }
      Contents.productFlavorsLens where
  apart _ _ _ := rfl
  holds hx := hx.productFlavors
  elements _ _ := rfl
  sound hx hes := ⟨hx.buildTypes, hes, hx.signingConfigs⟩
  contents _ _ _ _ := rfl

theorem collects_signingConfigs :
    Collects { get := ApplicationExtension.signingConfigs
               set := fun v a => { a with signingConfigs := v } }
      Contents.signingConfigsLens where
  apart _ _ _ := rfl
  holds hx := hx.signingConfigs
  elements _ _ := rfl
  sound hx hes := ⟨hx.buildTypes, hx.productFlavors, hes⟩
  contents _ _ _ _ := rfl

/-! ## Sound applications -/

section Invariant

variable {a : Ref ApplicationExtension}

/-- What a new application refers to: new objects, and two new build types. -/
theorem create_links (projectDir : Path) (m : Model) :
    ((ApplicationExtension.create projectDir m).1.get
      (ApplicationExtension.create projectDir m).2).links =
        ⟨⟨m.defaultConfigs.size⟩,
          [("debug", ⟨m.buildTypes.size⟩), ("release", ⟨m.buildTypes.size + 1⟩)], [], [],
          ⟨m.compileOptions.size⟩⟩ :=
  congrArg ApplicationExtension.links (Heap.cell_put_self m.applications m.applications.size _)

theorem create_sound (projectDir : Path) (m : Model) :
    ((ApplicationExtension.create projectDir m).1.get
      (ApplicationExtension.create projectDir m).2).Sound
        (ApplicationExtension.create projectDir m).2 := by
  obtain ⟨-, hbuildTypes, hflavors, hsigning, -⟩ := Links.mk.inj (create_links projectDir m)
  have hsize : (ApplicationExtension.create projectDir m).2.buildTypes.size =
    m.buildTypes.size + 2 := rfl
  refine ⟨hbuildTypes ▸ ?_, hflavors ▸ ?_, hsigning ▸ ?_⟩
  · constructor
    · simp
    · simp
    · rw [hsize]
      simp
  · exact ⟨.nil, .nil, fun e he => absurd he List.not_mem_nil⟩
  · exact ⟨.nil, .nil, fun e he => absurd he List.not_mem_nil⟩

theorem sound_edits {m' : Model} (h : m.Edits m') (hm : (a.get m).Sound m) :
    (a.get m').Sound m' := by
  have hx := hm.congr (congrFun (congrArg Outline.links h.outline) a.id)
  exact ⟨hx.buildTypes.of_size (congrArg Outline.buildTypes h.outline),
    hx.productFlavors.of_size (congrArg Outline.productFlavors h.outline),
    hx.signingConfigs.of_size (congrArg Outline.signingConfigs h.outline)⟩

theorem sound_of_get {m₁ m' : Model} (hget : (a.get m' : ApplicationExtension) = a.get m₁)
    (h : (a.get m₁).Sound m') : (a.get m').Sound m' :=
  hget ▸ h

/-- Elements are made for the application itself or for another one, which does not share any. -/
theorem maybeCreate_sound (slot : Slot) (name : String) (hm : (a.get m).Sound m) :
    (a.get (host.maybeCreate slot name m).2).Sound (host.maybeCreate slot name m).2 := by
  have hsame : ∀ {β : Type} [Stored Model β]
      {field : Lens ApplicationExtension (List (String × Ref β))}
      {k : Lens Contents (String → Option β)}, Collects field k → ∀ make,
      (a.get ((a.collection field make).obtain name m).2).Sound
        ((a.collection field make).obtain name m).2 := by
    intro β _ field k hk make
    obtain ⟨r, m₁, hobtain, hmoves⟩ := hk.obtain_moves (i := (a, [])) make name hm
    rw [hobtain]
    exact Lens.modify_id r.place m₁ ▸ (hmoves fun b => b).1
  rcases maybeCreate_cases slot name m with hstate | ⟨b, f, hfind, hstate⟩
  · rw [hstate]
    exact hm
  · rw [hstate]
    by_cases hb : b = a
    · subst hb
      cases f with
      | buildTypes => exact hsame collects_buildTypes _
      | productFlavors => exact hsame collects_productFlavors _
      | signingConfigs => exact hsame collects_signingConfigs _
    · rw [NamedCollection.obtain_of_find?_none hfind]
      have hget : ∀ (f : ApplicationExtension → ApplicationExtension) (m : Model),
          (a.get (b.modify f m) : ApplicationExtension) = a.get m :=
        Ref.get_modify_of_ne (Ne.symm hb)
      cases f with
      | buildTypes =>
          refine sound_of_get (hget _ _) ?_
          exact ⟨hm.buildTypes.alloc _, hm.productFlavors, hm.signingConfigs⟩
      | productFlavors =>
          refine sound_of_get (hget _ _) ?_
          exact ⟨hm.buildTypes, hm.productFlavors.alloc _, hm.signingConfigs⟩
      | signingConfigs =>
          refine sound_of_get (hget _ _) ?_
          exact ⟨hm.buildTypes, hm.productFlavors, hm.signingConfigs.alloc _⟩

/-- No document makes an application unsound, whichever object it is applied to. -/
theorem replay_sound (options : Options) (start : String) (t : Table) (r : ObjectRef)
    (hm : (a.get m).Sound m) :
    (a.get (replay host options start t r m).2).Sound (replay host options start t r m).2 := by
  have hkeeps : (Act.Law.keeps (fun m => (a.get m).Sound m) fun _ => True).Obeys
      (replay host options start t r) := by
    refine (host_obeys sound_edits fun _ => trivial).replay ?_ (fun _ _ => trivial) start t r
    exact fun slot name m hm => ⟨maybeCreate_sound slot name hm, fun _ _ _ => trivial⟩
  exact (hkeeps m hm).1

end Invariant

end BuildReplay.Android
