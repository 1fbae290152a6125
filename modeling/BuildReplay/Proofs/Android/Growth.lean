import BuildReplay.Android.Shapes
import BuildReplay.Proofs.Dictionary
import Mathlib.Data.List.Infix
import Mathlib.Tactic.MkIffOfInductiveProp

/-! # What the application model never loses

What stands in a list stays where it is, a key of a map stays a key, and an element keeps its name
and its place in its collection. -/

namespace BuildReplay

namespace Heap

variable {α : Type} {R : α → α → Prop} {h h' : Heap α}

/-- Every object of a heap is related to the one that stands in its place. -/
structure Grows (R : α → α → Prop) (h h' : Heap α) : Prop where
  size : h.size ≤ h'.size
  cell : ∀ id < h.size, R (h.cell id) (h'.cell id)

theorem Grows.refl (hR : ∀ a, R a a) (h : Heap α) : h.Grows R h := ⟨le_rfl, fun _ _ => hR _⟩

theorem Grows.trans (hR : ∀ {a b c}, R a b → R b c → R a c) {h'' : Heap α} (hgrows : h.Grows R h')
    (hgrows' : h'.Grows R h'') : h.Grows R h'' :=
  ⟨hgrows.size.trans hgrows'.size, fun id hid =>
    hR (hgrows.cell id hid) (hgrows'.cell id (hid.trans_le hgrows.size))⟩

theorem cell_put_related (hR : ∀ a, R a a) {id : Nat} {a : α} (ha : R (h.cell id) a) (i : Nat) :
    R (h.cell i) ((h.put id a).cell i) := by
  by_cases hi : i = id
  · subst hi
    rwa [h.cell_put_self]
  · rw [h.cell_put_of_ne a hi]
    exact hR _

theorem grows_put (hR : ∀ a, R a a) {id : Nat} {a : α} (ha : R (h.cell id) a) :
    h.Grows R (h.put id a) :=
  ⟨le_rfl, fun i _ => cell_put_related hR ha i⟩

theorem grows_alloc (hR : ∀ a, R a a) (a : α) : h.Grows R (h.alloc a).2 where
  size := Nat.le_succ h.size
  cell id hid := by
    rw [show (h.alloc a).2.cell id = h.cell id from h.cell_put_of_ne a (Nat.ne_of_lt hid)]
    exact hR _

end Heap

namespace Android

/-! ## Objects -/

@[mk_iff]
structure BuildType.Grows (b b' : BuildType) : Prop where
  name : b'.name = b.name
  proguardFiles : b.proguardFiles <+: b'.proguardFiles
  matchingFallbacks : b.matchingFallbacks <+: b'.matchingFallbacks
  manifestPlaceholders : b.manifestPlaceholders.keys ⊆ b'.manifestPlaceholders.keys

@[mk_iff]
structure ProductFlavor.Grows (f f' : ProductFlavor) : Prop where
  name : f'.name = f.name
  manifestPlaceholders : f.manifestPlaceholders.keys ⊆ f'.manifestPlaceholders.keys

@[mk_iff]
structure SigningConfig.Grows (c c' : SigningConfig) : Prop where
  name : c'.name = c.name

@[mk_iff]
structure DefaultConfig.Grows (c c' : DefaultConfig) : Prop where
  manifestPlaceholders : c.manifestPlaceholders.keys ⊆ c'.manifestPlaceholders.keys

structure Variant.Grows (v v' : Variant) : Prop where
  name : v'.name = v.name
  manifestPlaceholders : v.manifestPlaceholders.keys ⊆ v'.manifestPlaceholders.keys
  proguardFiles : v.proguardFiles <+: v'.proguardFiles

structure ApplicationExtension.Grows (a a' : ApplicationExtension) : Prop where
  defaultConfig : a'.defaultConfig = a.defaultConfig
  buildTypes : a.buildTypes <+: a'.buildTypes
  productFlavors : a.productFlavors <+: a'.productFlavors
  signingConfigs : a.signingConfigs <+: a'.signingConfigs
  compileOptions : a'.compileOptions = a.compileOptions
  flavorDimensions : a.flavorDimensions <+: a'.flavorDimensions

theorem BuildType.Grows.refl (b : BuildType) : b.Grows b :=
  ⟨rfl, List.prefix_rfl, List.prefix_rfl, List.Subset.refl _⟩

theorem BuildType.Grows.trans {b b' b'' : BuildType} (h : b.Grows b') (h' : b'.Grows b'') :
    b.Grows b'' where
  name := h'.name.trans h.name
  proguardFiles := h.proguardFiles.trans h'.proguardFiles
  matchingFallbacks := h.matchingFallbacks.trans h'.matchingFallbacks
  manifestPlaceholders := List.Subset.trans h.manifestPlaceholders h'.manifestPlaceholders

/-- A build type that takes over the settings of another one keeps its own containers. -/
theorem BuildType.initWith_grows (b other : BuildType) : b.Grows (b.initWith other) where
  name := rfl
  proguardFiles := List.prefix_append _ _
  matchingFallbacks := List.prefix_append _ _
  manifestPlaceholders := Dictionary.keys_subset_foldl_insert _ _

theorem ProductFlavor.Grows.refl (f : ProductFlavor) : f.Grows f := ⟨rfl, List.Subset.refl _⟩

theorem ProductFlavor.Grows.trans {f f' f'' : ProductFlavor} (h : f.Grows f') (h' : f'.Grows f'') :
    f.Grows f'' :=
  ⟨h'.name.trans h.name, List.Subset.trans h.manifestPlaceholders h'.manifestPlaceholders⟩

theorem SigningConfig.Grows.refl (c : SigningConfig) : c.Grows c := ⟨rfl⟩

theorem SigningConfig.Grows.trans {c c' c'' : SigningConfig} (h : c.Grows c') (h' : c'.Grows c'') :
    c.Grows c'' :=
  ⟨h'.name.trans h.name⟩

theorem DefaultConfig.Grows.refl (c : DefaultConfig) : c.Grows c := ⟨List.Subset.refl _⟩

theorem DefaultConfig.Grows.trans {c c' c'' : DefaultConfig} (h : c.Grows c') (h' : c'.Grows c'') :
    c.Grows c'' :=
  ⟨List.Subset.trans h.manifestPlaceholders h'.manifestPlaceholders⟩

theorem Variant.Grows.refl (v : Variant) : v.Grows v :=
  ⟨rfl, List.Subset.refl _, List.prefix_rfl⟩

theorem Variant.Grows.trans {v v' v'' : Variant} (h : v.Grows v') (h' : v'.Grows v'') :
    v.Grows v'' where
  name := h'.name.trans h.name
  manifestPlaceholders := List.Subset.trans h.manifestPlaceholders h'.manifestPlaceholders
  proguardFiles := h.proguardFiles.trans h'.proguardFiles

theorem ApplicationExtension.Grows.refl (a : ApplicationExtension) : a.Grows a :=
  ⟨rfl, List.prefix_rfl, List.prefix_rfl, List.prefix_rfl, rfl, List.prefix_rfl⟩

theorem ApplicationExtension.Grows.trans {a a' a'' : ApplicationExtension} (h : a.Grows a')
    (h' : a'.Grows a'') : a.Grows a'' where
  defaultConfig := h'.defaultConfig.trans h.defaultConfig
  buildTypes := h.buildTypes.trans h'.buildTypes
  productFlavors := h.productFlavors.trans h'.productFlavors
  signingConfigs := h.signingConfigs.trans h'.signingConfigs
  compileOptions := h'.compileOptions.trans h.compileOptions
  flavorDimensions := h.flavorDimensions.trans h'.flavorDimensions

/-! ## Models -/

/-- Nothing that the objects of a model hold is lost; elements and variants may be made. -/
structure Model.Grows (m m' : Model) : Prop where
  applications : ∀ id, (m.applications.cell id).Grows (m'.applications.cell id)
  defaultConfigs : ∀ id, (m.defaultConfigs.cell id).Grows (m'.defaultConfigs.cell id)
  buildTypes : m.buildTypes.Grows BuildType.Grows m'.buildTypes
  productFlavors : m.productFlavors.Grows ProductFlavor.Grows m'.productFlavors
  signingConfigs : m.signingConfigs.Grows SigningConfig.Grows m'.signingConfigs
  variants : m.variants.Grows Variant.Grows m'.variants

namespace Model.Grows

theorem refl (m : Model) : m.Grows m where
  applications _ := .refl _
  defaultConfigs _ := .refl _
  buildTypes := .refl .refl _
  productFlavors := .refl .refl _
  signingConfigs := .refl .refl _
  variants := .refl .refl _

theorem trans {m m' m'' : Model} (h : m.Grows m') (h' : m'.Grows m'') : m.Grows m'' where
  applications id := (h.applications id).trans (h'.applications id)
  defaultConfigs id := (h.defaultConfigs id).trans (h'.defaultConfigs id)
  buildTypes := h.buildTypes.trans .trans h'.buildTypes
  productFlavors := h.productFlavors.trans .trans h'.productFlavors
  signingConfigs := h.signingConfigs.trans .trans h'.signingConfigs
  variants := h.variants.trans .trans h'.variants

end Model.Grows

end Android

end BuildReplay
