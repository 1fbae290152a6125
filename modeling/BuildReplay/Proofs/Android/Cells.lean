import BuildReplay.Proofs.Android.Refusal
import BuildReplay.Proofs.Cells

/-! # The parts of the objects of the model

Every field and member of the types without nested objects changes a part of its own, but for the
member that initializes a build type with another one. -/

namespace BuildReplay.Android

/-- The keys that are not plain: requests, and the member that takes over a whole build type. -/
def IsBarred (key : String) : Prop := key = dispatchKey ∨ key = "initWith"

instance : DecidablePred IsBarred := fun _ => inferInstanceAs (Decidable (_ ∨ _))

/-- The declarations of a type are about different things. -/
theorem declarationTable_distinct :
    ∀ e ∈ declarationTable, (e.2.filterMap Declaration.binding?).Nodup := by decide

/-- The shape of a type of the model whose declarations change parts of their own. -/
theorem ownType_of {α : Type} [Stored Model α] {ds : List (Declaration Model)} {cells : Cells α}
    (hshape : shape? (typeRef α) = some (.ofDeclarations (typeRef α) ds))
    (hmapLike : (Shape.ofDeclarations (typeRef α) ds).mapLike = false)
    (hown : ∀ d ∈ ds, ∀ b, d.binding? = some b → b ≠ .member "initWith" →
      d.Own host (cells.cell b)) :
    OwnType host (.ofDeclarations (typeRef α) ds) cells IsBarred where
  described := by
    refine ⟨ds, Shape.ofDeclarations_describedBy _ ds, fun key hkey d hd b hb hbinding => ?_⟩
    refine hown d hd b hb fun heq => hkey (.inr (key_eq_initWith ?_))
    exact Shape.name_of_binding?_member (heq ▸ hbinding)
  mapLike := hmapLike
  dispatch := .inl rfl
  shapeOf := host_shapeOf_some hshape

namespace BuildType

def cells : Cells BuildType :=
  .ofList [
    (.field "isMinifyEnabled", .value <|
      .ofField minifyEnabled fun v b => { b with minifyEnabled := v }),
    (.field "isShrinkResources", .value <|
      .ofField shrinkResources fun v b => { b with shrinkResources := v }),
    (.field "isDebuggable", .value <|
      .ofField debuggable fun v b => { b with debuggable := v }),
    (.field "applicationIdSuffix", .value <|
      .ofField applicationIdSuffix fun v b => { b with applicationIdSuffix := v }),
    (.field "versionNameSuffix", .value <|
      .ofField versionNameSuffix fun v b => { b with versionNameSuffix := v }),
    (.field "signingConfig", .value <|
      .ofField signingConfig fun v b => { b with signingConfig := v }),
    (.field "proguardFiles", .any <|
      .ofField proguardFiles fun v b => { b with proguardFiles := v }),
    (.field "matchingFallbacks", .any <|
      .ofField matchingFallbacks fun v b => { b with matchingFallbacks := v }),
    (.field "manifestPlaceholders", .map <|
      .ofField manifestPlaceholders fun v b => { b with manifestPlaceholders := v })]

theorem own : ∀ d ∈ declarations, ∀ b, d.binding? = some b → b ≠ .member "initWith" →
    d.Own host (cells.cell b) := by
  intro d hd b hb hne
  simp only [declarations, List.mem_cons, List.not_mem_nil, or_false] at hd
  rcases hd with rfl | rfl | rfl | rfl | rfl | rfl | rfl | rfl | rfl | rfl | rfl <;> cases hb
  · exact Declaration.viewed_own
  · exact Declaration.stored_own rfl (Lens.set_mem_writes _)
  · exact Declaration.stored_own rfl (Lens.set_mem_writes _)
  · exact Declaration.stored_own rfl (Lens.set_mem_writes _)
  · exact Declaration.stored_own rfl (Lens.set_mem_writes _)
  · exact Declaration.stored_own rfl (Lens.set_mem_writes _)
  · exact Declaration.stored_own rfl (Lens.set_mem_writes _)
  · exact .list (fun _ => rfl) fun _ => Lens.modify_mem_changes _ _
  · exact .list (fun _ => rfl) fun _ => Lens.modify_mem_changes _ _
  · exact .map (by decide) (fun _ => rfl) (Lens.insert_mem_inserts _)
  · exact absurd rfl hne

theorem ownType : OwnType host (.ofDeclarations (typeRef BuildType) declarations) cells IsBarred :=
  ownType_of rfl rfl own

end BuildType

namespace ProductFlavor

def cells : Cells ProductFlavor :=
  .ofList [
    (.field "dimension", .value <|
      .ofField dimension fun v f => { f with dimension := v }),
    (.field "applicationIdSuffix", .value <|
      .ofField applicationIdSuffix fun v f => { f with applicationIdSuffix := v }),
    (.field "versionNameSuffix", .value <|
      .ofField versionNameSuffix fun v f => { f with versionNameSuffix := v }),
    (.field "minSdk", .value <|
      .ofField minSdk fun v f => { f with minSdk := v }),
    (.field "manifestPlaceholders", .map <|
      .ofField manifestPlaceholders fun v f => { f with manifestPlaceholders := v })]

theorem own : ∀ d ∈ declarations, ∀ b, d.binding? = some b → d.Own host (cells.cell b) := by
  intro d hd b hb
  simp only [declarations, List.mem_cons, List.not_mem_nil, or_false] at hd
  rcases hd with rfl | rfl | rfl | rfl | rfl | rfl <;> cases hb
  · exact Declaration.viewed_own
  · exact Declaration.stored_own rfl (Lens.set_mem_writes _)
  · exact Declaration.stored_own rfl (Lens.set_mem_writes _)
  · exact Declaration.stored_own rfl (Lens.set_mem_writes _)
  · exact Declaration.stored_own rfl (Lens.set_mem_writes _)
  · exact .map (by decide) (fun _ => rfl) (Lens.insert_mem_inserts _)

theorem ownType :
    OwnType host (.ofDeclarations (typeRef ProductFlavor) declarations) cells IsBarred :=
  ownType_of rfl rfl (fun d hd b hb _ => own d hd b hb)

end ProductFlavor

namespace SigningConfig

def cells : Cells SigningConfig :=
  .ofList [
    (.field "storeFile", .value <|
      .ofField storeFile fun v c => { c with storeFile := v }),
    (.field "storePassword", .value <|
      .ofField storePassword fun v c => { c with storePassword := v }),
    (.field "storeType", .value <|
      .ofField storeType fun v c => { c with storeType := v }),
    (.field "keyAlias", .value <|
      .ofField keyAlias fun v c => { c with keyAlias := v }),
    (.field "keyPassword", .value <|
      .ofField keyPassword fun v c => { c with keyPassword := v })]

theorem own : ∀ d ∈ declarations, ∀ b, d.binding? = some b → d.Own host (cells.cell b) := by
  intro d hd b hb
  simp only [declarations, List.mem_cons, List.not_mem_nil, or_false] at hd
  rcases hd with rfl | rfl | rfl | rfl | rfl | rfl <;> cases hb
  · exact Declaration.viewed_own
  · exact Declaration.stored_own rfl (Lens.set_mem_writes _)
  · exact Declaration.stored_own rfl (Lens.set_mem_writes _)
  · exact Declaration.stored_own rfl (Lens.set_mem_writes _)
  · exact Declaration.stored_own rfl (Lens.set_mem_writes _)
  · exact Declaration.stored_own rfl (Lens.set_mem_writes _)

theorem ownType :
    OwnType host (.ofDeclarations (typeRef SigningConfig) declarations) cells IsBarred :=
  ownType_of rfl rfl (fun d hd b hb _ => own d hd b hb)

end SigningConfig

namespace DefaultConfig

def cells : Cells DefaultConfig :=
  .ofList [
    (.field "applicationId", .value <|
      .ofField applicationId fun v c => { c with applicationId := v }),
    (.field "minSdk", .value <|
      .ofField minSdk fun v c => { c with minSdk := v }),
    (.field "targetSdk", .value <|
      .ofField targetSdk fun v c => { c with targetSdk := v }),
    (.field "versionCode", .value <|
      .ofField versionCode fun v c => { c with versionCode := v }),
    (.field "versionName", .value <|
      .ofField versionName fun v c => { c with versionName := v }),
    (.field "testInstrumentationRunner", .value <|
      .ofField testInstrumentationRunner fun v c => { c with testInstrumentationRunner := v }),
    (.field "isMultiDexEnabled", .value <|
      .ofField multiDexEnabled fun v c => { c with multiDexEnabled := v }),
    (.field "manifestPlaceholders", .map <|
      .ofField manifestPlaceholders fun v c => { c with manifestPlaceholders := v })]

theorem own : ∀ d ∈ declarations, ∀ b, d.binding? = some b → d.Own host (cells.cell b) := by
  intro d hd b hb
  simp only [declarations, List.mem_cons, List.not_mem_nil, or_false] at hd
  rcases hd with rfl | rfl | rfl | rfl | rfl | rfl | rfl | rfl <;> cases hb
  · exact Declaration.stored_own rfl (Lens.set_mem_writes _)
  · exact Declaration.stored_own rfl (Lens.set_mem_writes _)
  · exact Declaration.stored_own rfl (Lens.set_mem_writes _)
  · exact Declaration.stored_own rfl (Lens.set_mem_writes _)
  · exact Declaration.stored_own rfl (Lens.set_mem_writes _)
  · exact Declaration.stored_own rfl (Lens.set_mem_writes _)
  · exact Declaration.stored_own rfl (Lens.set_mem_writes _)
  · exact .map (by decide) (fun _ => rfl) (Lens.insert_mem_inserts _)

theorem ownType :
    OwnType host (.ofDeclarations (typeRef DefaultConfig) declarations) cells IsBarred :=
  ownType_of rfl rfl (fun d hd b hb _ => own d hd b hb)

end DefaultConfig

namespace CompileOptions

def cells : Cells CompileOptions :=
  .ofList [
    (.field "encoding", .value <|
      .ofField encoding fun v c => { c with encoding := v }),
    (.member "setSourceCompatibility", .value <|
      .ofField sourceCompatibility fun v c => { c with sourceCompatibility := v }),
    (.member "setTargetCompatibility", .value <|
      .ofField targetCompatibility fun v c => { c with targetCompatibility := v })]

theorem own : ∀ d ∈ declarations, ∀ b, d.binding? = some b → d.Own host (cells.cell b) := by
  intro d hd b hb
  simp only [declarations, List.mem_cons, List.not_mem_nil, or_false] at hd
  rcases hd with rfl | rfl | rfl <;> cases hb
  · exact Declaration.stored_own rfl (Lens.set_mem_writes _)
  · exact Declaration.setter_own rfl fun b => Lens.set_mem_writes _ (some b)
  · exact Declaration.setter_own rfl fun b => Lens.set_mem_writes _ (some b)

theorem ownType :
    OwnType host (.ofDeclarations (typeRef CompileOptions) declarations) cells IsBarred :=
  ownType_of rfl rfl (fun d hd b hb _ => own d hd b hb)

end CompileOptions

end BuildReplay.Android
