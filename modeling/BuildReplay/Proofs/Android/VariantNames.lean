import BuildReplay.Proofs.Android.Plugins
import BuildReplay.Proofs.Android.Variants
import Mathlib.Data.List.ProdSigma

/-! # Names of variants

The name of a variant is a flavor and a build type, written one after the other with nothing in
between. Flavors have names of their own and so have build types, but the names that are put
together may still clash. -/

namespace BuildReplay.Android

open Act Law
open Text (capitalize)

/-! ## Names that are put together -/

/-- Two pairs of a flavor and a build type make the same name. -/
inductive Clash (flavors buildTypes : List String) : Prop where
  /-- Two build types are the same but for the first letter being a capital. -/
  | capital {flavor b b' : String} : flavor ∈ flavors → b ∈ buildTypes → b' ∈ buildTypes → b ≠ b' →
      capitalize b = capitalize b' → Clash flavors buildTypes
  /-- A flavor goes on where another one ends, with what one build type has before another one. -/
  | overlap {flavor u b b' : String} : flavor ∈ flavors → flavor ++ u ∈ flavors → u ≠ "" →
      b ∈ buildTypes → b' ∈ buildTypes → capitalize b = u ++ capitalize b' →
      Clash flavors buildTypes

/-- Each flavor with each build type. -/
def combined (flavors buildTypes : List String) : List String :=
  flavors.flatMap fun flavor => buildTypes.map fun b => flavor ++ capitalize b

theorem combined_eq_map (flavors buildTypes : List String) :
    combined flavors buildTypes =
      (flavors ×ˢ buildTypes).map fun e => e.1 ++ capitalize e.2 := by
  change _ = (flavors.flatMap fun flavor => buildTypes.map (Prod.mk flavor)).map _
  simp only [combined, List.map_flatMap, List.map_map, Function.comp_def]

theorem length_combined (flavors buildTypes : List String) :
    (combined flavors buildTypes).length = flavors.length * buildTypes.length := by
  rw [combined_eq_map, List.length_map, List.length_product]

/-- Of two texts that go on to the same text, one goes on to the other. -/
theorem append_eq_append {a b c d : String} (h : a ++ b = c ++ d) :
    (∃ u, c = a ++ u ∧ b = u ++ d) ∨ ∃ u, a = c ++ u ∧ d = u ++ b := by
  have hchars : a.toList ++ b.toList = c.toList ++ d.toList := by
    rw [← String.toList_append, h, String.toList_append]
  have hsplit : ∀ {s t : String} {l : List Char}, s.toList = t.toList ++ l →
      s = t ++ String.ofList l := by
    intro s t l hl
    rw [← String.toList_inj, String.toList_append, String.toList_ofList, hl]
  have hjoin : ∀ {s t : String} {l : List Char}, s.toList = l ++ t.toList →
      s = String.ofList l ++ t := by
    intro s t l hl
    rw [← String.toList_inj, String.toList_append, String.toList_ofList, hl]
  rcases List.append_eq_append_iff.1 hchars with ⟨l, hc, hb⟩ | ⟨l, ha, hd⟩
  · exact .inl ⟨_, hsplit hc, hjoin hb⟩
  · exact .inr ⟨_, hsplit ha, hjoin hd⟩

theorem clash_of_eq {flavors buildTypes : List String} {f f' b b' : String} (hf : f ∈ flavors)
    (hf' : f' ∈ flavors) (hb : b ∈ buildTypes) (hb' : b' ∈ buildTypes)
    (h : f ++ capitalize b = f' ++ capitalize b') (hne : (f, b) ≠ (f', b')) :
    Clash flavors buildTypes := by
  by_cases heq : f = f'
  · subst heq
    have hbne : b ≠ b' := fun hbb => hne (congrArg _ hbb)
    exact .capital hf hb hb' hbne ((String.append_right_inj f).1 h)
  · have hu : ∀ {g g' u : String}, g ≠ g' → g' = g ++ u → u ≠ "" := by
      rintro g g' u hg rfl rfl
      exact hg (String.append_empty).symm
    rcases append_eq_append h with ⟨u, rfl, hcap⟩ | ⟨u, rfl, hcap⟩
    · exact .overlap hf hf' (hu heq rfl) hb hb' hcap
    · exact .overlap hf' hf (hu (Ne.symm heq) rfl) hb' hb hcap

/-- Where flavors and build types have names of their own, only a clash makes a name twice. -/
theorem nodup_combined_iff {flavors buildTypes : List String} (hflavors : flavors.Nodup)
    (hbuildTypes : buildTypes.Nodup) :
    (combined flavors buildTypes).Nodup ↔ ¬Clash flavors buildTypes := by
  rw [combined_eq_map, List.nodup_map_iff_inj_on (hflavors.product hbuildTypes)]
  constructor
  · intro hinj hclash
    cases hclash with
    | capital hf hb hb' hne hcap =>
        have heq := hinj _ (List.mem_product.2 ⟨hf, hb⟩) _ (List.mem_product.2 ⟨hf, hb'⟩)
          (congrArg _ hcap)
        exact hne (Prod.mk.inj heq).2
    | @overlap f u b b' hf hfu hu hb hb' hcap =>
        have heq := hinj (f, b) (List.mem_product.2 ⟨hf, hb⟩) (f ++ u, b')
          (List.mem_product.2 ⟨hfu, hb'⟩) (by rw [hcap, String.append_assoc])
        have hempty : f ++ "" = f ++ u := String.append_empty.trans (Prod.mk.inj heq).1
        exact hu ((String.append_right_inj f).1 hempty).symm
  · intro hclash e he e' he' heq
    by_contra hne
    obtain ⟨hf, hb⟩ := List.mem_product.1 he
    obtain ⟨hf', hb'⟩ := List.mem_product.1 he'
    exact hclash (clash_of_eq hf hf' hb hb' heq hne)

/-! ## Variants and their names -/

section Runs

variable {registrations : List Registration} {name : String} {m m' : Model}

/-- Whatever is done to a payload, no object loses anything. -/
theorem fire_grows (registrations : List Registration) (point name : String) (payload : ObjectRef)
    (m : Model) : m.Grows (fire host point name payload registrations m).2 := by
  have hkeeps : (keeps (fun m' => m.Grows m') fun _ => True).Obeys
      (fire host point name payload registrations) := by
    induction registrations with
    | nil => exact Law.pure _ _
    | cons r rest ih =>
        simp only [fire]
        split
        · refine andThen ?_ fun _ => ih
          cases r.callback with
          | replay path expected options body =>
              rw [Callback.run]
              split
              · exact fun m₁ h => ⟨h.trans (replay_grows _ _ _ _ m₁), fun _ _ _ => trivial⟩
              · exact Law.throw _ trivial
          | refuse reason => exact Law.throw _ trivial
        · exact ih
  exact (hkeeps m (.refl m)).1

theorem grows_of_fire {point : String} {payload : ObjectRef}
    (h : (fire host point name payload registrations).Gives m () m') : m.Grows m' := by
  have hgrows := fire_grows registrations point name payload m
  rwa [h] at hgrows

/-- A variant is made under its name, and keeps it. -/
theorem makeVariant_made {v? : Option (Ref Variant)}
    (h : (makeVariant registrations name).Gives m v? m') :
    m.Grows m' ∧ ∀ v ∈ v?, v.id < m'.variants.size ∧ (v.get m').name = name := by
  obtain ⟨v, m₁, halloc, h⟩ := bind_gives.1 h
  cases halloc
  obtain ⟨⟨⟩, m₂, hfire, h⟩ := bind_gives.1 h
  obtain ⟨rfl, rfl⟩ := pure_gives.1 h
  have hgrows : Model.Grows m (alloc (Variant.new name) m).2 :=
    { Model.Grows.refl m with variants := Heap.grows_alloc .refl _ }
  have hlater := grows_of_fire hfire
  have hnew : (alloc (Variant.new name) m).1.id < (alloc (Variant.new name) m).2.variants.size :=
    Nat.lt_succ_self m.variants.size
  refine ⟨hgrows.trans hlater, fun v hv => ?_⟩
  obtain rfl := Option.some.inj hv
  refine ⟨hnew.trans_le hlater.variants.size, (hlater.variants.cell _ hnew).name.trans ?_⟩
  exact congrArg Variant.name (Ref.get_alloc (Variant.new name) m)

theorem runVariant_made {v? : Option (Ref Variant)}
    (h : (runVariant registrations name).Gives m v? m') :
    m.Grows m' ∧ ∀ v ∈ v?, v.id < m'.variants.size ∧ (v.get m').name = name := by
  obtain ⟨builder, m₁, halloc, h⟩ := bind_gives.1 h
  cases halloc
  obtain ⟨⟨⟩, m₂, hfire, h⟩ := bind_gives.1 h
  obtain ⟨enabled, m₃, hread, h⟩ := bind_gives.1 h
  obtain ⟨-, rfl⟩ := read_gives.1 hread
  have hbuilder : m.Grows (alloc (VariantBuilder.new name) m).2 := { Model.Grows.refl m with }
  have hgrows : m.Grows m₂ := hbuilder.trans (grows_of_fire hfire)
  split at h
  · obtain ⟨hlater, hmade⟩ := makeVariant_made h
    exact ⟨hgrows.trans hlater, hmade⟩
  · obtain ⟨rfl, rfl⟩ := pure_gives.1 h
    exact ⟨hgrows, fun v hv => by cases hv⟩

/-- The variants that were made are there, each under one of the names, in the order of the
names. -/
structure Made (names : List String) (variants : List (Ref Variant)) (m : Model) : Prop where
  made : ∀ v ∈ variants, v.id < m.variants.size
  names : (variants.map fun v => (v.get m).name).Sublist names

theorem runVariants_made {names : List String} {variants : List (Ref Variant)}
    (h : (runVariants registrations names).Gives m variants m') :
    m.Grows m' ∧ Made names variants m' := by
  induction names generalizing m variants with
  | nil =>
      obtain ⟨rfl, rfl⟩ := pure_gives.1 h
      exact ⟨.refl m, fun v hv => absurd hv List.not_mem_nil, List.Sublist.refl _⟩
  | cons name rest ih =>
      rw [runVariants_cons] at h
      obtain ⟨v?, m₁, hfirst, h⟩ := bind_gives.1 h
      obtain ⟨vs, m₂, hrest, h⟩ := bind_gives.1 h
      obtain ⟨rfl, rfl⟩ := pure_gives.1 h
      obtain ⟨hgrows, hmade⟩ := runVariant_made hfirst
      obtain ⟨hlater, hvs⟩ := ih hrest
      refine ⟨hgrows.trans hlater, ?_⟩
      cases v? with
      | none => exact ⟨hvs.made, hvs.names.cons name⟩
      | some v =>
          obtain ⟨hid, hname⟩ := hmade v rfl
          -- the variants after it leave it its name
          have hkept : (v.get m₂).name = name := (hlater.variants.cell v.id hid).name.trans hname
          refine ⟨List.forall_mem_cons.2 ⟨hid.trans_le hlater.variants.size, hvs.made⟩, ?_⟩
          change ((v.get m₂).name :: _).Sublist _
          rw [hkept]
          exact hvs.names.cons_cons name

end Runs

/-! ## Projects -/

namespace ApplicationProject

/-- The names in a collection of the application, if there is one. -/
def namesOf (f : CollectionField) (p : ApplicationProject) : List String :=
  p.application.elim [] fun a => (f.collection a).names p.model

theorem variantNames_eq (p : ApplicationProject) :
    p.variantNames = if (p.namesOf .productFlavors).isEmpty then p.namesOf .buildTypes
      else combined (p.namesOf .productFlavors) (p.namesOf .buildTypes) := by
  unfold variantNames namesOf
  cases p.application <;> rfl

theorem Orderly.nodup_namesOf {p : ApplicationProject} (hp : p.Orderly) (f : CollectionField) :
    (p.namesOf f).Nodup := by
  unfold namesOf
  cases h : p.application with
  | none => exact List.nodup_nil
  | some a => exact (hp.reachable h).kept.1 f

theorem Orderly.nodup_variantNames_iff {p : ApplicationProject} (hp : p.Orderly) :
    p.variantNames.Nodup ↔ ¬Clash (p.namesOf .productFlavors) (p.namesOf .buildTypes) := by
  have hbuildTypes := hp.nodup_namesOf .buildTypes
  rw [variantNames_eq]
  split
  · rename_i hempty
    refine iff_of_true hbuildTypes fun hclash => ?_
    rw [List.isEmpty_iff.1 hempty] at hclash
    cases hclash with
    | capital hf => exact List.not_mem_nil hf
    | overlap hf => exact List.not_mem_nil hf
  · exact nodup_combined_iff (hp.nodup_namesOf .productFlavors) hbuildTypes

theorem length_variantNames (p : ApplicationProject) :
    p.variantNames.length =
      max 1 (p.namesOf .productFlavors).length * (p.namesOf .buildTypes).length := by
  rw [variantNames_eq]
  split
  · rename_i hempty
    rw [List.isEmpty_iff.1 hempty, List.length_nil, max_eq_left zero_le_one, one_mul]
  · rename_i hne
    rw [length_combined, max_eq_right (List.length_pos_of_ne_nil (mt List.isEmpty_iff.2 hne))]

theorem finish_names {p p' : ApplicationProject} {variants : List (Ref Variant)}
    (h : finish.Gives p variants p') :
    (variants.map fun v => (v.get p'.model).name).Sublist p.variantNames := by
  unfold Gives finish at h
  split at h
  · cases h
    exact List.nil_sublist _
  · obtain ⟨hvariants, rfl⟩ := Prod.mk.inj h
    exact (runVariants_made (Prod.ext hvariants rfl)).2.names

/-- The variants that a selector means. -/
def targets (selector : Selector) (variants : List (Ref Variant)) (p : ApplicationProject) :
    List (Ref Variant) :=
  variants.filter fun v => selector.matches? (v.get p.model).name

/-- Variants with names of their own are told apart by their names. -/
theorem length_targets_le {p : ApplicationProject} {variants : List (Ref Variant)}
    (h : (variants.map fun v => (v.get p.model).name).Nodup) (name : String) :
    (targets (.named name) variants p).length ≤ 1 := by
  have hcount : (targets (.named name) variants p).length =
      (variants.map fun v => (v.get p.model).name).count name := by
    rw [targets, List.count, List.countP_map, List.countP_eq_length_filter]
    refine congrArg _ (List.filter_congr fun v _ => ?_)
    exact Bool.beq_comm
  rw [hcount]
  exact List.nodup_iff_count_le_one.1 h name

/-- A project that has accepted a document has a name for each build type, or for each flavor with
each build type. Names are repeated exactly where flavors and build types clash. Variants are made
under these names and, unless there is a clash, a name means at most one of them. -/
theorem variantNames_of_apply {projectDir : Path} {options : Options} {document : Table}
    {p : ApplicationProject} (h : (project.apply options document).Gives (new projectDir) () p) :
    p.variantNames.length =
        max 1 (p.namesOf .productFlavors).length * (p.namesOf .buildTypes).length ∧
      (p.variantNames.Nodup ↔ ¬Clash (p.namesOf .productFlavors) (p.namesOf .buildTypes)) ∧
      ∀ variants p', finish.Gives p variants p' →
        (variants.map fun v => (v.get p'.model).name).Sublist p.variantNames ∧
        (¬Clash (p.namesOf .productFlavors) (p.namesOf .buildTypes) →
          ∀ name, (targets (.named name) variants p').length ≤ 1) := by
  have hp : p.Orderly := keeps_gives ((project_orderly options).apply (fun _ _ => trivial) document)
    (new_orderly projectDir) h
  refine ⟨p.length_variantNames, hp.nodup_variantNames_iff, fun variants p' hfinish => ?_⟩
  have hnames := finish_names hfinish
  exact ⟨hnames, fun hclash =>
    length_targets_le (hnames.nodup (hp.nodup_variantNames_iff.2 hclash))⟩

/-- An application with a flavor and another build type. -/
def flavored (flavor buildType : String) : Table := [
  (pluginsKey, .array [.string applicationPlugin]),
  (applicationKey, .table [
    ("productFlavors", .table [(flavor, .table [])]),
    ("buildTypes", .table [(buildType, .table [])])])]

/-- A new project that has accepted the flavor and the build type. -/
def flavoredProject (flavor buildType : String) : ApplicationProject :=
  (project.apply ⟨.strict, ⟨"/"⟩⟩ (flavored flavor buildType) (new ⟨"/"⟩)).2

/-- The flavor `free` and the build type `staging` make names of their own. -/
theorem variantNames_of_apply_staging :
    (project.apply ⟨.strict, ⟨"/"⟩⟩ (flavored "free" "staging")).Gives (new ⟨"/"⟩) ()
        (flavoredProject "free" "staging") ∧
      ¬Clash ((flavoredProject "free" "staging").namesOf .productFlavors)
        ((flavoredProject "free" "staging").namesOf .buildTypes) := by
  have hgives : (project.apply ⟨.strict, ⟨"/"⟩⟩ (flavored "free" "staging")).Gives (new ⟨"/"⟩) ()
      (flavoredProject "free" "staging") := by
    unfold flavoredProject
    exact gives_of_isOk (by decide +kernel)
  have hnames : (flavoredProject "free" "staging").variantNames =
      ["freeDebug", "freeRelease", "freeStaging"] := by decide +kernel
  exact ⟨hgives, (variantNames_of_apply hgives).2.1.1 (hnames ▸ by decide)⟩

/-- The build types `debug` and `Debug` make the same name, which means both of their variants. -/
theorem variantNames_clash :
    (project.apply ⟨.strict, ⟨"/"⟩⟩ (flavored "free" "Debug")).Gives (new ⟨"/"⟩) ()
        (flavoredProject "free" "Debug") ∧
      (flavoredProject "free" "Debug").variantNames = ["freeDebug", "freeRelease", "freeDebug"] ∧
      ¬(flavoredProject "free" "Debug").variantNames.Nodup ∧
      (finish (flavoredProject "free" "Debug")).1.toOption.map (fun variants => (targets
        (.named "freeDebug") variants (finish (flavoredProject "free" "Debug")).2).length) =
          some 2 := by
  have hnames : (flavoredProject "free" "Debug").variantNames =
      ["freeDebug", "freeRelease", "freeDebug"] := by decide +kernel
  refine ⟨?_, hnames, hnames ▸ by decide, ?_⟩
  · unfold flavoredProject
    exact gives_of_isOk (by decide +kernel)
  · decide +kernel

end ApplicationProject

end BuildReplay.Android
