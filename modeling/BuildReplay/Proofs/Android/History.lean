import BuildReplay.Proofs.Android.Contents

/-! # The history of an application

An application is made with two build types, and documents are applied to it and to other objects,
one after the other. Whether a document is accepted or not, the application loses nothing by it. -/

namespace BuildReplay.Android

open Act Law

variable {a : Ref ApplicationExtension} {m m' : Model}

/-! ## Making elements -/

/-- Where a heap takes an object with more items than the one in its place, the items of an object
are those it had, or some of the new ones. -/
theorem mem_of_put {α β : Type} (items : α → List β) {h : Heap α} {id i : Nat} {x : α} {l : List β}
    (hx : items x = items (h.cell id) ++ l) {e : β} (he : e ∈ items ((h.put id x).cell i)) :
    e ∈ items (h.cell i) ∨ e ∈ l := by
  by_cases hi : i = id
  · subst hi
    rw [h.cell_put_self, hx] at he
    exact List.mem_append.1 he
  · rw [h.cell_put_of_ne x hi] at he
    exact .inl he

theorem maybeCreate_grows (slot : Slot) (name : String) (m : Model) :
    m.Grows (host.maybeCreate slot name m).2 := by
  rcases maybeCreate_cases slot name m with h | ⟨b, f, hfind, h⟩
  · rw [h]
    exact .refl m
  · rw [h, NamedCollection.obtain_of_find?_none hfind]
    cases f with
    | buildTypes =>
        exact { Model.Grows.refl m with
          applications := Heap.cell_put_related .refl
            { ApplicationExtension.Grows.refl _ with buildTypes := List.prefix_append _ _ }
          buildTypes := Heap.grows_alloc .refl _ }
    | productFlavors =>
        exact { Model.Grows.refl m with
          applications := Heap.cell_put_related .refl
            { ApplicationExtension.Grows.refl _ with productFlavors := List.prefix_append _ _ }
          productFlavors := Heap.grows_alloc .refl _ }
    | signingConfigs =>
        exact { Model.Grows.refl m with
          applications := Heap.cell_put_related .refl
            { ApplicationExtension.Grows.refl _ with signingConfigs := List.prefix_append _ _ }
          signingConfigs := Heap.grows_alloc .refl _ }

/-- Whatever a document is applied to, and whether or not it is accepted, nothing is lost. -/
theorem replay_grows (options : Options) (start : String) (t : Table) (r : ObjectRef) (m : Model) :
    m.Grows (replay host options start t r m).2 := by
  have hkeeps : (keeps (fun m' => m.Grows m') fun _ => True).Obeys
      (replay host options start t r) := by
    refine (host_obeys (fun h hm => hm.trans h.grows) fun _ => trivial).replay ?_
      (fun _ _ => trivial) start t r
    exact fun slot name m₁ hm₁ =>
      ⟨hm₁.trans (maybeCreate_grows slot name m₁), fun _ _ _ => trivial⟩
  exact (hkeeps m (.refl m)).1

theorem sound_of_replay {options : Options} {start : String} {t : Table} {r : ObjectRef}
    (hm : (a.get m).Sound m) (h : (replay host options start t r).Gives m () m') :
    (a.get m').Sound m' := by
  have hsound := replay_sound options start t r hm
  rwa [h] at hsound

theorem grows_of_replay {options : Options} {start : String} {t : Table} {r : ObjectRef}
    (h : (replay host options start t r).Gives m () m') : m.Grows m' := by
  have hgrows := replay_grows options start t r m
  rwa [h] at hgrows

/-! ## Invariants -/

/-- Every element of an application has the name that it is stored under. -/
structure Named (a : Ref ApplicationExtension) (m : Model) : Prop where
  buildTypes : ∀ e ∈ (a.get m).buildTypes, (e.2.get m).name = e.1
  productFlavors : ∀ e ∈ (a.get m).productFlavors, (e.2.get m).name = e.1
  signingConfigs : ∀ e ∈ (a.get m).signingConfigs, (e.2.get m).name = e.1

/-- Elements keep their names, so only new ones are to be looked at. -/
theorem Named.of_grows (h : Named a m) (hm : (a.get m).Sound m) (hgrows : m.Grows m')
    (hbuildTypes : ∀ e ∈ (a.get m').buildTypes,
      e ∈ (a.get m).buildTypes ∨ (e.2.get m').name = e.1)
    (hflavors : ∀ e ∈ (a.get m').productFlavors,
      e ∈ (a.get m).productFlavors ∨ (e.2.get m').name = e.1)
    (hsigning : ∀ e ∈ (a.get m').signingConfigs,
      e ∈ (a.get m).signingConfigs ∨ (e.2.get m').name = e.1) : Named a m' where
  buildTypes e he := (hbuildTypes e he).elim (fun hmem =>
    (hgrows.buildTypes.cell _ (hm.buildTypes.made e hmem)).name.trans (h.buildTypes e hmem)) id
  productFlavors e he := (hflavors e he).elim (fun hmem =>
    (hgrows.productFlavors.cell _ (hm.productFlavors.made e hmem)).name.trans
      (h.productFlavors e hmem)) id
  signingConfigs e he := (hsigning e he).elim (fun hmem =>
    (hgrows.signingConfigs.cell _ (hm.signingConfigs.made e hmem)).name.trans
      (h.signingConfigs e hmem)) id

/-- What holds of an application at any time. -/
structure Intact (a : Ref ApplicationExtension) (m : Model) : Prop where
  sound : (a.get m).Sound m
  named : Named a m
  standard : ["debug", "release"] <+: (a.get m).buildTypes.map (·.1)

theorem standard_of_grows (hgrows : m.Grows m')
    (h : ["debug", "release"] <+: (a.get m).buildTypes.map (·.1)) :
    ["debug", "release"] <+: (a.get m').buildTypes.map (·.1) :=
  h.trans ((hgrows.applications a.id).buildTypes.map _)

theorem Intact.edits (hedits : m.Edits m') (h : Intact a m) : Intact a m' := by
  have hlinks : (a.get m').links = (a.get m).links :=
    congrFun (congrArg Outline.links hedits.outline) a.id
  obtain ⟨-, hbuildTypes, hflavors, hsigning, -⟩ := Links.mk.inj hlinks
  refine ⟨sound_edits hedits h.sound, ?_, standard_of_grows hedits.grows h.standard⟩
  refine h.named.of_grows h.sound hedits.grows (fun e he => ?_) (fun e he => ?_) fun e he => ?_
  · exact .inl (hbuildTypes ▸ he)
  · exact .inl (hflavors ▸ he)
  · exact .inl (hsigning ▸ he)

theorem maybeCreate_intact (slot : Slot) (name : String) (h : Intact a m) :
    Intact a (host.maybeCreate slot name m).2 := by
  have hgrows := maybeCreate_grows slot name m
  refine ⟨maybeCreate_sound slot name h.sound, ?_, standard_of_grows hgrows h.standard⟩
  rcases maybeCreate_cases slot name m with heq | ⟨b, f, hfind, heq⟩
  · rw [heq]
    exact h.named
  · rw [heq, NamedCollection.obtain_of_find?_none hfind] at hgrows ⊢
    have hsame : ∀ {α : Type} {items : ApplicationExtension → List α} {x : ApplicationExtension} {e},
        e ∈ items ((m.applications.put b.id x).cell a.id) →
          items x = items (m.applications.cell b.id) → e ∈ items (a.get m) :=
      fun he hx => Heap.cell_put_congr _ hx a.id ▸ he
    -- the new element has its name, and the other two collections are as they were
    cases f with
    | buildTypes =>
        refine h.named.of_grows h.sound hgrows (fun e he => ?_) (fun e he => ?_) fun e he => ?_
        · change e ∈ ((m.applications.put b.id _).cell a.id).buildTypes at he
          refine (mem_of_put ApplicationExtension.buildTypes rfl he).imp_right fun hnew => ?_
          rw [List.mem_singleton.1 hnew]
          exact congrArg BuildType.name (m.buildTypes.cell_put_self _ _)
        · change e ∈ ((m.applications.put b.id _).cell a.id).productFlavors at he
          exact .inl (hsame he rfl)
        · change e ∈ ((m.applications.put b.id _).cell a.id).signingConfigs at he
          exact .inl (hsame he rfl)
    | productFlavors =>
        refine h.named.of_grows h.sound hgrows (fun e he => ?_) (fun e he => ?_) fun e he => ?_
        · change e ∈ ((m.applications.put b.id _).cell a.id).buildTypes at he
          exact .inl (hsame he rfl)
        · change e ∈ ((m.applications.put b.id _).cell a.id).productFlavors at he
          refine (mem_of_put ApplicationExtension.productFlavors rfl he).imp_right fun hnew => ?_
          rw [List.mem_singleton.1 hnew]
          exact congrArg ProductFlavor.name (m.productFlavors.cell_put_self _ _)
        · change e ∈ ((m.applications.put b.id _).cell a.id).signingConfigs at he
          exact .inl (hsame he rfl)
    | signingConfigs =>
        refine h.named.of_grows h.sound hgrows (fun e he => ?_) (fun e he => ?_) fun e he => ?_
        · change e ∈ ((m.applications.put b.id _).cell a.id).buildTypes at he
          exact .inl (hsame he rfl)
        · change e ∈ ((m.applications.put b.id _).cell a.id).productFlavors at he
          exact .inl (hsame he rfl)
        · change e ∈ ((m.applications.put b.id _).cell a.id).signingConfigs at he
          refine (mem_of_put ApplicationExtension.signingConfigs rfl he).imp_right fun hnew => ?_
          rw [List.mem_singleton.1 hnew]
          exact congrArg SigningConfig.name (m.signingConfigs.cell_put_self _ _)

theorem create_intact (projectDir : Path) (m : Model) :
    Intact (ApplicationExtension.create projectDir m).1
      (ApplicationExtension.create projectDir m).2 := by
  obtain ⟨-, hbuildTypes, hflavors, hsigning, -⟩ := Links.mk.inj (create_links projectDir m)
  refine ⟨create_sound projectDir m, ⟨?_, hflavors ▸ ?_, hsigning ▸ ?_⟩, ?_⟩
  · have hdebug : m.buildTypes.size ≠ m.buildTypes.size + 1 := Nat.ne_of_lt (Nat.lt_succ_self _)
    rw [hbuildTypes]
    simp only [List.forall_mem_cons]
    refine ⟨?_, ?_, by simp⟩
    · exact congrArg BuildType.name (((m.buildTypes.alloc _).2.cell_put_of_ne _ hdebug).trans
        (m.buildTypes.cell_put_self _ _))
    · exact congrArg BuildType.name ((m.buildTypes.alloc _).2.cell_put_self _ _)
  · simp
  · simp
  · rw [hbuildTypes]
    exact List.prefix_rfl

/-- The element that a name stands for has this name. -/
theorem Intact.name_eq {n : String} {b : Ref BuildType} (h : Intact a m)
    (hn : (CollectionField.buildTypes.collection a).getByName n m = some b.object) :
    (b.get m).name = n := by
  obtain ⟨b', hfind, hobject⟩ := Option.map_eq_some_iff.1 hn
  obtain rfl : b' = b := Ref.object_inj (α := BuildType).1 hobject
  obtain ⟨⟨n', b'⟩, hmem, rfl⟩ := Option.map_eq_some_iff.1 hfind
  obtain rfl : n' = n := by simpa using List.find?_some hmem
  exact h.named.buildTypes _ (List.mem_of_find?_eq_some hmem)

/-! ## Histories -/

/-- The application was made in the model, and then documents were applied, each to some object and
with any outcome. -/
inductive Reachable (a : Ref ApplicationExtension) : Model → Prop where
  | create {projectDir : Path} {m : Model} : (ApplicationExtension.create projectDir m).1 = a →
      Reachable a (ApplicationExtension.create projectDir m).2
  | replay {m : Model} (options : Options) (start : String) (t : Table) (r : ObjectRef) :
      Reachable a m →
      Reachable a (BuildReplay.replay host options start t r m).2

theorem Reachable.intact (h : Reachable a m) : Intact a m := by
  induction h with
  | create ha => exact ha ▸ create_intact _ _
  | replay options start t r _ ih =>
      have hkeeps : (keeps (Intact a) fun _ => True).Obeys
          (BuildReplay.replay host options start t r) := by
        refine (host_obeys Intact.edits fun _ => trivial).replay ?_
          (fun _ _ => trivial) start t r
        exact fun slot name m hm => ⟨maybeCreate_intact slot name hm, fun _ _ _ => trivial⟩
      exact (hkeeps _ ih).1

/-- Of what an application and its objects had, everything is still there: what stood in a list
stands where it was, a name stands for the same element, and a key of a map is a key. -/
structure Kept (a : Ref ApplicationExtension) (m m' : Model) : Prop where
  flavorDimensions : (a.get m).flavorDimensions <+: (a.get m').flavorDimensions
  names : ∀ f : CollectionField, (f.collection a).names m <+: (f.collection a).names m'
  elements : ∀ (f : CollectionField) name r, (f.collection a).getByName name m = some r →
    (f.collection a).getByName name m' = some r
  buildTypes : ∀ e ∈ (a.get m).buildTypes, (e.2.get m).Grows (e.2.get m')
  productFlavors : ∀ e ∈ (a.get m).productFlavors, (e.2.get m).Grows (e.2.get m')
  signingConfigs : ∀ e ∈ (a.get m).signingConfigs, (e.2.get m).Grows (e.2.get m')
  defaultConfig : (a.get m').defaultConfig = (a.get m).defaultConfig ∧
    ((a.get m).defaultConfig.get m).Grows ((a.get m).defaultConfig.get m')
  compileOptions : (a.get m').compileOptions = (a.get m).compileOptions

theorem entries_of_grows (a : Ref ApplicationExtension) (f : CollectionField) (h : m.Grows m') :
    (f.collection a).entries.get m <+: (f.collection a).entries.get m' := by
  cases f with
  | buildTypes => exact (h.applications a.id).buildTypes
  | productFlavors => exact (h.applications a.id).productFlavors
  | signingConfigs => exact (h.applications a.id).signingConfigs

theorem Kept.of_grows (hm : (a.get m).Sound m) (h : m.Grows m') : Kept a m m' where
  flavorDimensions := (h.applications a.id).flavorDimensions
  names f := (entries_of_grows a f h).map _
  elements f name r hr := by
    obtain ⟨element, hfind, rfl⟩ := Option.map_eq_some_iff.1 hr
    obtain ⟨e, he, rfl⟩ := Option.map_eq_some_iff.1 hfind
    obtain ⟨rest, hrest⟩ := entries_of_grows a f h
    rw [NamedCollection.getByName, NamedCollection.find?, ← hrest, List.find?_append, he]
    rfl
  buildTypes e he := h.buildTypes.cell _ (hm.buildTypes.made e he)
  productFlavors e he := h.productFlavors.cell _ (hm.productFlavors.made e he)
  signingConfigs e he := h.signingConfigs.cell _ (hm.signingConfigs.made e he)
  defaultConfig := ⟨(h.applications a.id).defaultConfig, h.defaultConfigs _⟩
  compileOptions := (h.applications a.id).compileOptions

/-- At any time the elements of an application have names of their own, each the name that it is
stored under, and the build types begin with `debug` and `release`. Whatever document comes next,
and whether or not it is accepted, nothing that the application has is removed or renamed. -/
theorem Reachable.kept (h : Reachable a m) :
    (∀ f : CollectionField, ((f.collection a).names m).Nodup) ∧ Named a m ∧
      ["debug", "release"] <+: (CollectionField.buildTypes.collection a).names m ∧
      ∀ options start t, Kept a m (BuildReplay.replay host options start t a.object m).2 := by
  obtain ⟨hsound, hnamed, hstandard⟩ := h.intact
  refine ⟨fun f => ?_, hnamed, hstandard, fun options start t => ?_⟩
  · cases f with
    | buildTypes => exact hsound.buildTypes.names
    | productFlavors => exact hsound.productFlavors.names
    | signingConfigs => exact hsound.signingConfigs.names
  · exact .of_grows hsound (replay_grows options start t a.object m)

/-- A new application with a flavor dimension. -/
def tieredModel : Model :=
  (BuildReplay.replay host ⟨.strict, ⟨"/"⟩⟩ "android" [("flavorDimensions", .string "tier")]
    (Ref.mk 0 : Ref ApplicationExtension).object (ApplicationExtension.create ⟨"/"⟩ .empty).2).2

/-- The dimension stays the first one, whatever comes after it. -/
theorem tieredModel_kept :
    Reachable ⟨0⟩ tieredModel ∧
      ((⟨0⟩ : Ref ApplicationExtension).get tieredModel).flavorDimensions = ["tier"] ∧
      ∀ options start t, Kept ⟨0⟩ tieredModel (BuildReplay.replay host options start t
        (Ref.mk 0 : Ref ApplicationExtension).object tieredModel).2 := by
  have hreachable : Reachable ⟨0⟩ tieredModel := .replay _ _ _ _ (.create rfl)
  exact ⟨hreachable, rfl, (Reachable.kept hreachable).2.2.2⟩

end BuildReplay.Android
