import BuildReplay.Proofs.Alone
import BuildReplay.Proofs.Android.Payload
import BuildReplay.Proofs.Firing
import Mathlib.Data.List.ReduceOption

/-! # Variants as the document describes them

Callbacks are kept and fired later, but what comes of a variant is what its tables say: the tables
for its name applied to a new builder and, unless they disable it, to a new variant. -/

namespace BuildReplay.Android

/-! ## Tables for builders and variants -/

theorem VariantBuilder.memberless :
    Memberless host (.ofDeclarations (typeRef VariantBuilder) declarations) VariantBuilder where
  described := by
    refine ⟨declarations, Shape.ofDeclarations_describedBy _ _, fun d hd _ _ => ?_⟩
    simp only [declarations, List.mem_cons, List.not_mem_nil, or_false] at hd
    rcases hd with rfl | rfl | rfl | rfl | rfl
    · exact Declaration.viewed_own
    · exact Declaration.stored_own rfl fun _ => trivial
    · exact Declaration.stored_own rfl fun _ => trivial
    · exact Declaration.stored_own rfl fun _ => trivial
    · exact Declaration.stored_own rfl fun _ => trivial
  mapLike := rfl
  overloads _ _ := rfl
  shapeOf := rfl

theorem Variant.memberless :
    Memberless host (.ofDeclarations (typeRef Variant) declarations) Variant where
  described := by
    refine ⟨declarations, Shape.ofDeclarations_describedBy _ _, fun d hd _ _ => ?_⟩
    simp only [declarations, List.mem_cons, List.not_mem_nil, or_false] at hd
    rcases hd with rfl | rfl | rfl | rfl | rfl
    · exact Declaration.viewed_own
    · exact .property rfl (fun _ => rfl) fun _ => trivial
    · exact .map (by decide) (fun _ => rfl) fun _ _ => trivial
    · exact .list (fun _ => rfl) fun _ => trivial
    · exact .property rfl (fun _ => rfl) fun _ => trivial
  mapLike := rfl
  overloads _ _ := rfl
  shapeOf := rfl

section Built

variable {α : Type} [Stored Model α] {shape : Shape Model}

/-- A new object after tables were applied to it, one after the other, in a model that holds no
other object. -/
def built (options : Options) (x : α) (tables : List (String × Table)) : Except Error α :=
  let (r, m) := alloc x Model.empty
  match inOrder (fun e => replay host options e.1 e.2 r.object) tables m with
  | (.ok (), m) => .ok (r.get m)
  | (.error e, _) => .error e

variable (h : Memberless host shape α)
include h

/-- Tables that are applied to a new object of a model make of it what they make of it alone, and
change nothing else. -/
theorem replays_alloc (options : Options) (x : α) (tables : List (String × Table)) (m : Model) :
    ∃ y, inOrder (fun e => replay host options e.1 e.2 (alloc x m).1.object) tables (alloc x m).2 =
        ((built options x tables).map fun _ => (), (alloc x m).1.place.set y (alloc x m).2) ∧
      ∀ z, built options x tables = .ok z → z = y := by
  obtain ⟨result, f, hrun⟩ := h.replays_do options tables
  have hmodify : ∀ m : Model, (alloc x m).1.modify f (alloc x m).2 =
      (alloc x m).1.place.set (f x) (alloc x m).2 := fun m =>
    congrArg (fun a => (alloc x m).1.place.set (f a) (alloc x m).2) (Ref.get_alloc x m)
  have hbuilt : built options x tables = result.map fun _ => f x := by
    unfold built
    dsimp only
    rw [hrun, hmodify]
    cases result with
    | ok _ => exact congrArg Except.ok (Lens.get_set _ _ _)
    | error e => rfl
  refine ⟨f x, ?_, fun z hz => ?_⟩
  · rw [hrun, hmodify, hbuilt]
    cases result <;> rfl
  · rw [hbuilt] at hz
    cases result with
    | ok _ => exact (Except.ok.inj hz).symm
    | error e => cases hz

end Built

/-! ## Models that grow -/

/-- The second heap holds what the first one holds, and maybe more. -/
structure HeapGrows {α : Type} (h h' : Heap α) : Prop where
  size : h.size ≤ h'.size
  cell : ∀ id < h.size, h'.cell id = h.cell id

namespace HeapGrows

variable {α : Type} {h h' h'' : Heap α}

theorem refl (h : Heap α) : HeapGrows h h := ⟨le_rfl, fun _ _ => rfl⟩

theorem trans (hg : HeapGrows h h') (hg' : HeapGrows h' h'') : HeapGrows h h'' where
  size := hg.size.trans hg'.size
  cell id hid := (hg'.cell id (hid.trans_le hg.size)).trans (hg.cell id hid)

/-- A new object may be changed at once. -/
theorem alloc_put (h : Heap α) (a b : α) : HeapGrows h ((h.alloc a).2.put h.size b) where
  size := Nat.le_succ h.size
  cell id hid := by
    have hne : id ≠ h.size := Nat.ne_of_lt hid
    rw [Heap.cell_put_of_ne _ _ hne]
    exact h.cell_put_of_ne a hne

end HeapGrows

/-- The second model has more builders and variants than the first one, maybe, and is the same
otherwise. -/
structure Grows (m m' : Model) : Prop where
  applications : m'.applications = m.applications
  defaultConfigs : m'.defaultConfigs = m.defaultConfigs
  buildTypes : m'.buildTypes = m.buildTypes
  productFlavors : m'.productFlavors = m.productFlavors
  signingConfigs : m'.signingConfigs = m.signingConfigs
  compileOptions : m'.compileOptions = m.compileOptions
  builders : HeapGrows m.builders m'.builders
  variants : HeapGrows m.variants m'.variants

namespace Grows

variable {m m' m'' : Model}

theorem refl (m : Model) : Grows m m := ⟨rfl, rfl, rfl, rfl, rfl, rfl, .refl _, .refl _⟩

theorem trans (h : Grows m m') (h' : Grows m' m'') : Grows m m'' where
  applications := h'.applications.trans h.applications
  defaultConfigs := h'.defaultConfigs.trans h.defaultConfigs
  buildTypes := h'.buildTypes.trans h.buildTypes
  productFlavors := h'.productFlavors.trans h.productFlavors
  signingConfigs := h'.signingConfigs.trans h.signingConfigs
  compileOptions := h'.compileOptions.trans h.compileOptions
  builders := h.builders.trans h'.builders
  variants := h.variants.trans h'.variants

theorem builder (x y : VariantBuilder) (m : Model) :
    Grows m ((alloc x m).1.place.set y (alloc x m).2) :=
  ⟨rfl, rfl, rfl, rfl, rfl, rfl, .alloc_put m.builders x y, .refl _⟩

theorem variant (x y : Variant) (m : Model) :
    Grows m ((alloc x m).1.place.set y (alloc x m).2) :=
  ⟨rfl, rfl, rfl, rfl, rfl, rfl, .refl _, .alloc_put m.variants x y⟩

end Grows

/-! ## One variant -/

/-- Makes the variant of a name that is not disabled. -/
def makeVariant (registrations : List Registration) (name : String) :
    Act Model (Option (Ref Variant)) := do
  let variant : Ref Variant ← .run (alloc (Variant.new name))
  fire host onVariants.name name variant.object registrations
  return some variant

/-- Makes the variant of a name, unless it is disabled. -/
def runVariant (registrations : List Registration) (name : String) :
    Act Model (Option (Ref Variant)) := do
  let builder : Ref VariantBuilder ← .run (alloc (VariantBuilder.new name))
  fire host beforeVariants.name name builder.object registrations
  if ← .read fun m => (builder.get m).enable then makeVariant registrations name else return none

theorem runVariants_cons (registrations : List Registration) (name : String) (rest : List String) :
    runVariants registrations (name :: rest) = (do
      let variant? ← runVariant registrations name
      let variants ← runVariants registrations rest
      return variant?.toList ++ variants) := by
  rw [runVariants, runVariant]
  simp only [bind_assoc]
  refine bind_congr fun builder => bind_congr fun _ => bind_congr fun enabled => ?_
  cases enabled with
  | true =>
      simp only [if_true, makeVariant, bind_assoc, pure_bind]
      rfl
  | false =>
      simp only [Bool.false_eq_true, if_false, pure_bind]
      exact (bind_pure _).symm

/-- The variant that the tables for a name describe, if they do not disable it: what they make of a
new builder decides, then they are applied to a new variant. -/
def variantOf (options : Options) (path : String) (c : Table) (name : String) :
    Except Error (Option Variant) := do
  let builder ← built options (VariantBuilder.new name) (c.tablesFor path beforeVariants.name name)
  if builder.enable then
    some <$> built options (Variant.new name) (c.tablesFor path onVariants.name name)
  else return none

section Runs

variable {options : Options} {path : String} {c : Table} {registrations : List Registration}

/-- The callbacks that a table was accepted with. -/
def Registers (options : Options) (path : String) (c : Table) (registrations : List Registration) :
    Prop :=
  ∀ point ∈ applicationComponents.points, ∀ name, callbacksFor point.name name registrations =
    (c.tablesFor path point.name name).map fun e => .replay e.1 point.payload options e.2

theorem registers_of_configure
    (h : (applicationComponents.configure options path c).Gives [] () registrations) :
    Registers options path c registrations := by
  intro point hpoint name
  rw [Components.configure_callbacks (fun _ => rfl) (fun p hp q hq => points_determined hp hq) hpoint
    name h]
  rfl

variable (hregisters : Registers options path c registrations)
include hregisters

/-- A point is fired with a payload: its tables are replayed in document order. -/
theorem fire_eq_replays {point : CallbackPoint} (hpoint : point ∈ applicationComponents.points)
    {payload : ObjectRef} (hpayload : payload.type = point.payload) (name : String) :
    fire host point.name name payload registrations =
      inOrder (fun e => replay host options e.1 e.2 payload) (c.tablesFor path point.name name) := by
  rw [fire_eq_inOrder, hregisters point hpoint name]
  generalize c.tablesFor path point.name name = tables
  induction tables with
  | nil => rfl
  | cons e rest ih =>
      rw [List.map_cons, inOrder, inOrder, ih, Callback.run, if_pos hpayload]

/-- A point is fired with a new payload. -/
theorem fire_alloc {α : Type} [Stored Model α] {shape : Shape Model} (h : Memberless host shape α)
    (point : CallbackPoint) (hpoint : point ∈ applicationComponents.points)
    (hpayload : typeRef α = point.payload) (name : String) (x : α) (m : Model) :
    ∃ y, fire host point.name name (alloc x m).1.object registrations (alloc x m).2 =
        ((built options x (c.tablesFor path point.name name)).map fun _ => (),
          (alloc x m).1.place.set y (alloc x m).2) ∧
      ∀ z, built options x (c.tablesFor path point.name name) = .ok z → z = y := by
  rw [fire_eq_replays hregisters hpoint hpayload name]
  exact replays_alloc h options x _ m

theorem makeVariant_eq (name : String) (m : Model) :
    ∃ r m', makeVariant registrations name m = (r, m') ∧ Grows m m' ∧
      (r.map fun v? => v?.map (·.get m')) =
        some <$> built options (Variant.new name) (c.tablesFor path onVariants.name name) ∧
      ∀ v : Ref Variant, r = .ok (some v) → v.id < m'.variants.size := by
  obtain ⟨y, hfire, hy⟩ := fire_alloc hregisters Variant.memberless onVariants
    (List.mem_cons_of_mem _ List.mem_cons_self) rfl name (.new name) m
  cases hvariant : built options (Variant.new name) (c.tablesFor path onVariants.name name) with
  | error e =>
      rw [hvariant] at hfire
      exact ⟨.error e, _, Act.Raises.bind hfire _, .variant _ y m, rfl, fun v hv => by cases hv⟩
  | ok variant =>
      rw [hvariant] at hfire
      obtain rfl := hy variant hvariant
      refine ⟨.ok (some (alloc (Variant.new name) m).1), _, Act.Gives.bind_eq hfire _,
        .variant _ variant m, ?_, fun v hv => ?_⟩
      · exact congrArg (fun v => Except.ok (some v)) (Lens.get_set _ variant _)
      · cases hv
        exact Nat.lt_succ_self m.variants.size

/-- What is made for a name is what its tables describe. -/
theorem runVariant_eq (name : String) (m : Model) :
    ∃ r m', runVariant registrations name m = (r, m') ∧ Grows m m' ∧
      (r.map fun v? => v?.map (·.get m')) = variantOf options path c name ∧
      ∀ v : Ref Variant, r = .ok (some v) → v.id < m'.variants.size := by
  obtain ⟨y, hfire, hy⟩ := fire_alloc hregisters VariantBuilder.memberless
    beforeVariants List.mem_cons_self rfl name (.new name) m
  cases hbuilder : built options (VariantBuilder.new name)
      (c.tablesFor path beforeVariants.name name) with
  | error e =>
      rw [hbuilder] at hfire
      refine ⟨.error e, _, Act.Raises.bind hfire _, .builder _ y m, ?_, fun v hv => by cases hv⟩
      rw [variantOf, hbuilder]
      rfl
  | ok builder =>
      rw [hbuilder] at hfire
      obtain rfl := hy builder hbuilder
      have hgrows : Grows m _ := .builder (VariantBuilder.new name) builder m
      have hget := Lens.get_set (alloc (VariantBuilder.new name) m).1.place builder
        (alloc (VariantBuilder.new name) m).2
      have hrun : runVariant registrations name m = _ := Act.Gives.bind_eq hfire _
      generalize (alloc (VariantBuilder.new name) m).1.place.set builder
        (alloc (VariantBuilder.new name) m).2 = m₁ at hgrows hget hrun
      have hrest : runVariant registrations name m =
          (if builder.enable then makeVariant registrations name else pure none) m₁ := by
        rw [hrun, ← hget]
        rfl
      have hof : variantOf options path c name = if builder.enable then
          some <$> built options (Variant.new name) (c.tablesFor path onVariants.name name)
        else pure none := by
        rw [variantOf, hbuilder]
        rfl
      rw [hrest, hof]
      cases builder.enable with
      | false => exact ⟨.ok none, m₁, rfl, hgrows, rfl, fun v hv => by cases hv⟩
      | true =>
          obtain ⟨r, m', hmake, hgrows', hr, hmade⟩ := makeVariant_eq hregisters name m₁
          exact ⟨r, m', hmake, hgrows.trans hgrows', hr, hmade⟩

/-- The variants of some names are what the tables describe, name by name. -/
theorem runVariants_eq (names : List String) (m : Model) :
    ∃ r m', runVariants registrations names m = (r, m') ∧ Grows m m' ∧
      (r.map fun vs => vs.map (·.get m')) =
        (names.mapM (variantOf options path c)).map List.reduceOption := by
  induction names generalizing m with
  | nil => exact ⟨.ok [], m, rfl, .refl m, rfl⟩
  | cons name rest ih =>
      obtain ⟨r, m₁, hrun, hgrows, hr, hmade⟩ := runVariant_eq hregisters name m
      rw [runVariants_cons, List.mapM_cons, ← hr]
      cases r with
      | error e => exact ⟨.error e, m₁, Act.Raises.bind hrun _, hgrows, rfl⟩
      | ok v? =>
          obtain ⟨r', m', hrest, hgrows', hr'⟩ := ih m₁
          rw [Act.Gives.bind_eq hrun]
          generalize rest.mapM (variantOf options path c) = described at hr'
          cases r' with
          | error e =>
              refine ⟨.error e, m', Act.Raises.bind hrest _, hgrows.trans hgrows', ?_⟩
              cases described <;> cases hr'
              rfl
          | ok vs =>
              refine ⟨.ok (v?.toList ++ vs), m', Act.Gives.bind_eq hrest _, hgrows.trans hgrows', ?_⟩
              cases described with
              | error e => cases hr'
              | ok xs =>
                  have hxs : vs.map (·.get m') = xs.reduceOption := Except.ok.inj hr'
                  refine congrArg Except.ok ?_
                  dsimp only
                  rw [List.map_append, hxs]
                  cases v? with
                  | none => exact (List.reduceOption_cons_of_none xs).symm
                  | some v =>
                      -- what was made for the name is not changed by the names after it
                      have hkept : (v.get m' : Variant) = v.get m₁ :=
                        hgrows'.variants.cell v.id (hmade v rfl)
                      rw [Option.map_some, List.reduceOption_cons_of_some, ← hkept]
                      rfl

end Runs

/-! ## Projects -/

/-- The variants that were made, or the error that ended the run. -/
def answer (r : Except Error (List (Ref Variant))) (m : Model) : Except Error (List Variant) :=
  r.map fun vs => vs.map (·.get m)

/-- What a table of callbacks is accepted as, running the variants of some names answers with what
the table describes for each of them in turn, and tables under other names do not count. It adds
builders and variants to the model, changes nothing else of the project, and answers the same
another time. -/
theorem runVariants_described {options : Options} {path : String} {c : Table}
    {p : ApplicationProject}
    (h : (applicationComponents.configure options path c).Gives [] () p.registrations)
    (names : List String) :
    ∃ r m', (runVariants p.registrations names).within ApplicationProject.modelLens p =
        (r, { p with model := m' }) ∧ Grows p.model m' ∧
      answer r m' = (names.mapM (variantOf options path c)).map List.reduceOption ∧
      (∀ name, variantOf options path (c.only name) name = variantOf options path c name) ∧
      ∃ r' m'', (runVariants p.registrations names).within ApplicationProject.modelLens
          { p with model := m' } = (r', { p with model := m'' }) ∧ Grows m' m'' ∧
        answer r' m'' = answer r m' := by
  have hregisters := registers_of_configure h
  obtain ⟨r, m', hrun, hgrows, hr⟩ := runVariants_eq hregisters names p.model
  obtain ⟨r', m'', hrun', hgrows', hr'⟩ := runVariants_eq hregisters names m'
  have honly : ∀ name, variantOf options path (c.only name) name = variantOf options path c name := by
    intro name
    rw [variantOf, variantOf, Table.tablesFor_only, Table.tablesFor_only]
  refine ⟨r, m', ?_, hgrows, hr, honly, r', m'', ?_, hgrows', hr'.trans hr.symm⟩
  · exact congrArg (fun o : _ × Model => (o.1, { p with model := o.2 })) hrun
  · exact congrArg (fun o : _ × Model => (o.1, { p with model := o.2 })) hrun'

/-- Callbacks that disable one variant and name the application of all. -/
def stagingCallbacks : Table := [
  ("beforeVariants", .table [("staging", .table [("enable", .boolean false)])]),
  ("onVariants", .table [("all", .table [("applicationId", .string "demo")])])]

/-- A project that was configured with these callbacks alone. -/
def stagingProject : ApplicationProject :=
  { ApplicationProject.new ⟨"/"⟩ with
    registrations := (applicationComponents.configure ⟨.strict, ⟨"/"⟩⟩ componentsKey
      stagingCallbacks []).2 }

theorem runVariants_described_staging :
    ∃ r m', (runVariants stagingProject.registrations ["staging", "debug"]).within
        ApplicationProject.modelLens stagingProject = (r, { stagingProject with model := m' }) ∧
      (answer r m').map (·.map fun v => (v.name, v.applicationId)) =
        .ok [("debug", some "demo")] := by
  have hconfigure : (applicationComponents.configure ⟨.strict, ⟨"/"⟩⟩ componentsKey
      stagingCallbacks).Gives [] () stagingProject.registrations := rfl
  obtain ⟨r, m', hrun, -, hanswer, -⟩ := runVariants_described hconfigure ["staging", "debug"]
  exact ⟨r, m', hrun, by rw [hanswer]; rfl⟩

end BuildReplay.Android
