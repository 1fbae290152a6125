import BuildReplay.Proofs.Android.History
import BuildReplay.Proofs.Android.Locality
import BuildReplay.Proofs.Fields

/-! # Taking over settings

A build type takes over the settings of another one by the key `initWith`, whose text is a name. The
name stands for a build type that is there at that time. Its settings are copied, and from then on
the two build types have nothing in common. -/

namespace BuildReplay.Android

open Act

/-! ## Settings -/

/-- The settings of a build type `x'` that was `x` before it took over those of `y`. -/
structure BuildType.TakesOver (x y x' : BuildType) : Prop where
  name : x'.name = x.name
  minifyEnabled : x'.minifyEnabled = y.minifyEnabled
  shrinkResources : x'.shrinkResources = y.shrinkResources
  debuggable : x'.debuggable = y.debuggable
  applicationIdSuffix : x'.applicationIdSuffix = y.applicationIdSuffix
  versionNameSuffix : x'.versionNameSuffix = y.versionNameSuffix
  signingConfig : x'.signingConfig = y.signingConfig
  proguardFiles : x'.proguardFiles = x.proguardFiles ++ y.proguardFiles
  matchingFallbacks : x'.matchingFallbacks = x.matchingFallbacks ++ y.matchingFallbacks
  manifestPlaceholders : ∀ key, x'.manifestPlaceholders.get? key =
    (y.manifestPlaceholders.get? key).or (x.manifestPlaceholders.get? key)

theorem BuildType.initWith_takesOver (x y : BuildType) : x.TakesOver y (x.initWith y) where
  name := rfl
  minifyEnabled := rfl
  shrinkResources := rfl
  debuggable := rfl
  applicationIdSuffix := rfl
  versionNameSuffix := rfl
  signingConfig := rfl
  proguardFiles := rfl
  matchingFallbacks := rfl
  manifestPlaceholders := Dictionary.get?_foldl_insert y.manifestPlaceholders.sorted _

/-! ## The key -/

def buildTypeShape : Shape Model := .ofDeclarations (typeRef BuildType) BuildType.declarations

/-- The refusal of a build type that is to take over its own settings. -/
def BuildType.selfError (x : BuildType) : Error :=
  .host ("build type `" ++ x.name ++ "` cannot be initialized with itself")

/-- The only overload of the member takes the settings of another build type over. -/
theorem exists_initWith : ∃ x : Member Model, buildTypeShape.members? "initWith" = some [x] ∧
    x.params = [.object (typeRef BuildType)] ∧
    (∀ (b other : Ref BuildType) (m : Model), other ≠ b →
      (x.invoke b.object [.object other.object]).Gives m .nothing
        (b.modify (·.initWith (other.get m)) m)) ∧
    ∀ (b : Ref BuildType) (m : Model),
      (x.invoke b.object [.object b.object]).Raises m (b.get m : BuildType).selfError m := by
  have hinvoke : ∀ b other : Ref BuildType,
      (b.object.lend .exclusive fun b : Ref BuildType => do
        BuildType.takeOver b (← argument [.object other.object] 0)).act =
          (BuildType.takeOver b other).during (Borrows.nothing.set b.object .writer) := by
    intro b other
    rw [ObjectRef.act_lend_object, Access.during_bind, argument_object]
    rfl
  refine ⟨_, rfl, rfl, fun b other m hne => ?_, fun b m => ?_⟩
  · dsimp only
    rw [hinvoke, BuildType.takeOver_eq, if_neg hne]
    rfl
  · dsimp only
    rw [hinvoke, BuildType.takeOver_eq, if_pos rfl]
    rfl

section Key

variable (a : Ref ApplicationExtension) (n : String) (b : Ref BuildType) (options : Options)
  (start : String)

/-- The scope of the key in the table of a build type. -/
def initWithScope : Scope Model :=
  (((Place.element .buildTypes n).scope a options start).enter
    (.object b.object buildTypeShape)).key "initWith"

variable {a n b options start} {m m' : Model} {o : String} {other : Ref BuildType}

/-- The name stands for a build type of the application: the frames of objects know no names. -/
theorem resolveArgument_initWith :
    (resolveArgument host (initWithScope a n b options start) (.object (typeRef BuildType))
      (.string o)).Gives m
        (((CollectionField.buildTypes.collection a).getByName o m).map .object) m := by
  have hcollection : ∀ path, ((Frame.collection (typeRef BuildType)
      (CollectionField.buildTypes.slot a)).resolve host (.string o) (.object (typeRef BuildType))
        path).Gives m (((CollectionField.buildTypes.collection a).getByName o m).map .object) m :=
    fun path => bind_gives.2 ⟨_, m, rfl, rfl⟩
  change (resolveSymbol host (.string o) (.object (typeRef BuildType)) _
    [.object b.object buildTypeShape,
      .collection (typeRef BuildType) (CollectionField.buildTypes.slot a),
      .object a.object applicationShape]).Gives m _ m
  refine bind_gives.2 ⟨none, m, rfl, ?_⟩
  refine bind_gives.2 ⟨_, m, hcollection _, ?_⟩
  cases (CollectionField.buildTypes.collection a).getByName o m <;> rfl

/-- The key tries its only overload, with the build type that the name stands for. -/
theorem populate_initWith {x : Member Model} (hx : buildTypeShape.members? "initWith" = some [x])
    (hparams : x.params = [.object (typeRef BuildType)]) :
    populate host ((Place.element .buildTypes n).scope a options start) b.object
      [("initWith", .string o)] m =
        ((CollectionField.buildTypes.collection a).getByName o m).elim
          ((initWithScope a n b options start).unresolved "initWith")
          (fun r => discard (x.invoke b.object [.object r])) m := by
  have hshape : shape? b.object.type = some buildTypeShape := rfl
  have hput : ¬buildTypeShape.mapLike = true := Bool.false_ne_true
  have harity : x.arity = (none : Option Live).toList.length + 1 := congrArg List.length hparams
  have htrial : (resolveArgument host (initWithScope a n b options start)
      (x.params.getLastD .any) (.string o)).Gives m
        (((CollectionField.buildTypes.collection a).getByName o m).map .object) m := by
    rw [hparams]
    exact resolveArgument_initWith
  unfold populate
  rw [walkNext_object, host_shapeOf_some hshape, pure_bind, walkEntries_cons_walkKey,
    walkEntries_nil, bind_pure_unit, walkKey_member rfl,
    memberStep_of_no_put fun h => absurd h hput, hx]
  change invokeFirst host (initWithScope a n b options start) b.object "initWith" (.string o) none
    none [x] m = _
  rw [invokeFirst, if_pos harity, (attempt_gives.2 htrial).bind_eq]
  cases (CollectionField.buildTypes.collection a).getByName o m <;> rfl

end Key

/-! ## Later documents -/

/-- Documents were applied to objects of the model, one after the other and with any outcome. -/
inductive Follows (m : Model) : Model → Prop where
  | refl : Follows m m
  | replay {m'} (options : Options) (start : String) (t : Table) (r : ObjectRef) :
      Follows m m' → Follows m (BuildReplay.replay host options start t r m').2

section Follows

variable {a : Ref ApplicationExtension} {m m' : Model}

theorem Follows.sound (h : Follows m m') (hm : (a.get m).Sound m) : (a.get m').Sound m' := by
  induction h with
  | refl => exact hm
  | replay options start t r _ ih => exact replay_sound options start t r ih

theorem Follows.grows (h : Follows m m') : m.Grows m' := by
  induction h with
  | refl => exact .refl m
  | replay options start t r _ ih => exact ih.trans (replay_grows options start t r _)

/-- Where only the elements of another name have changed, the build type is as it was. -/
theorem get_of_sameBut {n o : String} {b : Ref BuildType} (hm : (a.get m).Sound m)
    (hm' : (a.get m').Sound m') (hgrows : m.Grows m') (hb : (n, b) ∈ (a.get m).buildTypes)
    (hne : n ≠ o) (h : CollectionField.buildTypes.SameBut [o] ((a.get m).contents m)
      ((a.get m').contents m')) : b.get m' = b.get m := by
  have hb' : (n, b) ∈ (a.get m').buildTypes := (hgrows.applications a.id).buildTypes.subset hb
  have hsame : ((a.get m').contents m').buildTypes n = ((a.get m).contents m).buildTypes n :=
    Contents.SameBut.get_eq (fun _ _ _ => rfl) h (by simpa using hne)
  have hold : ((a.get m).contents m).buildTypes n = some (b.get m) :=
    hm.buildTypes.element?_of_mem hb
  have hnew : ((a.get m').contents m').buildTypes n = some (b.get m') :=
    hm'.buildTypes.element?_of_mem hb'
  rw [hold, hnew] at hsame
  exact Option.some.inj hsame

/-- The table of another build type leaves a build type as it is. -/
theorem replay_other {n o : String} {b : Ref BuildType} (hm : (a.get m).Sound m)
    (hb : (n, b) ∈ (a.get m).buildTypes) (hne : n ≠ o) (options : Options) (start : String)
    (body : Table) :
    b.get (replay host options start ((Place.element .buildTypes o).table body) a.object m).2 =
      b.get m :=
  get_of_sameBut hm (replay_sound options start _ a.object hm)
    (replay_grows options start _ a.object m) hb hne
    (replay_element_sameBut .buildTypes o options start body hm rfl)

end Follows

/-! ## Outcomes -/

/-- Applies a table to a build type of an application. -/
def declareBuildType (a : Ref ApplicationExtension) (options : Options) (start n : String)
    (body : Table) : Act Model Unit :=
  replay host options start ((Place.element .buildTypes n).table body) a.object

section Outcomes

variable {a : Ref ApplicationExtension} {n : String} {b : Ref BuildType} {m : Model}
  (hm : (a.get m).Sound m) (hb : (n, b) ∈ (a.get m).buildTypes)
include hm hb

theorem getByName_of_mem :
    (CollectionField.buildTypes.collection a).getByName n m = some b.object :=
  congrArg (Option.map (CollectionField.buildTypes.collection a).handle)
    (find?_of_mem confines_buildTypes _ hm hb)

theorem declareBuildType_eq (options : Options) (start : String) (body : Table) :
    declareBuildType a options start n body m =
      populate host ((Place.element .buildTypes n).scope a options start) b.object body m := by
  have hreach : ((Place.element .buildTypes n).reach a).Gives m b.object m :=
    Place.reach_gives_of_object? (getByName_of_mem hm hb)
  rw [declareBuildType, Place.replay_table, hreach.bind_eq]

omit hm hb in
theorem getByName_eq_none (hnone : ∀ b, (n, b) ∉ (a.get m).buildTypes) :
    (CollectionField.buildTypes.collection a).getByName n m = none := by
  have hfind : (a.get m).buildTypes.find? (·.1 == n) = none := by
    refine List.find?_eq_none.2 fun e he heq => hnone e.2 ?_
    rwa [← show e.1 = n from by simpa using heq]
  exact congrArg (fun e => (e.map (·.2)).map (CollectionField.buildTypes.collection a).handle) hfind

/-- For the name of another build type, its settings are taken over, and nothing but the build type
has changed. From then on, whatever documents follow, a table for the other build type does not
change this one. A build type that is to take over its own settings is refused, and nothing has
changed. Where no build type has the name, the key is skipped, or refused in strict mode. -/
theorem initWith_takes_over (options : Options) (start o : String) :
    (∀ other, (o, other) ∈ (a.get m).buildTypes → o ≠ n → ∃ x,
      (b.get m).TakesOver (other.get m) x ∧
      (declareBuildType a options start n [("initWith", .string o)]).Gives m ()
        { m with buildTypes := m.buildTypes.put b.id x } ∧
      ∀ m₁, Follows { m with buildTypes := m.buildTypes.put b.id x } m₁ →
        ∀ options start body, b.get (declareBuildType a options start o body m₁).2 = b.get m₁) ∧
    (o = n → (declareBuildType a options start n [("initWith", .string o)]).Raises m
      (b.get m).selfError m) ∧
    ((∀ other, (o, other) ∉ (a.get m).buildTypes) →
      (options.strictness = .lenient →
        (declareBuildType a options start n [("initWith", .string o)]).Gives m () m) ∧
      (options.strictness = .strict →
        (declareBuildType a options start n [("initWith", .string o)]).Raises m
          (.unresolvedArgument (initWithScope a n b options start).keyPath "initWith") m)) := by
  obtain ⟨x, hx, hparams, hother, hself⟩ := exists_initWith
  have hrun := declareBuildType_eq hm hb options start [("initWith", .string o)]
  rw [populate_initWith hx hparams] at hrun
  refine ⟨fun other hmem hne => ?_, ?_, fun hnone => ?_⟩
  · -- two names do not share an object
    have hobject : other ≠ b := fun heq => hne <|
      congrArg Prod.fst (List.inj_on_of_nodup_map hm.buildTypes.objects hmem hb (heq ▸ rfl))
    have hgives : (declareBuildType a options start n [("initWith", .string o)]).Gives m ()
        (b.modify (·.initWith (other.get m)) m) := by
      rw [Gives, hrun, getByName_of_mem hm hmem]
      exact (hother b other m hobject).bind_eq _
    have hsound := replay_sound options start
      ((Place.element .buildTypes n).table [("initWith", .string o)]) a.object hm
    rw [show replay host options start _ a.object m = _ from hgives] at hsound
    refine ⟨_, BuildType.initWith_takesOver _ _, hgives, fun m₁ hfollows options start body => ?_⟩
    exact replay_other (hfollows.sound hsound)
      ((hfollows.grows.applications a.id).buildTypes.subset hb) (Ne.symm hne) options start body
  · rintro rfl
    rw [Raises, hrun, getByName_of_mem hm hb]
    exact (hself b m).bind _
  · rw [Gives, Raises, hrun, getByName_eq_none hnone]
    refine ⟨fun h => ?_, fun h => ?_⟩
    · have hlenient : ¬(initWithScope a n b options start).isStrict := by
        change ¬(options.strictness == .strict) = true
        simp [h]
      exact congrFun (if_neg hlenient) m
    · have hstrict : (initWithScope a n b options start).isStrict := by
        change (options.strictness == .strict) = true
        simp [h]
      exact congrFun (if_pos hstrict) m

end Outcomes

/-- The build type `release` of a new application takes over the settings of `debug`. -/
theorem initWith_takes_over_debug :
    let m := (ApplicationExtension.create ⟨"/"⟩ .empty).2
    ∃ x : BuildType, x.name = "release" ∧ x.debuggable = true ∧
      (declareBuildType ⟨0⟩ ⟨.strict, ⟨"/"⟩⟩ "android" "release"
        [("initWith", .string "debug")]).Gives m () { m with buildTypes := m.buildTypes.put 1 x } := by
  intro m
  have hrelease : ("release", ⟨1⟩) ∈
      ((⟨0⟩ : Ref ApplicationExtension).get m : ApplicationExtension).buildTypes :=
    .tail _ (.head _)
  obtain ⟨x, hx, hgives, -⟩ := (initWith_takes_over (create_sound ⟨"/"⟩ .empty) hrelease
    ⟨.strict, ⟨"/"⟩⟩ "android" "debug").1 ⟨0⟩ (.head _) (by decide)
  exact ⟨x, hx.name, hx.debuggable, hgives⟩

end BuildReplay.Android
