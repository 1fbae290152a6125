import BuildReplay.Proofs.Android.Course
import BuildReplay.Proofs.Android.Elements
import BuildReplay.Proofs.Android.InitWith
import BuildReplay.Proofs.Android.Refusal
import BuildReplay.Proofs.Attribute

/-! # Signing references in tables

Which configuration each build type is to be signed with, and what an accepted table makes of that.
Only two keys of a build type count for it, and they do so in the order of the table. -/

namespace BuildReplay.Android

open Act Law

/-! ## References -/

/-- The build types that there are, each with the configuration it is to be signed with, if any. -/
abbrev Signings := String → Option (Option String)

namespace Signings

/-- A key of a build type. The key `initWith` takes over from a build type that is there. -/
def key (n : String) (g : Signings) (e : String × Value) : Signings :=
  if e.1 = "signingConfig" then Function.update g n (some e.2.asString?)
  else if e.1 = "initWith" then Function.update g n ((e.2.asString?.bind g).or (g n))
  else g

/-- The table of a build type, which is made where it is missing. -/
def buildType (g : Signings) (e : String × Value) : Signings :=
  match e.2 with
  | .table body => body.foldl (key e.1) (Function.update g e.1 ((g e.1).or (some none)))
  | _ => g

/-- A key of an application. -/
def application (g : Signings) (e : String × Value) : Signings :=
  if e.1 = "buildTypes" then
    match e.2 with
    | .table types => types.foldl buildType g
    | _ => g
  else g

end Signings

/-- The build types of an application with their references. -/
def Contents.signings (c : Contents) : Signings :=
  fun n => (c.buildTypes n).map BuildType.signingConfig

/-- The references of an application in a model. -/
def signings (a : Ref ApplicationExtension) (m : Model) : Signings :=
  ((a.get m).contents m).signings

section References

variable {a : Ref ApplicationExtension} {n o : String} {b : Ref BuildType} {m m' : Model}

theorem signings_eq (a : Ref ApplicationExtension) (m : Model) (n : String) :
    signings a m n =
      ((a.get m).buildTypes.find? (·.1 == n)).map fun e => (e.2.get m).signingConfig :=
  Option.map_map _ _ _

theorem signings_of_mem (hm : (a.get m).Sound m) (hb : (n, b) ∈ (a.get m).buildTypes) :
    signings a m n = some (b.get m).signingConfig := by
  rw [signings_eq, hm.buildTypes.find?_eq hb, Option.map_some]

/-- The references are determined by the build types that there are and what they hold. -/
theorem signings_congr (hheap : m'.buildTypes = m.buildTypes)
    (hentries : (a.get m').buildTypes = (a.get m).buildTypes) : signings a m' = signings a m := by
  funext n
  have hget : ∀ b : Ref BuildType, (b.get m' : BuildType) = b.get m := fun b =>
    congrArg (fun h : Heap BuildType => h.cell b.id) hheap
  simp only [signings_eq, hentries, hget]

/-- Where only elements of one name have changed, so have the references. -/
theorem signings_of_sameBut (h : CollectionField.buildTypes.SameBut [n] ((a.get m).contents m)
    ((a.get m').contents m')) : signings a m' = Function.update (signings a m) n (signings a m' n) := by
  funext o
  by_cases ho : o = n
  · rw [ho, Function.update_self]
  · have hsame : ((a.get m').contents m').buildTypes o = ((a.get m).contents m).buildTypes o :=
      Contents.SameBut.get_eq (fun _ _ _ => rfl) h (by simpa using ho)
    rw [Function.update_of_ne ho]
    exact congrArg (Option.map BuildType.signingConfig) hsame

end References

/-! ## Keys of a build type -/

/-- What a declaration can do to an object obeys a law, other than to write its reference, and other
than in calls with an object. -/
def Declaration.Spares (L : Law Model) (r : ObjectRef) : Declaration Model → Prop
  | .settable f => L.Obeys (f.get r) ∧ (∀ m live, f.read r m = .ok live → host.Fills L live) ∧
    ∃ write, f.write? = some write ∧ (f.name ≠ "signingConfig" → ∀ v, L.Obeys (write r v))
  | .readOnly f => L.Obeys (f.get r) ∧ ∀ m live, f.read r m = .ok live → host.Fills L live
  | .member x => x.name = "initWith" ∧ x.params = [.object (typeRef BuildType)] ∧
    ∀ args, (∀ r, .object r ∉ args) → L.Obeys (x.invoke r args)
  | .factory _ => False
  | .mapLike => False

section Keys

variable {a : Ref ApplicationExtension} {n o key : String} {v : Value} {b : Ref BuildType}
  {c : Option String} {m m' : Model}

/-- The law of acts that leave the reference of a build type alone. -/
abbrev sparing (b : Ref BuildType) (c : Option String) : Law Model :=
  keeps (fun m => (b.get m).signingConfig = c) fun _ => True

theorem modify_spares {f : BuildType → BuildType} (h : ∀ x, (f x).signingConfig = x.signingConfig)
    (hm : (b.get m).signingConfig = c) : (b.get (b.modify f m)).signingConfig = c := by
  rw [Ref.get_modify, h, hm]

theorem stored_spares {β : Type} [ToLive β] [Plain β] [OfLive β] [Refusing β] {name : String}
    {type : ValueType} {get : BuildType → β} {set : β → BuildType → BuildType}
    (h : ∀ v x, (set v x).signingConfig = x.signingConfig) :
    Declaration.Spares (sparing b c) b.object (.stored name type get set) := by
  obtain ⟨hget, hfill, hwrite⟩ : (Declaration.stored name type get set).ObeysAt (sparing b c) host
      b.object := Declaration.stored_obeysAt (fun _ => trivial) fun v _ => modify_spares (h v)
  exact ⟨hget, hfill, _, rfl, fun _ => hwrite _ rfl⟩

theorem BuildType.declarations_spare (b : Ref BuildType) (c : Option String) :
    ∀ d ∈ BuildType.declarations, Declaration.Spares (sparing b c) b.object d := by
  simp only [BuildType.declarations, List.forall_mem_cons]
  refine ⟨Declaration.viewed_obeysAt _ _ _, stored_spares fun _ _ => rfl,
    stored_spares fun _ _ => rfl, stored_spares fun _ _ => rfl, stored_spares fun _ _ => rfl,
    stored_spares fun _ _ => rfl, ?_, ?_, ?_, ?_, ?_, fun d hd => absurd hd List.not_mem_nil⟩
  · -- the reference is read like a field that cannot be written
    have hread : (Declaration.viewed "signingConfig" .string BuildType.signingConfig).ObeysAt
        (sparing b c) host b.object := Declaration.viewed_obeysAt _ _ _
    exact ⟨hread.1, hread.2, _, rfl, fun hne => absurd rfl hne⟩
  · exact Declaration.list_obeysAt rfl fun item => Ref.append_keeps (fun _ => trivial)
      fun _ _ => modify_spares fun _ => rfl
  · exact Declaration.list_obeysAt rfl fun item => Ref.append_keeps (fun _ => trivial)
      fun _ _ => modify_spares fun _ => rfl
  · exact Declaration.map_obeysAt rfl fun key item => Ref.insert_keeps (fun _ => trivial)
      fun _ _ => modify_spares fun _ => rfl
  · refine ⟨rfl, rfl, fun args hargs => ?_⟩
    change (sparing b c).Obeys (b.object.lend .exclusive fun b : Ref BuildType => do
      BuildType.takeOver b (← argument args 0)).act
    rw [ObjectRef.act_lend_object, Access.during_bind]
    refine Law.bind _ (Declaration.ofLive_keeps (fun _ => trivial) _) ?_
    intro m other m' _ hother
    have hlive := eq_object_of_ofLive (ofExcept_gives.1 hother).1
    cases args with
    | nil => cases hlive
    | cons v rest => exact absurd List.mem_cons_self (hlive ▸ hargs other.object)

theorem ne_setterName (key : String) : "initWith" ≠ setterName key := by
  intro h
  have hlist := congrArg String.toList h
  rw [setterName, String.toList_append] at hlist
  cases hlist

theorem ne_isName (key : String) : "signingConfig" ≠ isName key := by
  intro h
  have hlist := congrArg String.toList h
  rw [isName, String.toList_append] at hlist
  cases hlist

/-- A key other than the two that count leaves the reference alone. -/
theorem effects_spare (hkey : key ≠ "signingConfig")
    (hinit : ∀ o, (key, v) ≠ ("initWith", .string o)) (n : String) (options : Options)
    (start : String) :
    Effects (sparing b c) host
      ((((Place.element .buildTypes n).scope a options start).enter
        (.object b.object buildTypeShape)).key key) buildTypeShape b.object key v := by
  have hds := Shape.ofDeclarations_describedBy (typeRef BuildType) BuildType.declarations
  have hspares := BuildType.declarations_spare b c
  have hlookups := lookups_keep (fun m => (b.get m).signingConfig = c)
    ((((Place.element .buildTypes n).scope a options start).enter
      (.object b.object buildTypeShape)).key key)
  have hget : ∀ {f}, buildTypeShape.HasField f → (sparing b c).Obeys (f.get b.object) ∧
      ∀ m live, f.read b.object m = .ok live → host.Fills (sparing b c) live := by
    rintro f ⟨name, hf | hf⟩
    · obtain ⟨hget, hfill, -⟩ := hspares _ (hds.settable hf).1
      exact ⟨hget, hfill⟩
    · exact hspares _ (hds.readOnly hf).1
  have hmember : ∀ {name ms x}, buildTypeShape.members? name = some ms → x ∈ ms →
      "initWith" = name ∧ x.params = [.object (typeRef BuildType)] := by
    intro name ms x hms hx
    obtain ⟨hmem, hname⟩ := hds.members hms x hx
    obtain ⟨hinit, hparams, -⟩ := hspares _ hmem
    exact ⟨hinit ▸ hname, hparams⟩
  exact {
    shapeOf := fun _ => hlookups.shapeOf trivial
    build := hlookups.build
    getByName := hlookups.getByName
    own := fun _ => trivial
    get := fun hf => (hget hf).1
    write := by
      intro f write m live m' hroute hwrite _ _
      obtain ⟨name, hname, hf⟩ := settable?_of_route hroute
      obtain ⟨hmem, hf⟩ := hds.settable hf
      obtain ⟨-, -, write', hwrite', hobeys⟩ := hspares _ hmem
      obtain rfl := Option.some.inj (hwrite.symm.trans hwrite')
      refine hobeys (fun heq => ?_) live
      rcases hname with rfl | rfl
      · exact hkey (hf.symm.trans heq)
      · exact ne_isName key (heq.symm.trans hf)
    setter := by
      intro f x m live m' _ _ hx _ _
      obtain ⟨hmem, hname, -⟩ := hds.overloads hx
      exact absurd ((hspares _ hmem).1.symm.trans hname) (ne_setterName key)
    append := fun hf _ hread _ _ => (hget hf).2 _ _ (readExcept_gives.1 hread).1 _
    insert := fun hf _ _ _ _ hread _ _ => (hget hf).2 _ _ (readExcept_gives.1 hread).1 _ _
    setProperty := fun hf _ hread _ _ _ => (hget hf).2 _ _ (readExcept_gives.1 hread).1 _
    call := by
      intro first ms x m argument m' _ hcalls hx _ _ hargument
      cases hcalls with
      | put hput _ => exact absurd hput Bool.false_ne_true
      | named hms =>
          obtain ⟨rfl, hparams⟩ := hmember hms hx
          rw [hparams] at hargument
          obtain ⟨o, -, -, rfl, -⟩ := resolveArgument_object factory?_eq_none hargument
          exact absurd rfl (hinit o)
      | setter hms => exact absurd (hmember hms hx).1 (ne_setterName key)
    dispatch := by
      intro request r shape x args _ _ hframe hx hargs
      have hobjects := (coerceParams_hasType hargs).2
      simp only [Scope.key, Scope.enter, Place.scope, Scope.top, List.mem_cons, List.not_mem_nil,
        or_false, reduceCtorEq, false_or, Frame.object.injEq] at hframe
      rcases hframe with ⟨rfl, rfl⟩ | ⟨rfl, rfl⟩
      · obtain ⟨-, -, hinvoke⟩ := hspares _ (hds.overloads hx).1
        exact hinvoke args hobjects
      · exact application_keeps (fun p m hm => hm) hx args
    keep := fun _ _ hf _ hread _ _ _ _ _ =>
      (hget (Shape.hasField_of_field? hf)).2 _ _ (readExcept_gives.1 hread).1 _ }

variable {options : Options} {start : String}

theorem populate_spares (hkey : key ≠ "signingConfig")
    (hinit : ∀ o, (key, v) ≠ ("initWith", .string o))
    (h : (populate host ((Place.element .buildTypes n).scope a options start) b.object
      [(key, v)]).Gives m () m') : (b.get m').signingConfig = (b.get m).signingConfig := by
  have hshape : shape? b.object.type = some buildTypeShape := rfl
  have hleaf : Shape.Leaf _ := shape?_leaf (of_decide_eq_false rfl) hshape
  rw [populate, walkNext_object, host_shapeOf_some hshape, pure_bind, walkEntries_cons] at h
  obtain ⟨next, m₁, hstep, h⟩ := bind_gives.1 h
  rw [hleaf.done hstep, walkNext_done, pure_bind, walkEntries_nil] at h
  obtain ⟨-, rfl⟩ := pure_gives.1 h
  exact keeps_gives (effects_spare hkey hinit n options start).keyStep_obeys rfl hstep

/-- The key `signingConfig` holds a text, which is the reference from then on. -/
theorem populate_signingConfig
    (h : (populate host ((Place.element .buildTypes n).scope a options start) b.object
      [("signingConfig", v)]).Gives m () m') : (b.get m').signingConfig = v.asString? := by
  have hshape : host.shapeOf (typeRef BuildType) = pure buildTypeShape := rfl
  rw [populate_singleton hshape, keyOf_settable _ rfl rfl
    (fun _ _ => ⟨_, rfl, Plain.isHandle_toLive _⟩) rfl] at h
  simp only [act_convert_object] at h
  obtain ⟨live, m₁, hrequired, hwrite⟩ := bind_gives.1 h
  obtain ⟨hlive, rfl⟩ := ofExcept_gives.1 hrequired
  obtain ⟨s, rfl, rfl⟩ := Scope.eq_of_required_string hlive
  obtain ⟨signing, m₂, hofLive, hmodify⟩ := bind_gives.1 hwrite
  obtain ⟨hsigning, rfl⟩ := ofExcept_gives.1 hofLive
  cases hsigning
  rw [← modify_gives.1 hmodify, Ref.get_modify]
  rfl

/-- The key `initWith` takes the reference of the build type that it names, if there is one. -/
theorem populate_initWith_signing
    (h : (populate host ((Place.element .buildTypes n).scope a options start) b.object
      [("initWith", .string o)]).Gives m () m') :
    some (b.get m').signingConfig = (signings a m o).or (some (b.get m).signingConfig) := by
  obtain ⟨x, hx, hparams, hother, hself⟩ := exists_initWith
  have hname : (CollectionField.buildTypes.collection a).getByName o m =
      ((a.get m).buildTypes.find? (·.1 == o)).map fun e => e.2.object :=
    Option.map_map _ _ _
  rw [Gives, populate_initWith hx hparams, hname] at h
  rw [signings_eq]
  cases hfind : (a.get m).buildTypes.find? (·.1 == o) with
  | none =>
      rw [hfind] at h
      change (initWithScope a n b options start).unresolved "initWith" m = _ at h
      unfold Scope.unresolved at h
      split at h
      · cases h
      · cases h
        rfl
  | some e =>
      rw [hfind] at h
      change (discard (x.invoke b.object [.object e.2.object])).Gives m () m' at h
      by_cases hb : e.2 = b
      · rw [hb] at h
        obtain ⟨_, hgives, -⟩ := map_gives.1 h
        exact absurd (hself b m) hgives.not_raises
      · obtain ⟨_, hgives, -⟩ := map_gives.1 h
        obtain ⟨-, rfl⟩ := hgives.unique (hother b e.2 m hb)
        rw [Ref.get_modify]
        rfl

/-- An accepted key of a build type that is there. -/
theorem signings_key (hm : (a.get m).Sound m) (hb : (n, b) ∈ (a.get m).buildTypes)
    (h : (declareBuildType a options start n [(key, v)]).Gives m () m') :
    signings a m' = (signings a m).key n (key, v) := by
  have hm' : (a.get m').Sound m' := sound_of_replay hm h
  have hb' : (n, b) ∈ (a.get m').buildTypes :=
    ((grows_of_replay h).applications a.id).buildTypes.subset hb
  have hsame := replay_element_sameBut .buildTypes n options start [(key, v)] hm
    (congrArg Prod.snd h)
  rw [signings_of_sameBut hsame, signings_of_mem hm' hb']
  have hold := signings_of_mem hm hb
  rw [Gives, declareBuildType_eq hm hb] at h
  by_cases hkey : key = "signingConfig"
  · subst hkey
    rw [populate_signingConfig h]
    rfl
  by_cases hinit : ∃ o, (key, v) = ("initWith", .string o)
  · obtain ⟨o, heq⟩ := hinit
    cases heq
    rw [populate_initWith_signing h, ← hold]
    rfl
  · rw [not_exists] at hinit
    rw [populate_spares hkey hinit h, ← hold, Function.update_eq_self, Signings.key, if_neg hkey]
    split
    · rename_i hkey
      obtain rfl : key = "initWith" := hkey
      cases v with
      | string o => exact absurd rfl (hinit o)
      | _ => exact (Function.update_eq_self n _).symm
    · rfl

end Keys

/-! ## Tables of build types -/

section Tables

variable {a : Ref ApplicationExtension} {n : String} {options : Options} {start : String}
  {body t : Table} {m m' : Model}

theorem replay_nil (a : Ref ApplicationExtension) (options : Options) (start : String) :
    replay host options start [] a.object = pure () := by
  rw [replay, populate, walkNext_object, show a.object.type = typeRef ApplicationExtension from rfl,
    host_shapeOf_application, pure_bind, walkEntries_nil]

/-- The keys of an application are applied one after the other. -/
theorem replay_eq_inOrder (a : Ref ApplicationExtension) (options : Options) (start : String)
    (t : Table) : replay host options start t a.object =
      inOrder (fun e => replay host options start [e] a.object) t := by
  induction t with
  | nil => exact replay_nil a options start
  | cons e t ih =>
      rw [inOrder, ← ih]
      exact populate_append _ _ [e] t

/-- A place is reached first, and then its keys are applied one after the other. -/
theorem Place.replay_eq_inOrder (p : Place) (a : Ref ApplicationExtension) (options : Options)
    (start : String) (t : Table) : replay host options start (p.table t) a.object = (do
      replay host options start (p.table []) a.object
      inOrder (fun e => replay host options start (p.table [e]) a.object) t) := by
  induction t with
  | nil => exact (bind_pure_unit).symm
  | cons e t ih =>
      have hreached : (do
          replay host options start (p.table [e]) a.object
          replay host options start (p.table []) a.object) = (do
          replay host options start (p.table []) a.object
          replay host options start (p.table [e]) a.object) := by
        rw [← p.replay_append, ← p.replay_append]
        rfl
      rw [show e :: t = [e] ++ t from rfl, p.replay_append, ih, ← bind_assoc, hreached, bind_assoc]
      rfl

/-- A build type that is made is signed with nothing. -/
theorem signings_upsert (c : Contents) (n : String) :
    ((Contents.buildTypesLens.comp (Lens.point n)).upsert (BuildType.new n) (fun b => b) c).signings =
      Function.update c.signings n ((c.signings n).or (some none)) := by
  change Option.map BuildType.signingConfig ∘
    Function.update c.buildTypes n (some ((c.buildTypes n).getD (BuildType.new n))) = _
  rw [Function.comp_update]
  congr 1
  rw [Contents.signings]
  cases c.buildTypes n <;> rfl

/-- A build type is there once it is reached, and signed with nothing if it is new. -/
theorem signings_reached (hm : (a.get m).Sound m)
    (h : (declareBuildType a options start n []).Gives m () m') :
    (∃ b, (n, b) ∈ (a.get m').buildTypes) ∧
      signings a m' = Function.update (signings a m) n ((signings a m n).or (some none)) := by
  obtain ⟨r, m₁, hobtain, hsound, hmem, -⟩ := obtain_sameBut confines_buildTypes BuildType.new n hm
  obtain ⟨r', m₂, hobtain', hmoves⟩ :=
    collects_buildTypes.obtain_moves (i := (a, [])) BuildType.new n hm
  cases hobtain.symm.trans hobtain'
  have hreach : ((Place.element .buildTypes n).reach a).Gives m r.object m₁ := by
    rw [Gives, Place.reach, NamedCollection.maybeCreate]
    exact congrArg (fun p : Ref BuildType × Model => (Except.ok p.1.object, p.2)) hobtain
  rw [Gives, declareBuildType, Place.replay_table, hreach.bind_eq] at h
  have hnil : populate host ((Place.element .buildTypes n).scope a options start) r.object [] =
      pure () := by
    rw [populate, walkNext_object, host_shapeOf_some (show shape? r.object.type = some _ from rfl),
      pure_bind, walkEntries_nil]
  rw [hnil] at h
  cases h
  refine ⟨⟨r, hmem⟩, ?_⟩
  obtain ⟨-, hcontents⟩ := hmoves fun b => b
  rw [Ref.modify, Lens.modify_id] at hcontents
  rw [signings, hcontents]
  exact signings_upsert ((a.get m).contents m) n

/-- An accepted table of a build type. -/
theorem signings_buildType (hm : (a.get m).Sound m)
    (h : (declareBuildType a options start n body).Gives m () m') :
    signings a m' = (signings a m).buildType (n, .table body) := by
  rw [declareBuildType, Place.replay_eq_inOrder] at h
  obtain ⟨_, m₁, hreach, hkeys⟩ := bind_gives.1 h
  obtain ⟨⟨b, hb⟩, hreached⟩ := signings_reached hm hreach
  have hkey : ∀ {e : String × Value} {s s' : Model},
      (a.get s).Sound s ∧ (n, b) ∈ (a.get s).buildTypes →
      (declareBuildType a options start n [e]).Gives s () s' →
      ((a.get s').Sound s' ∧ (n, b) ∈ (a.get s').buildTypes) ∧
        signings a s' = (signings a s).key n e := by
    intro e s s' hs he
    exact ⟨⟨sound_of_replay hs.1 he, ((grows_of_replay he).applications a.id).buildTypes.subset hs.2⟩,
      signings_key hs.1 hs.2 he⟩
  rw [Signings.buildType, ← hreached]
  exact (inOrder_foldl hkey ⟨sound_of_replay hm hreach, hb⟩ hkeys).2

/-- Accepted tables of build types. -/
theorem signings_populates {types : Table}
    (h : Populates a .buildTypes options start types m m') (hm : (a.get m).Sound m) :
    signings a m' = types.foldl Signings.buildType (signings a m) := by
  induction h with
  | nil => rfl
  | cons hone _ ih => rw [List.foldl_cons, ← signings_buildType hm hone, ih (sound_of_replay hm hone)]

end Tables

/-! ## Keys of an application -/

/-- The build types of an application are the same in two models, and hold the same. -/
def SameBuildTypes (a : Ref ApplicationExtension) (m m' : Model) : Prop :=
  m'.buildTypes = m.buildTypes ∧ (a.get m').buildTypes = (a.get m).buildTypes

section Beside

variable {a : Ref ApplicationExtension} {m : Model}

/-- The law of acts that change no build type and make none. -/
abbrev beside (a : Ref ApplicationExtension) (m : Model) : Law Model :=
  keeps (SameBuildTypes a m) fun _ => True

theorem SameBuildTypes.modify {f : ApplicationExtension → ApplicationExtension}
    (hf : ∀ x, (f x).buildTypes = x.buildTypes) {m' : Model} (h : SameBuildTypes a m m') :
    SameBuildTypes a m (a.modify f m') :=
  ⟨h.1, by rw [Ref.get_modify, hf, h.2]⟩

theorem ApplicationExtension.declarations_beside (a : Ref ApplicationExtension) (m : Model) :
    ∀ d ∈ ApplicationExtension.declarations, d.ObeysAt (beside a m) host a.object := by
  have hobject : ∀ {β : Type} [Described β] (name : String) (ref : ApplicationExtension → Ref β),
      (Declaration.viewed name (.object (typeRef β)) ref : Declaration Model).ObeysAt (beside a m) host
        a.object := by
    intro β _ name ref
    refine ⟨keeps_read _, fun m live hread => ?_⟩
    cases hread
    trivial
  have hmember := ApplicationExtension.member_keeps (I := SameBuildTypes a m) (a := a)
    fun p _ h => h.modify fun _ => by rfl
  intro d hd
  have hcases := hd
  simp only [ApplicationExtension.declarations, List.mem_cons, List.not_mem_nil, or_false] at hcases
  rcases hcases with rfl | rfl | rfl | rfl | rfl | rfl | rfl | rfl | rfl | rfl
  · exact Declaration.stored_obeysAt (fun _ => trivial) fun _ _ h => h.modify fun _ => by rfl
  · exact Declaration.stored_obeysAt (fun _ => trivial) fun _ _ h => h.modify fun _ => by rfl
  · exact hobject _ _
  · exact Declaration.collection_obeysAt _ _
  · exact Declaration.collection_obeysAt _ _
  · exact Declaration.collection_obeysAt _ _
  · exact hobject _ _
  · exact Declaration.list_obeysAt rfl fun item => Ref.append_keeps (fun _ => trivial)
      fun _ _ h => h.modify fun _ => by rfl
  · exact hmember _ hd
  · exact hmember _ hd

theorem stored_beside {α β : Type} [Stored Model α] [ToLive β] [Plain β] [OfLive β] [Refusing β]
    {c : Ref α} (hc : ∀ f m', SameBuildTypes a m m' → SameBuildTypes a m (c.modify f m'))
    (name : String) (type : ValueType) (get : α → β) (set : β → α → α) :
    (Declaration.stored name type get set : Declaration Model).ObeysAt (beside a m) host c.object :=
  Declaration.stored_obeysAt (fun _ => trivial) fun b => hc (set b)

theorem DefaultConfig.declarations_beside (c : Ref DefaultConfig) :
    ∀ d ∈ DefaultConfig.declarations, d.ObeysAt (beside a m) host c.object := by
  have hc : ∀ f m', SameBuildTypes a m m' → SameBuildTypes a m (c.modify f m') := fun _ _ h => h
  simp only [DefaultConfig.declarations, List.forall_mem_cons, stored_beside hc, true_and]
  exact ⟨Declaration.map_obeysAt rfl fun key item => Ref.insert_keeps (fun _ => trivial) fun _ => hc _,
    fun d hd => absurd hd List.not_mem_nil⟩

theorem CompileOptions.declarations_beside (c : Ref CompileOptions) :
    ∀ d ∈ CompileOptions.declarations, d.ObeysAt (beside a m) host c.object := by
  have hc : ∀ f m', SameBuildTypes a m m' → SameBuildTypes a m (c.modify f m') := fun _ _ h => h
  simp only [CompileOptions.declarations, List.forall_mem_cons, stored_beside hc, true_and]
  exact ⟨Declaration.setter_obeysAt (fun _ => trivial) fun _ => hc _,
    Declaration.setter_obeysAt (fun _ => trivial) fun _ => hc _,
    fun d hd => absurd hd List.not_mem_nil⟩

variable {options : Options} {start key : String} {v : Value} {m' : Model}

theorem application_effects_beside (a : Ref ApplicationExtension) (m : Model) (options : Options)
    (start key : String) (v : Value) :
    let sc := ((Scope.top options start).enter (.object a.object applicationShape)).key key
    sc.CallsObey (beside a m) ∧ Effects (beside a m) host sc applicationShape a.object key v := by
  intro sc
  have hcalls : sc.CallsObey (beside a m) := by
    intro self shape name arity x hframe hx args
    simp only [sc, Scope.key, Scope.enter, Scope.top, List.mem_singleton, Frame.object.injEq] at hframe
    obtain ⟨rfl, rfl⟩ := hframe
    exact application_keeps (fun p _ h => h.modify fun _ => by rfl) hx args
  have hobeys := (Shape.ofDeclarations_describedBy (typeRef ApplicationExtension)
    ApplicationExtension.declarations).obeysAt (ApplicationExtension.declarations_beside a m)
  exact ⟨hcalls, hobeys.effects (lookups_keep _ _) hcalls fun _ => trivial⟩

/-- A key that is none of a collection leaves the build types alone. -/
theorem replay_beside (hkey : ∀ f : CollectionField, key ≠ f.key)
    (h : (replay host options start [(key, v)] a.object).Gives m () m') : SameBuildTypes a m m' := by
  obtain ⟨hcalls, heffects⟩ := application_effects_beside a m options start key v
  rw [replay, populate, walkNext_object, show a.object.type = typeRef ApplicationExtension from rfl,
    host_shapeOf_application, pure_bind, walkEntries_cons] at h
  obtain ⟨next, m₁, hstep, h⟩ := bind_gives.1 h
  have hm₁ : SameBuildTypes a m m₁ := keeps_gives heffects.keyStep_obeys ⟨rfl, rfl⟩ hstep
  simp only [walkEntries_nil, bind_pure_unit] at h
  by_cases hn : next = .done
  · rw [hn, walkNext_done] at h
    obtain ⟨-, rfl⟩ := pure_gives.1 h
    exact hm₁
  · obtain ⟨hv, rfl, hon⟩ := (keyStep_goesOn hn).1 hstep
    obtain ⟨t, rfl⟩ := Value.exists_of_isTable hv
    rcases application_handsOn hn hon with ⟨⟨type, id⟩, rfl, rfl | rfl⟩ | ⟨c, hc, -⟩
    · exact keeps_gives (populate_keeps rfl (of_decide_eq_false rfl)
        (DefaultConfig.declarations_beside ⟨id⟩) hcalls t) ⟨rfl, rfl⟩ h
    · exact keeps_gives (populate_keeps rfl (of_decide_eq_false rfl)
        (CompileOptions.declarations_beside ⟨id⟩) hcalls t) ⟨rfl, rfl⟩ h
    · exact absurd hc (hkey c)

end Beside

section Application

variable {a : Ref ApplicationExtension} {options : Options} {start key : String} {v : Value}
  {t : Table} {m m' : Model}

/-- An accepted key of an application. -/
theorem signings_application (hm : (a.get m).Sound m)
    (h : (replay host options start [(key, v)] a.object).Gives m () m') :
    signings a m' = (signings a m).application (key, v) := by
  by_cases hkey : ∃ f : CollectionField, key = f.key
  · obtain ⟨f, rfl⟩ := hkey
    obtain ⟨types, rfl, htypes⟩ := exists_populates_of_gives hm h
    cases f with
    | buildTypes => exact signings_populates htypes hm
    | productFlavors | signingConfigs =>
        have hsame := (htypes.sameBut hm).others.1 nofun
        exact congrArg (fun b n => Option.map BuildType.signingConfig (b n)) hsame
  · rw [not_exists] at hkey
    obtain ⟨hheap, hentries⟩ := replay_beside hkey h
    have hne : (key, v).1 ≠ "buildTypes" := hkey .buildTypes
    rw [Signings.application, if_neg hne, signings_congr hheap hentries]

/-- An accepted table of an application makes of the references what its tables of build types do, in
their order. -/
theorem signings_replay (hm : (a.get m).Sound m)
    (h : (replay host options start t a.object).Gives m () m') :
    signings a m' = t.foldl Signings.application (signings a m) := by
  rw [replay_eq_inOrder] at h
  exact (inOrder_foldl (I := fun m => (a.get m).Sound m)
    (fun hs he => ⟨sound_of_replay hs he, signings_application hs he⟩) hm h).2

end Application

end BuildReplay.Android
