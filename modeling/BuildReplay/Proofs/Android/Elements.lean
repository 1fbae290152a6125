import BuildReplay.Proofs.Android.History
import BuildReplay.Proofs.Android.Locality

/-! # Making the elements of a collection

A table for a named collection is a table of elements. They are made in the order of the table, each
where it is missing, and each is populated before the next one is looked at. Where one fails, those
in front of it are done, and behind it nothing has been done. -/

namespace BuildReplay.Android

open Act

/-! ## Names -/

/-- The names that a collection lacks, each of them once, in their order. -/
def missing (old names : List String) : List String :=
  (names.filter fun n => !old.contains n).eraseDups

@[simp] theorem missing_nil (old : List String) : missing old [] = [] := rfl

/-- A name that is added where it is missing is the first of those that were missing. -/
theorem append_missing_cons (old : List String) (n : String) (names : List String) :
    old ++ missing old (n :: names) =
      (if n ∈ old then old else old ++ [n]) ++
        missing (if n ∈ old then old else old ++ [n]) names := by
  by_cases hn : n ∈ old
  · rw [if_pos hn, missing, List.filter_cons_of_neg (by simpa using hn), missing]
  · have hfilter : (names.filter fun n => !old.contains n).filter (fun b => !b == n) =
        names.filter fun b => !(old ++ [n]).contains b := by
      rw [List.filter_filter]
      refine List.filter_congr fun b _ => ?_
      rw [Bool.eq_iff_iff]
      simp [and_comm]
    rw [if_neg hn, missing, List.filter_cons_of_pos (by simpa using hn), List.eraseDups_cons,
      hfilter, missing, List.append_assoc, List.singleton_append]

theorem append_missing_append (old names : List String) (name : String) :
    old ++ missing old (names ++ [name]) =
      if name ∈ old ++ missing old names then old ++ missing old names
        else old ++ missing old names ++ [name] := by
  induction names generalizing old with
  | nil =>
      rw [List.nil_append, append_missing_cons]
      simp
  | cons n names ih =>
      rw [List.cons_append, append_missing_cons, append_missing_cons old n names, ih]

section Collection

variable (a : Ref ApplicationExtension) (f : CollectionField) (options : Options) (start : String)

/-- Applies a value to a collection of an application. -/
def CollectionField.declare (v : Value) : Act Model Unit :=
  replay host options start [(f.key, v)] a.object

/-- The scope of the collection's key. -/
def CollectionField.scope : Scope Model :=
  ((Scope.top options start).enter (.object a.object applicationShape)).key f.key

/-- The tables of elements are applied one after the other, each of them to its end. -/
inductive Populates : Table → Model → Model → Prop where
  | nil {m} : Populates [] m m
  | cons {name body t m m₁ m'} :
      (f.declare a options start (.table [(name, .table body)])).Gives m () m₁ →
      Populates t m₁ m' → Populates ((name, .table body) :: t) m m'

/-- How a value for a collection comes out, and the names of the elements that were reached. -/
inductive Materializes (m : Model) : Value → List String → Except Error Unit × Model → Prop where
  /-- Only a table holds elements. -/
  | refused {v} : v.isTable = false →
      Materializes m v [] (.error (.invalidDeclaration (f.scope a options start).keyPath
        ("expected a table of named elements, found " ++ v.describe)), m)
  /-- All elements are populated. -/
  | done {t m'} : Populates a f options start t m m' →
      Materializes m (.table t) (t.map (·.1)) (.ok (), m')
  /-- Behind elements that are populated stands a value that is none. -/
  | noElement {before name v after m₁} : Populates a f options start before m m₁ →
      v.isTable = false → Materializes m (.table (before ++ (name, v) :: after)) (before.map (·.1))
        (.error (.invalidDeclaration ((f.scope a options start).key name).keyPath
          ("expected a table for element `" ++ name ++ "`, found " ++ v.describe)), m₁)
  /-- Behind elements that are populated one is made whose table fails. They stay as they are. -/
  | failed {before name body after m₁ e m'} : Populates a f options start before m m₁ →
      (f.declare a options start (.table [(name, .table body)])).Raises m₁ e m' →
      f.SameBut [name] ((a.get m₁).contents m₁) ((a.get m').contents m') →
      Materializes m (.table (before ++ (name, .table body) :: after)) (before.map (·.1) ++ [name])
        (.error e, m')

variable {a f options start}

theorem keyStep_collection (sc : Scope Model) (v : Value) :
    keyStep host sc applicationShape a.object f.key v =
      .ofExcept (if v.isTable then .ok (.elements f.element (f.slot a))
        else .error (.invalidDeclaration sc.keyPath
          ("expected a table of named elements, found " ++ v.describe))) := by
  cases f <;> rfl

theorem declare_eq (v : Value) :
    f.declare a options start v = (do
      let next ← keyStep host (f.scope a options start) applicationShape a.object f.key v
      walkNext host (f.scope a options start) next v) := by
  unfold CollectionField.declare replay populate
  rw [walkNext_object, show a.object.type = typeRef ApplicationExtension from rfl,
    host_shapeOf_application, pure_bind, walkEntries_cons]
  simp only [walkEntries_nil, bind_pure_unit]
  rfl

theorem declare_table (t : Table) :
    f.declare a options start (.table t) =
      walkElements host (f.scope a options start) f.element (f.slot a) t := by
  rw [declare_eq, keyStep_collection]
  exact walkNext_elements host _ _ _ t

theorem declare_of_not_table {v : Value} (hv : v.isTable = false) :
    f.declare a options start v = throw (.invalidDeclaration (f.scope a options start).keyPath
        ("expected a table of named elements, found " ++ v.describe)) := by
  rw [declare_eq, keyStep_collection, hv]
  rfl

theorem declare_append (t u : Table) :
    f.declare a options start (.table (t ++ u)) = (do
      f.declare a options start (.table t)
      f.declare a options start (.table u)) := by
  simp only [declare_table, walkElements_append]

theorem declare_nil : f.declare a options start (.table []) = pure () := by
  rw [declare_table, walkElements_nil]

theorem declare_noElement (name : String) {v : Value} (hv : v.isTable = false) (t : Table) :
    f.declare a options start (.table ((name, v) :: t)) =
      throw (.invalidDeclaration ((f.scope a options start).key name).keyPath
        ("expected a table for element `" ++ name ++ "`, found " ++ v.describe)) := by
  rw [declare_table, walkElements_cons_of_not_table _ _ _ _ _ _ hv]

variable {m m₁ m' : Model}

theorem Populates.gives {t : Table} (h : Populates a f options start t m m') :
    (f.declare a options start (.table t)).Gives m () m' := by
  induction h with
  | nil =>
      rw [declare_nil]
      exact pure_gives.2 ⟨rfl, rfl⟩
  | @cons name body t m m₁ m' hone _ ih =>
      rw [show (name, Value.table body) :: t = [(name, .table body)] ++ t from rfl, declare_append]
      exact bind_gives.2 ⟨(), m₁, hone, ih⟩

variable (a f options start) in
/-- A name is added where it is missing, whether or not the element can be populated. -/
theorem names_element (name : String) (body : Table) (m : Model) :
    (f.collection a).names (f.declare a options start (.table [(name, .table body)]) m).2 =
      if name ∈ (f.collection a).names m then (f.collection a).names m
        else (f.collection a).names m ++ [name] := by
  obtain ⟨r, m₁, hreach, -, htype⟩ := (Place.element f name).exists_reach (a := a) m
  obtain ⟨-, hm₁⟩ := hreach.unique (NamedCollection.maybeCreate_gives (f.collection a) name m)
  have hrun : f.declare a options start (.table [(name, .table body)]) m =
      populate host ((Place.element f name).scope a options start) r body m₁ := by
    change replay host options start ((Place.element f name).table body) a.object m = _
    rw [Place.replay_table, hreach.bind_eq]
  have hsame := populate_outline ((Place.element f name).scope_obeys (a := a) options start) htype
    body m₁
  rw [hrun, f.names_congr a hsame, hm₁, NamedCollection.names_obtain (f.collection_detached a)]

theorem Populates.names {t : Table} (h : Populates a f options start t m m') :
    (f.collection a).names m' =
      (f.collection a).names m ++ missing ((f.collection a).names m) (t.map (·.1)) := by
  induction h with
  | nil => simp
  | @cons name body t m m₁ m' hone _ ih =>
      have hname := names_element a f options start name body m
      rw [hone] at hname
      rw [ih, List.map_cons, append_missing_cons, ← hname]

/-- A table of elements is populated to its end, or up to an element that fails. -/
theorem populates_or_fails (a : Ref ApplicationExtension) (f : CollectionField) (options : Options)
    (start : String) (t : Table) (m : Model) :
    (∃ m', Populates a f options start t m m') ∨
    ∃ before name v after m₁, t = before ++ (name, v) :: after ∧
      Populates a f options start before m m₁ ∧
      ∀ body, v = .table body →
        ∃ e m', (f.declare a options start (.table [(name, v)])).Raises m₁ e m' := by
  induction t generalizing m with
  | nil => exact .inl ⟨m, .nil⟩
  | cons entry t ih =>
      obtain ⟨name, v⟩ := entry
      by_cases hv : v.isTable
      · obtain ⟨body, rfl⟩ := Value.exists_of_isTable hv
        rcases gives_or_raises (f.declare a options start (.table [(name, .table body)])) m with
          ⟨⟨⟩, m₁, hone⟩ | ⟨e, m', hone⟩
        · rcases ih m₁ with ⟨m', ht⟩ | ⟨before, name', v, after, m₂, rfl, hbefore, hv⟩
          · exact .inl ⟨m', .cons hone ht⟩
          · exact .inr ⟨_ :: before, name', v, after, m₂, rfl, .cons hone hbefore, hv⟩
        · exact .inr ⟨[], name, _, t, m, rfl, .nil, fun _ _ => ⟨e, m', hone⟩⟩
      · exact .inr ⟨[], name, v, t, m, rfl, .nil, fun body hbody => absurd (hbody ▸ rfl) hv⟩

theorem Populates.sound {t : Table} (h : Populates a f options start t m m')
    (hm : (a.get m).Sound m) : (a.get m').Sound m' :=
  sound_of_replay hm h.gives

/-- The table of an element leaves the other elements alone. -/
theorem declare_sameBut {name : String} {body : Table} (hm : (a.get m).Sound m)
    (hm' : (f.declare a options start (.table [(name, .table body)]) m).2 = m') :
    f.SameBut [name] ((a.get m).contents m) ((a.get m').contents m') :=
  replay_element_sameBut f name options start body hm hm'

theorem Populates.sameBut {t : Table} (h : Populates a f options start t m m')
    (hm : (a.get m).Sound m) :
    f.SameBut (t.map (·.1)) ((a.get m).contents m) ((a.get m').contents m') := by
  induction h with
  | nil => exact .refl f _ _
  | @cons name body t m m₁ m' hone ht ih =>
      have hfirst : f.SameBut [name] ((a.get m).contents m) ((a.get m₁).contents m₁) :=
        declare_sameBut hm (congrArg Prod.snd hone)
      have hrest := ih ((Populates.cons hone .nil).sound hm)
      exact (hfirst.mono (by simp)).trans (hrest.mono (by simp))

/-- Every value for a collection comes out in one of the ways described. -/
theorem exists_materializes (hm : (a.get m).Sound m) (v : Value) :
    ∃ made outcome, Materializes a f options start m v made outcome := by
  by_cases hv : v.isTable
  · obtain ⟨t, rfl⟩ := Value.exists_of_isTable hv
    rcases populates_or_fails a f options start t m with
      ⟨m', ht⟩ | ⟨before, name, v, after, m₁, rfl, hbefore, hv⟩
    · exact ⟨_, _, .done ht⟩
    · by_cases htable : v.isTable
      · obtain ⟨body, rfl⟩ := Value.exists_of_isTable htable
        obtain ⟨e, m', he⟩ := hv body rfl
        exact ⟨_, _, .failed hbefore he
          (declare_sameBut (hbefore.sound hm) (congrArg Prod.snd he))⟩
      · exact ⟨_, _, .noElement hbefore (by simpa using htable)⟩
  · exact ⟨_, _, .refused (by simpa using hv)⟩

/-- A value for a collection comes out as described. -/
theorem Materializes.run {v : Value} {made : List String} {outcome : Except Error Unit × Model}
    (h : Materializes a f options start m v made outcome) :
    f.declare a options start v m = outcome := by
  cases h with
  | refused hv => rw [declare_of_not_table hv, throw_apply]
  | done ht => exact ht.gives
  | noElement hbefore hv =>
      rw [declare_append, hbefore.gives.bind_eq, declare_noElement _ hv, throw_apply]
  | @failed before name body after m₁ e m' hbefore he _ =>
      rw [declare_append, hbefore.gives.bind_eq,
        show (name, Value.table body) :: after = [(name, .table body)] ++ after from rfl,
        declare_append]
      exact he.bind _

/-- A value that is taken is a table, all of whose elements are populated. -/
theorem exists_populates_of_gives (hm : (a.get m).Sound m) {v : Value}
    (h : (f.declare a options start v).Gives m () m') :
    ∃ t, v = .table t ∧ Populates a f options start t m m' := by
  obtain ⟨made, outcome, hmade⟩ := exists_materializes hm v
  obtain rfl : outcome = (.ok (), m') := hmade.run.symm.trans h
  cases hmade with
  | done ht => exact ⟨_, rfl, ht⟩

theorem Materializes.names {v : Value} {made : List String} {outcome : Except Error Unit × Model}
    (h : Materializes a f options start m v made outcome) :
    (f.collection a).names outcome.2 =
      (f.collection a).names m ++ missing ((f.collection a).names m) made := by
  cases h with
  | refused _ => simp
  | done ht => exact ht.names
  | noElement hbefore _ => exact hbefore.names
  | @failed before name body after m₁ e m' hbefore he _ =>
      have hname := names_element a f options start name body m₁
      rw [he, hbefore.names] at hname
      rw [append_missing_append]
      exact hname

theorem Materializes.sameBut {v : Value} {made : List String} {outcome : Except Error Unit × Model}
    (h : Materializes a f options start m v made outcome) (hm : (a.get m).Sound m) :
    f.SameBut made ((a.get m).contents m) ((a.get outcome.2).contents outcome.2) := by
  cases h with
  | refused _ => exact .refl f _ _
  | done ht => exact ht.sameBut hm
  | noElement hbefore _ => exact hbefore.sameBut hm
  | failed hbefore _ hsame =>
      exact ((hbefore.sameBut hm).mono (by simp)).trans (hsame.mono (by simp))

/-- The other collections of the application hold the same entries. -/
theorem entries_of_sameBut {g : CollectionField} (hg : f ≠ g) (hm : (a.get m).Sound m)
    (hm' : (a.get m').Sound m') (hgrows : m.Grows m') {made : List String}
    (h : f.SameBut made ((a.get m).contents m) ((a.get m').contents m')) :
    (g.collection a).entries.get m' = (g.collection a).entries.get m := by
  have hprefix := entries_of_grows a g hgrows
  obtain ⟨hbuildTypes, hflavors, hsigning⟩ := h.others
  cases g with
  | buildTypes => exact hm.buildTypes.entries_eq hm'.buildTypes hprefix (hbuildTypes hg)
  | productFlavors => exact hm.productFlavors.entries_eq hm'.productFlavors hprefix (hflavors hg)
  | signingConfigs => exact hm.signingConfigs.entries_eq hm'.signingConfigs hprefix (hsigning hg)

/-- A value for a collection comes out in one of the ways described, and in that way only. The
collection has gained the names of the elements that were reached, as far as it lacked them, in the
order of the table. No other element has changed, and no other collection has gained any; beside the
elements that were reached the application holds what it held, but for a resource prefix that a
request may have set. -/
theorem collection_materializes (hm : (a.get m).Sound m) (v : Value) :
    (∃ made outcome, Materializes a f options start m v made outcome) ∧
    ∀ made e m', Materializes a f options start m v made (e, m') →
      f.declare a options start v m = (e, m') ∧
      (f.collection a).names m' =
        (f.collection a).names m ++ missing ((f.collection a).names m) made ∧
      f.SameBut made ((a.get m).contents m) ((a.get m').contents m') ∧
      ∀ g, f ≠ g → (g.collection a).entries.get m' = (g.collection a).entries.get m := by
  refine ⟨exists_materializes hm v, fun made e m' h => ?_⟩
  have hrun := h.run
  have hsame := h.sameBut hm
  have hsound := replay_sound options start [(f.key, v)] a.object hm
  have hgrows := replay_grows options start [(f.key, v)] a.object m
  rw [show replay host options start [(f.key, v)] a.object m = (e, m') from hrun] at hsound hgrows
  exact ⟨hrun, h.names, hsame, fun g hg => entries_of_sameBut hg hm hsound hgrows hsame⟩

end Collection

/-- The build type `staging` is made. The value behind it is no table, and no more is made. -/
theorem collection_materializes_staging :
    let m := (ApplicationExtension.create ⟨"/"⟩ .empty).2
    let v : Value := .table [("staging", .table []), ("release", .integer 1), ("beta", .table [])]
    ∃ path reason m',
      CollectionField.buildTypes.declare ⟨0⟩ ⟨.strict, ⟨"/"⟩⟩ "android" v m =
        (.error (.invalidDeclaration path reason), m') ∧
      (CollectionField.buildTypes.collection ⟨0⟩).names m' = ["debug", "release", "staging"] := by
  intro m v
  have hbefore : Populates ⟨0⟩ .buildTypes ⟨.strict, ⟨"/"⟩⟩ "android" [("staging", .table [])] m
      _ := .cons (gives_of_isOk rfl) .nil
  have hmakes : Materializes ⟨0⟩ .buildTypes ⟨.strict, ⟨"/"⟩⟩ "android" m v ["staging"] _ :=
    .noElement hbefore rfl
  obtain ⟨hrun, hnames, -⟩ := (collection_materializes (create_sound ⟨"/"⟩ .empty) v).2 _ _ _ hmakes
  exact ⟨_, _, _, hrun, hnames⟩

end BuildReplay.Android
