import BuildReplay.Android.Variants
import BuildReplay.Proofs.Android.Position
import BuildReplay.Proofs.Placement.Walk

/-! # Errors of fired callbacks

A callback keeps the place of its table as one dotted text, and takes it apart when it is fired. Its
errors stand at the same place below what is left of the text, as they would below the keys of the
table. -/

namespace BuildReplay

open Act Law

variable {σ : Type}

/-! ## Dotted texts -/

theorem dottedParts_append (s t : String) :
    dottedParts (s ++ "." ++ t) = dottedParts s ++ dottedParts t := by
  have hchars : (s ++ "." ++ t).toList = s.toList ++ '.' :: t.toList := by
    simp
  rw [dottedParts, hchars, List.splitOn_append_cons_self, List.map_append]
  rfl

theorem pathParts_append (s t : String) :
    Scope.pathParts (s ++ "." ++ t) = Scope.pathParts s ++ Scope.pathParts t := by
  rw [pathParts_eq_filter, dottedParts_append, List.filter_append]
  rfl

theorem not_mem_of_mem_splitOn {α : Type} [BEq α] [LawfulBEq α] {x : α} {xs l : List α}
    (h : l ∈ xs.splitOn x) : x ∉ l := by
  induction xs generalizing l with
  | nil =>
      rw [List.splitOn_nil, List.mem_singleton] at h
      subst h
      exact List.not_mem_nil
  | cons a xs ih =>
      rw [List.splitOn_cons_eq_if_modifyHead] at h
      split at h
      · rcases List.mem_cons.1 h with rfl | h
        · exact List.not_mem_nil
        · exact ih h
      · rename_i hne
        cases hsplit : xs.splitOn x with
        | nil => exact absurd hsplit (List.splitOn_ne_nil x xs)
        | cons first rest =>
            rw [hsplit, List.modifyHead_cons] at h
            rcases List.mem_cons.1 h with rfl | h
            · rw [List.mem_cons, not_or]
              exact ⟨fun heq => hne (by simp [heq]), ih (hsplit ▸ List.mem_cons_self)⟩
            · exact ih (hsplit ▸ List.mem_cons_of_mem _ h)

theorem intercalate_dottedParts (text : String) : ".".intercalate (dottedParts text) = text := by
  rw [← String.toList_inj, String.toList_intercalate, dottedParts, List.map_map]
  simp only [Function.comp_def, String.toList_ofList, List.map_id']
  exact List.intercalate_splitOn '.'

/-- A text is what its parts make of it, unless one of them is empty. -/
theorem intercalate_pathParts_eq_iff {text : String} (h : text ≠ "") :
    ".".intercalate (Scope.pathParts text) = text ↔ "" ∉ dottedParts text := by
  constructor
  · intro heq hempty
    have hne : Scope.pathParts text ≠ [] := by
      intro hnil
      rw [hnil] at heq
      exact h heq.symm
    have hparts : dottedParts text = Scope.pathParts text := by
      rw [← dottedParts_intercalate hne, heq]
      intro part hpart
      obtain ⟨l, hl, rfl⟩ := List.mem_map.1 (List.mem_filter.1 hpart).1
      rw [String.toList_ofList]
      exact not_mem_of_mem_splitOn hl
    rw [hparts, pathParts_eq_filter] at hempty
    simp at hempty
  · intro hfull
    have hparts : Scope.pathParts text = dottedParts text := by
      rw [pathParts_eq_filter, List.filter_eq_self]
      intro part hpart
      have hne : part ≠ "" := fun heq => hfull (heq ▸ hpart)
      simpa using hne
    rw [hparts, intercalate_dottedParts]

/-! ## Paths of errors -/

namespace Error

@[simp] theorem path?_withPath (e : Error) (path : String) :
    (e.withPath path).path? = e.path?.map fun _ => path := by
  cases e <;> rfl

@[simp] theorem withPath_withPath (e : Error) (path path' : String) :
    (e.withPath path).withPath path' = e.withPath path' := by
  cases e <;> rfl

theorem withPath_self {e : Error} {path : String} (h : e.path? = some path) :
    e.withPath path = e := by
  cases e <;> cases h <;> rfl

/-- Of two errors that differ in their paths at most, the second one is the first, or stands at the
same place below the second path. -/
theorem Moved.eq_or_place {p q : String} {e e' : Error} {path : String} (h : e.Moved p q e')
    (hpath : e.path? = some path) :
    e' = e ∨ ∃ place, path = p ++ place ∧ e' = e.withPath (q ++ place) := by
  cases h with
  | same => exact .inl rfl
  | moved e₀ hplace =>
      obtain ⟨place, rfl, rfl⟩ := hplace
      rw [path?_withPath, Option.map_eq_some_iff] at hpath
      obtain ⟨_, -, rfl⟩ := hpath
      exact .inr ⟨place, rfl, by rw [withPath_withPath]⟩

theorem path?_withPath_of_path? {e : Error} {path : String} (h : e.path? = some path)
    (path' : String) : (e.withPath path').path? = some path' := by
  rw [path?_withPath, h]
  rfl

/-- What an error points into is found at one place below the outer keys, whatever these are. -/
theorem PointsInto.exists_place {outer : List String} {d : Table} {e : Error}
    (h : e.PointsInto outer d) (hne : outer ≠ []) :
    ∃ place, e.path? = some (".".intercalate outer ++ place) ∧
      ∀ {outer' : List String} {e' : Error}, outer' ≠ [] →
        e'.path? = some (".".intercalate outer' ++ place) → e'.PointsInto outer' d := by
  have hsplit : ∀ {outer keys : List String}, outer ≠ [] → keys ≠ [] → ".".intercalate (outer ++ keys)
      = ".".intercalate outer ++ ("." ++ ".".intercalate keys) := fun houter hkeys => by
    rw [String.intercalate_append_of_ne_nil houter hkeys, String.append_assoc]
  have hitem : ∀ {outer keys : List String} (i : Nat), outer ≠ [] → keys ≠ [] →
      itemPath (".".intercalate (outer ++ keys)) i
        = ".".intercalate outer ++ itemPath ("." ++ ".".intercalate keys) i :=
    fun i houter hkeys => by
      simp only [itemPath, hsplit houter hkeys, String.append_assoc]
  cases h with
  | value hkeys hholds hpath =>
      refine ⟨_, (hsplit hne hkeys) ▸ hpath, fun houter hpath' => .value hkeys hholds ?_⟩
      rw [hsplit houter hkeys, hpath']
  | @item keys items i hkeys hholds hi hpath =>
      refine ⟨_, (hitem i hne hkeys) ▸ hpath, fun houter hpath' => .item hkeys hholds hi ?_⟩
      rw [hitem i houter hkeys, hpath']
  | @param keys request params i hlast hholds hparams hi hpath =>
      have hkeys : keys ≠ [] := by
        rintro rfl
        cases hlast
      refine ⟨_, (hitem i hne hkeys) ▸ hpath, fun houter hpath' =>
        .param hlast hholds hparams hi ?_⟩
      rw [hitem i houter hkeys, hpath']

end Error

/-! ## Walks at other paths -/

section Walks

variable {host : Host σ}
  (hhost : ∀ P : Error → Prop, (∀ message, P (.host message)) →
    host.Obeys (keeps (fun _ => True) P))
  (hcreate : ∀ {slot name s e s'}, (host.maybeCreate slot name).Raises s e s' →
    ∃ message, e = .host message)

theorem populate_parallel (host : Host σ) (options : Options) {keys keys' : List String}
    (hne : keys ≠ []) (hne' : keys' ≠ []) (r : ObjectRef) (d : Table) :
    Act.Parallel (".".intercalate keys) (".".intercalate keys')
      (populate host ⟨options, keys, []⟩ r d) (populate host ⟨options, keys', []⟩ r d) := by
  have hfacing : (⟨options, keys, []⟩ : Scope σ).Facing (".".intercalate keys)
      (".".intercalate keys') keys' := ⟨hne, hne', SamePlace.refl _ _⟩
  exact walkNext_parallel hfacing (.object r) (.table d)

include hhost hcreate

/-- Below a key longer than the path of an error, the walk fails with the error at the same place
below the key. -/
theorem populate_below_long {options : Options} {keys : List String} (hne : keys ≠ [])
    {r : ObjectRef} {d : Table} {s s' : σ} {e : Error} {path long : String}
    (h : (populate host ⟨options, keys, []⟩ r d).Raises s e s') (hpath : e.path? = some path)
    (hdot : '.' ∉ long.toList) (hlong : path.length < long.length) :
    ∃ place, path = ".".intercalate keys ++ place ∧
      (populate host ⟨options, [long], []⟩ r d).Raises s (e.withPath (long ++ place)) s' ∧
      (e.withPath (long ++ place)).PointsInto [long] d := by
  have hlongNe : long ≠ "" := by
    rintro rfl
    exact absurd hlong (Nat.not_lt_zero _)
  have hparts : Scope.pathParts long = [long] := by
    have hpart : ∀ part ∈ [long], part ≠ "" ∧ '.' ∉ part.toList := by
      rintro _ (_ | ⟨_, ⟨⟩⟩)
      exact ⟨hlongNe, hdot⟩
    rw [← Scope.pathParts_intercalate hpart, String.intercalate_singleton]
  have hreplay : replay host options long d r = populate host ⟨options, [long], []⟩ r d := by
    rw [replay, Scope.top, hparts]
  obtain ⟨hresult, hstate⟩ := populate_parallel host options hne (List.cons_ne_nil long []) r d s
  rw [h] at hresult hstate
  generalize hrun : populate host ⟨options, [long], []⟩ r d s = outcome at hresult hstate
  obtain ⟨result, s₁⟩ := outcome
  obtain rfl : s' = s₁ := hstate
  cases hresult with
  | @error _ e' hmoved =>
      -- an error with a path is none of the host's, so it points below the long key
      have hpoints : ∀ q, e'.path? = some q → e'.PointsInto [long] d := by
        intro q hq
        rcases replay_error hhost hcreate (hreplay ▸ hrun) with ⟨message, rfl⟩ | ⟨hpoints, -⟩
        · cases hq
        · exact hparts ▸ hpoints
      rcases hmoved.eq_or_place hpath with rfl | ⟨place, rfl, rfl⟩
      · obtain ⟨place, hplace, -⟩ := (hpoints path hpath).exists_place (List.cons_ne_nil long [])
        rw [hpath, String.intercalate_singleton] at hplace
        cases hplace
        rw [String.length_append] at hlong
        omega
      · rw [String.intercalate_singleton] at hrun hpoints
        exact ⟨place, rfl, hrun, hpoints _ (Error.path?_withPath_of_path? hpath _)⟩

/-- A walk that fails with a path fails at the same place below any other keys, and that is where
something of the table stands. -/
theorem populate_elsewhere {options : Options} {keys keys' : List String} (hne : keys ≠ [])
    (hne' : keys' ≠ []) {r : ObjectRef} {d : Table} {s s' : σ} {e : Error} {path : String}
    (h : (populate host ⟨options, keys, []⟩ r d).Raises s e s') (hpath : e.path? = some path) :
    ∃ place, path = ".".intercalate keys ++ place ∧
      (populate host ⟨options, keys', []⟩ r d).Raises s
        (e.withPath (".".intercalate keys' ++ place)) s' ∧
      (e.withPath (".".intercalate keys' ++ place)).PointsInto keys' d := by
  obtain ⟨hresult, hstate⟩ := populate_parallel host options hne hne' r d s
  rw [h] at hresult hstate
  generalize hrun : populate host ⟨options, keys', []⟩ r d s = outcome at hresult hstate
  obtain ⟨result, s₁⟩ := outcome
  obtain rfl : s' = s₁ := hstate
  cases hresult with
  | @error _ e' hmoved =>
      obtain ⟨path', hpath'⟩ : ∃ path', e'.path? = some path' := by
        rcases hmoved.eq_or_place hpath with rfl | ⟨place, -, rfl⟩
        · exact ⟨path, hpath⟩
        · exact ⟨_, Error.path?_withPath_of_path? hpath _⟩
      -- a third key, longer than both paths, tells the two places apart from the keys above them
      let long := String.ofList (List.replicate (path.length + path'.length + 1) 'x')
      have hdot : '.' ∉ long.toList := by
        rw [String.toList_ofList]
        intro hmem
        exact absurd (List.eq_of_mem_replicate hmem) (by decide)
      have hlength : long.length = path.length + path'.length + 1 := by
        rw [String.length_ofList, List.length_replicate]
      obtain ⟨place, hplace, hlong, hpoints⟩ :=
        populate_below_long hhost hcreate hne h hpath hdot (by omega)
      obtain ⟨place', hplace', hlong', -⟩ :=
        populate_below_long hhost hcreate hne' hrun hpath' hdot (by omega)
      obtain ⟨heq, -⟩ := hlong.unique hlong'
      have hpaths : long ++ place = long ++ place' := by
        have hpath? := congrArg Error.path? heq
        rw [Error.path?_withPath_of_path? hpath, Error.path?_withPath_of_path? hpath'] at hpath?
        exact Option.some.inj hpath?
      obtain rfl := (String.append_right_inj long).1 hpaths
      have he' : e' = e.withPath (".".intercalate keys' ++ place) := by
        rw [← hplace', ← Error.withPath_withPath e (long ++ place), heq, Error.withPath_withPath,
          Error.withPath_self hpath']
      refine ⟨place, hplace, he' ▸ hrun, ?_⟩
      obtain ⟨_, hlongPath, hmoves⟩ := hpoints.exists_place (List.cons_ne_nil long [])
      rw [Error.path?_withPath_of_path? hpath, String.intercalate_singleton] at hlongPath
      obtain rfl := (String.append_right_inj long).1 (Option.some.inj hlongPath)
      exact hmoves hne' (Error.path?_withPath_of_path? hpath _)

/-- A callback that fails with a path names the parts of its extension, its point and its key that
are not empty, and then a place of its table. There a walk of the document below the three keys
themselves fails with the same error. The two paths are equal unless a key has an empty part, as one
that begins or ends with a dot has, or one with two dots in a row. -/
theorem registration_error {options : Options} {ext key : String} {point : CallbackPoint}
    {body : Table} {payload : ObjectRef} {s s' : σ} {e : Error} {path : String}
    (hext : Scope.pathParts ext ≠ [])
    (h : ((registration options (ext ++ "." ++ point.name) point key body).callback.run host
      payload).Raises s e s') (hpath : e.path? = some path) :
    ∃ place,
      path = ".".intercalate
        (Scope.pathParts ext ++ Scope.pathParts point.name ++ Scope.pathParts key) ++ place ∧
      (populate host ⟨options, [ext, point.name, key], []⟩ payload body).Raises s
        (e.withPath (ext ++ "." ++ point.name ++ "." ++ key ++ place)) s' ∧
      (e.withPath (ext ++ "." ++ point.name ++ "." ++ key ++ place)).PointsInto
        [ext, point.name, key] body ∧
      (path = ext ++ "." ++ point.name ++ "." ++ key ++ place ↔
        "" ∉ dottedParts ext ++ dottedParts point.name ++ dottedParts key) := by
  have hparts : Scope.pathParts (ext ++ "." ++ point.name ++ "." ++ key) =
      Scope.pathParts ext ++ Scope.pathParts point.name ++ Scope.pathParts key := by
    rw [pathParts_append, pathParts_append]
  have hkeys : ".".intercalate [ext, point.name, key] = ext ++ "." ++ point.name ++ "." ++ key := by
    have htwo : ".".intercalate [ext, point.name] = ext ++ "." ++ point.name := by
      rw [← List.singleton_append, ← intercalate_snoc (List.cons_ne_nil _ _),
        String.intercalate_singleton]
    have hsnoc := intercalate_snoc (List.cons_ne_nil ext [point.name]) key
    rw [htwo] at hsnoc
    exact hsnoc.symm
  simp only [registration, Callback.run] at h
  split at h
  · rw [replay, Scope.top, hparts] at h
    obtain ⟨place, hplace, hwalk, hpoints⟩ := populate_elsewhere hhost hcreate
      (by simp [hext]) (List.cons_ne_nil ext [point.name, key]) h hpath
    rw [hkeys] at hwalk hpoints
    refine ⟨place, hplace, hwalk, hpoints, ?_⟩
    have hne : ext ++ "." ++ point.name ++ "." ++ key ≠ "" := by
      intro hempty
      have hlength := congrArg String.length hempty
      simp at hlength
    rw [hplace, String.append_left_inj, ← hparts, intercalate_pathParts_eq_iff hne,
      dottedParts_append, dottedParts_append]
  · obtain ⟨rfl, -⟩ := throw_raises.1 h
    cases hpath

end Walks

namespace Android

/-- A number is no file. -/
def numberedFiles : Table := [("proguardFiles", .array [.integer 1])]

/-- The callback for one variant name refuses the number where it stands. -/
theorem registration_error_staging :
    ((registration ⟨.lenient, ⟨"/"⟩⟩ ("androidComponents" ++ "." ++ onVariants.name) onVariants
      "staging" numberedFiles).callback.run host (Ref.mk 0 : Ref Variant).object).Raises .empty
        (.unsupportedCoercion "androidComponents.onVariants.staging.proguardFiles[0]" "File"
          "integer 1") .empty ∧
    Error.PointsInto ["androidComponents", "onVariants", "staging"] numberedFiles
      (.unsupportedCoercion "androidComponents.onVariants.staging.proguardFiles[0]" "File"
          "integer 1") := by
  have hraises : ((registration ⟨.lenient, ⟨"/"⟩⟩ ("androidComponents" ++ "." ++ onVariants.name)
      onVariants "staging" numberedFiles).callback.run host
        (Ref.mk 0 : Ref Variant).object).Raises .empty
          (.unsupportedCoercion "androidComponents.onVariants.staging.proguardFiles[0]" "File"
            "integer 1") .empty := rfl
  obtain ⟨place, -, -, hpoints, hpath⟩ := registration_error
    (fun P hP => host_obeys (fun _ _ => trivial) hP)
    (fun hcreate => ⟨_, (host_maybeCreate_raises hcreate).2.1⟩) (by decide) hraises rfl
  rw [← hpath.2 (by decide)] at hpoints
  exact ⟨hraises, hpoints⟩

/-- The text of a path does not say how many dots stood in a row: the error for the key `a..b` has
the path that it would have under `a.b`, and not that of its own place in the document. -/
theorem registration_error_collapsed :
    ((registration ⟨.lenient, ⟨"/"⟩⟩ "androidComponents.onVariants" onVariants "a..b"
      numberedFiles).callback.run host (Ref.mk 0 : Ref Variant).object).Raises .empty
        (.unsupportedCoercion "androidComponents.onVariants.a.b.proguardFiles[0]" "File"
          "integer 1") .empty ∧
    (populate host ⟨⟨.lenient, ⟨"/"⟩⟩, ["androidComponents", "onVariants", "a..b"], []⟩
      (Ref.mk 0 : Ref Variant).object numberedFiles).Raises .empty
        (.unsupportedCoercion "androidComponents.onVariants.a..b.proguardFiles[0]" "File"
          "integer 1") .empty :=
  ⟨rfl, rfl⟩

end Android

end BuildReplay
