import BuildReplay.Android.Variants
import BuildReplay.Proofs.Dispatch
import BuildReplay.Proofs.Lookup
import BuildReplay.Proofs.Position
import BuildReplay.Proofs.Routing

/-! # Unknown names and their alternatives

An error about an unknown name comes with the names that there are. A key that is reported is none
of them. The target of a request is looked up among the fields only, so it is reported though it may
be the name of a member, and then it is one of its own alternatives. -/

namespace BuildReplay

variable {σ : Type}

/-! ## Names of a shape -/

namespace Shape

variable {shape : Shape σ}

/-- The names that keys of a type can have: those of its fields in order, then those of its other
members in order, each once. -/
structure Alternatives (shape : Shape σ) (fields members : List String) : Prop where
  fields_sorted : fields.Pairwise (· < ·)
  members_sorted : members.Pairwise (· < ·)
  mem_fields : ∀ {name}, name ∈ fields ↔ (shape.field? name).isSome
  mem_members : ∀ {name},
    name ∈ members ↔ (shape.members? name).isSome ∧ shape.field? name = none

theorem Alternatives.mem_iff {fields members : List String} (h : shape.Alternatives fields members)
    {name : String} :
    name ∈ fields ++ members ↔ (shape.field? name).isSome ∨ (shape.members? name).isSome := by
  rw [List.mem_append, h.mem_fields, h.mem_members]
  cases shape.field? name <;> simp

theorem Alternatives.nodup {fields members : List String}
    (h : shape.Alternatives fields members) : (fields ++ members).Nodup := by
  refine List.nodup_append.2 ⟨h.fields_sorted.nodup, h.members_sorted.nodup, ?_⟩
  rintro a ha b hb rfl
  have hfield := h.mem_fields.1 ha
  rw [(h.mem_members.1 hb).2] at hfield
  cases hfield

/-- A name is that of a settable or of a read-only field, not of both. -/
def Separate (shape : Shape σ) : Prop :=
  ∀ name, (shape.settable? name).isSome → shape.readOnly? name = none

theorem ofDeclarations_separate (type : TypeRef) (ds : List (Declaration σ)) :
    (ofDeclarations type ds).Separate :=
  fun name => readOnly?_eq_none_of_settable? type ds name

theorem mem_fieldNames {name : String} : name ∈ shape.fieldNames ↔ (shape.field? name).isSome := by
  rw [fieldNames, List.mem_mergeSort, List.mem_append, Dictionary.mem_keys_iff,
    Dictionary.mem_keys_iff, field?, settable?, readOnly?]
  cases shape.settable.get? name <;> simp

theorem Separate.fieldNames_sorted (h : shape.Separate) : shape.fieldNames.Pairwise (· < ·) := by
  have hnodup : (shape.settable.keys ++ shape.readOnly.keys).Nodup := by
    refine List.nodup_append.2 ⟨shape.settable.keys_sorted.nodup, shape.readOnly.keys_sorted.nodup,
      ?_⟩
    rintro a ha b hb rfl
    have hreadOnly := Dictionary.mem_keys_iff.1 hb
    rw [show shape.readOnly.get? a = none from h a (Dictionary.mem_keys_iff.1 ha)] at hreadOnly
    cases hreadOnly
  have hsorted : shape.fieldNames.Pairwise fun a b => decide (a ≤ b) :=
    List.pairwise_mergeSort (by simpa using fun _ _ _ => String.le_trans)
      (by simpa using String.le_total) _
  have hfields : shape.fieldNames.Nodup := (List.mergeSort_perm _ _).nodup_iff.2 hnodup
  refine (hsorted.and hfields).imp fun {a b} ⟨hle, hab⟩ => ?_
  exact String.not_le.1 fun hge => hab (String.le_antisymm (by simpa using hle) hge)

/-- The names that go with an error about a declared type. -/
theorem Separate.alternatives (h : shape.Separate) :
    ∃ fields members, shape.availableNames = fields ++ members ∧
      shape.Alternatives fields members := by
  refine ⟨_, _, rfl, h.fieldNames_sorted, shape.members.keys_sorted.filter _, mem_fieldNames,
    fun {name} => ?_⟩
  rw [List.mem_filter, Dictionary.mem_keys_iff]
  refine and_congr_right fun _ => ?_
  rw [Bool.not_eq_true', ← Bool.not_eq_true, List.contains_iff_mem, mem_fieldNames]
  cases shape.field? name <;> simp

end Shape

/-! ## One key -/

/-- The error is not about an unknown name. -/
def Error.KnowsName (e : Error) : Prop :=
  ∀ path name type available dump, e ≠ .unknownDeclarationKey path name type available dump

section Key

variable {host : Host σ} {sc : Scope σ} {shape : Shape σ} {self : ObjectRef} {key : String}
  {v : Value} {s s' : σ}

theorem keyStep_of_lacks (hkey : key ≠ dispatchKey) (h : shape.Lacks key) :
    keyStep host sc shape self key v = throw (unknownKey shape sc.keyPath key) := by
  have hroute := route_eq_member.2 ⟨hkey, h.settable, h.accessor, h.readOnly⟩
  simp only [keyStep, hroute]
  rw [memberStep_of_no_put h.put, h.member, h.setter]
  rfl

variable (hhost : host.Obeys hostOnly) (hsc : sc.Obeys hostOnly)
include hhost hsc

/-- A request whose target is a field asks for no other name. -/
theorem carryOut_knowsName {request : DispatchRequest} {target : Live} {e : Error}
    (h : (carryOut host sc request target).Raises s e s') : e.KnowsName := by
  rintro path name type available dump rfl
  obtain ⟨outcome, calls, hcarry⟩ := exists_carriesOut host sc request target s
  have hrun : outcome = (.error (.unknownDeclarationKey path name type available dump), s') :=
    hcarry.run.1.symm.trans h
  cases hcarry with
  | unresolved _ => split at hrun <;> cases hrun
  | refused hframes hinner hms he hrefused =>
      cases hrun
      have hlength := length_of_mem_overloads (hms ▸ List.mem_cons_self)
      obtain ⟨i, target, found, -, heq⟩ := coerceParams_error hlength he
      cases heq
  | @called inner self shape outer before m after args hframes hinner hms hbefore hm =>
      have hframe : Frame.object self shape ∈ sc.frames := by simp [hframes]
      have hmem : m ∈ shape.overloads request.method request.params.length := by simp [hms]
      have hcall : hostOnly.Obeys (do
          let result ← m.invoke self args
          keepResult host sc request target (some result)) := by
        refine Act.Law.andThen ((hsc _ _ hframe).overloads hmem _ _) fun result => ?_
        cases target with
        | list slot => exact hhost.append _ _
        | _ => exact hostOnly.pure _
      obtain ⟨message, heq⟩ := (hcall s trivial).2 _ _ hrun
      cases heq

/-- The only name that a request does not know is that of its target, which is no field. -/
theorem dispatch_knowsName (hshape : shape.Obeys hostOnly) {e : Error}
    (h : (dispatch host sc shape self v).Raises s e s') :
    e.KnowsName ∨ ∃ request, DispatchRequest.ReadsAs v request ∧
      shape.field? request.target = none ∧ e = unknownKey shape sc.keyPath request.target := by
  rcases DispatchRequest.malformed_or_readsAs v with ⟨reason, hv⟩ | ⟨request, hv⟩
  · rw [dispatch_of_malformed hv] at h
    obtain ⟨rfl, -⟩ := Act.throw_raises.1 h
    exact .inl fun _ _ _ _ _ heq => by cases heq
  · cases hf : shape.field? request.target with
    | none =>
        rw [dispatch_of_unknown hv hf] at h
        exact .inr ⟨request, hv, hf, (Act.throw_raises.1 h).1.symm⟩
    | some f =>
        left
        rw [dispatch_of_field hv hf] at h
        rcases Act.bind_raises.1 h with hget | ⟨target, s₁, -, hcarry⟩
        · obtain ⟨message, rfl⟩ :=
            (hshape.get (Shape.hasField_of_field? hf) self s trivial).2 _ _ hget
          exact fun _ _ _ _ _ heq => by cases heq
        · exact carryOut_knowsName hhost hsc hcarry

/-- A key does not know its own name, where it is nothing on the type, or that of the target of its
request. -/
theorem keyStep_knowsName (hshape : shape.Obeys hostOnly) {e : Error}
    (h : (keyStep host sc shape self key v).Raises s e s') :
    e.KnowsName ∨ (key ≠ dispatchKey ∧ shape.Lacks key ∧ e = unknownKey shape sc.keyPath key) ∨
      key = dispatchKey ∧ ∃ request, DispatchRequest.ReadsAs v request ∧
        shape.field? request.target = none ∧ e = unknownKey shape sc.keyPath request.target := by
  by_cases hkey : key = dispatchKey
  · subst hkey
    have hroute : route shape dispatchKey = .dispatch := if_pos rfl
    simp only [keyStep, hroute] at h
    rcases Act.bind_raises.1 h with h | ⟨_, _, _, h⟩
    · exact (dispatch_knowsName hhost hsc hshape h).imp_right fun htarget => .inr ⟨rfl, htarget⟩
    · exact absurd h Act.not_pure_raises
  · by_cases hlacks : shape.Lacks key
    · rw [keyStep_of_lacks hkey hlacks] at h
      exact .inr (.inl ⟨hkey, hlacks, (Act.throw_raises.1 h).1.symm⟩)
    · left
      rintro path name type available dump rfl
      rcases hhost.keyStep_error hsc hshape h with hown | ⟨message, heq⟩
      · cases hown with
        | here _ _ _ hunknown => exact (hunknown _ _ _ _ _ rfl).elim hkey hlacks
      · cases heq

end Key

/-! ## Documents -/

/-- A name that a document gives in vain: a key that is nothing on the type that it is meant for,
and no alternative of its own; or the target of a request that is no field, and an alternative where
it is a member. -/
inductive Unknown (shape : Shape σ) (outer : List String) (d : Table) (path name : String)
    (available : List String) : Prop where
  | key {keys v} : (Value.table d).Holds (keys ++ [name]) v →
      path = ".".intercalate (outer ++ (keys ++ [name])) → name ≠ dispatchKey → shape.Lacks name →
      name ∉ available → Unknown shape outer d path name available
  | target {keys v request} : (Value.table d).Holds (keys ++ [dispatchKey]) v →
      path = ".".intercalate (outer ++ (keys ++ [dispatchKey])) →
      DispatchRequest.ReadsAs v request → request.target = name → shape.field? name = none →
      (name ∈ available ↔ (shape.members? name).isSome) → Unknown shape outer d path name available

/-- All types of the host are declared. -/
def Host.Declared (host : Host σ) : Prop :=
  ∀ {t s shape s'}, (host.shapeOf t).Gives s shape s' → ∃ type ds, shape = .ofDeclarations type ds

theorem Shape.Lacks.field? {shape : Shape σ} {key : String} (h : shape.Lacks key) :
    shape.field? key = none := by
  rw [Shape.field?, h.settable, h.readOnly]
  rfl

section Documents

variable {host : Host σ} {options : Options} {start : String} {d : Table} {r : ObjectRef}
  {s s' : σ} {path name type dump : String} {available : List String}

theorem replay_unknown (hhost : host.Obeys hostOnly) (hdeclared : host.Declared)
    (h : (replay host options start d r).Raises s
      (.unknownDeclarationKey path name type available dump) s') :
    ∃ shape fields members, (∃ t s₁ s₂, (host.shapeOf t).Gives s₁ shape s₂) ∧
      type = shape.type.name ∧ dump = Text.trimEnd shape.dump ∧ available = fields ++ members ∧
      shape.Alternatives fields members ∧
      Unknown shape (Scope.pathParts start) d path name available := by
  obtain ⟨⟨task, s₁⟩, hreach, hfails⟩ := Task.replay_breaks h
  have hstands := hreach.stands
  cases hfails with
  | @key sc shape self key v rest _ _ _ hkey =>
      cases hstands with
      | @entries _ enc es keys t _ _ henclosed hsuffix hsc =>
          subst hsc
          rw [Task.inside_key] at hkey
          have hshapes := henclosed.shapes_obey hhost
          have hgiven : ∃ t s₁ s₂, (host.shapeOf t).Gives s₁ enc.shape s₂ :=
            henclosed.shapes (P := fun shape => ∃ t s₁ s₂, (host.shapeOf t).Gives s₁ shape s₂)
              (fun hgives => ⟨_, _, _, hgives⟩) enc List.mem_cons_self
          obtain ⟨_, _, _, hgives⟩ := hgiven
          obtain ⟨declared, ds, hds⟩ := hdeclared hgives
          obtain ⟨fields, members, havailable, halternatives⟩ :=
            (hds ▸ Shape.ofDeclarations_separate declared ds : enc.shape.Separate).alternatives
          have hv : (Value.table d).Holds (keys ++ [key]) v :=
            henclosed.holds.snoc (hsuffix.subset List.mem_cons_self)
          rcases keyStep_knowsName hhost (Scope.inside_obeys hshapes)
            (hshapes enc List.mem_cons_self) hkey with hknows | ⟨hne, hlacks, heq⟩ |
              ⟨rfl, request, hrequest, hfield, heq⟩
          · exact absurd rfl (hknows path name type available dump)
          · cases heq
            refine ⟨_, fields, members, ⟨_, _, _, hgives⟩, rfl, rfl, havailable, halternatives,
              .key hv rfl hne hlacks fun hmem => ?_⟩
            rw [havailable, halternatives.mem_iff, hlacks.field?, hlacks.member] at hmem
            simp at hmem
          · cases heq
            refine ⟨_, fields, members, ⟨_, _, _, hgives⟩, rfl, rfl, havailable, halternatives,
              .target hv rfl hrequest rfl hfield ?_⟩
            rw [havailable, halternatives.mem_iff, hfield]
            simp
  | object hshape =>
      obtain ⟨message, heq⟩ := (hhost.shapeOf _ _ trivial).2 _ _ hshape
      cases heq
  | element hcreate =>
      unfold Host.maybeCreate at hcreate
      split at hcreate
      · cases hcreate
      · cases (Act.throw_raises.1 hcreate).1

end Documents

/-! ## Callback points -/

section Points

variable {c : Components σ} {options : Options} {path p name type dump : String} {t : Table}
  {available : List String} {s s' : σ}

theorem registerEntries_knowsName {register : Registration → Act σ Unit}
    (hregister : ∀ r, hostOnly.Obeys (register r)) {point : CallbackPoint} {e : Error}
    (h : (registerEntries options path point register t).Raises s e s') : e.KnowsName := by
  induction t generalizing s with
  | nil => exact absurd h Act.not_pure_raises
  | cons entry rest ih =>
      obtain ⟨key, v⟩ := entry
      cases v with
      | table body =>
          rcases Act.bind_raises.1 h with h | ⟨_, s₁, -, h⟩
          · obtain ⟨message, rfl⟩ := (hregister _ s trivial).2 _ _ h
            exact fun _ _ _ _ _ heq => by cases heq
          · exact ih h
      | _ =>
          obtain ⟨rfl, -⟩ := Act.throw_raises.1 h
          exact fun _ _ _ _ _ heq => by cases heq

theorem configure_unknown (hregister : ∀ r, hostOnly.Obeys (c.register r))
    (h : (c.configure options path t).Raises s
      (.unknownDeclarationKey p name type available dump) s') :
    type = c.typeName ∧ dump = "" ∧ p = path ++ "." ++ name ∧ name ∈ t.keys ∧
      available = c.points.map (·.name) ∧ name ∉ available := by
  induction t generalizing s with
  | nil => exact absurd h Act.not_pure_raises
  | cons entry rest ih =>
      obtain ⟨key, v⟩ := entry
      simp only [Components.configure] at h
      split at h
      · rename_i hfind
        cases (Act.throw_raises.1 h).1
        refine ⟨rfl, rfl, rfl, List.mem_cons_self, rfl, fun hmem => ?_⟩
        obtain ⟨point, hpoint, hname⟩ := List.mem_map.1 hmem
        exact List.find?_eq_none.1 hfind point hpoint (by simpa using hname)
      · rcases Act.bind_raises.1 h with h | ⟨_, s₁, -, h⟩
        · cases v with
          | table body =>
              exact absurd rfl (registerEntries_knowsName hregister h p name type available dump)
          | _ => cases (Act.throw_raises.1 h).1
        · obtain ⟨htype, hdump, hp, hname, hrest⟩ := ih h
          exact ⟨htype, hdump, hp, List.mem_cons_of_mem _ hname, hrest⟩

end Points

/-- A name that a document gives in vain is refused with the names that there are, each once: those
of the fields in order and then those of the other members in order, or those of the callback
points. The name is none of them, unless it is the target of a request and the name of a member. -/
theorem unknown_alternatives {τ : Type} {host : Host σ} (hhost : host.Obeys hostOnly)
    (hdeclared : host.Declared) {c : Components τ}
    (hregister : ∀ r, hostOnly.Obeys (c.register r)) :
    (∀ {options start d r s s' path name type available dump},
      (replay host options start d r).Raises s
        (.unknownDeclarationKey path name type available dump) s' →
      ∃ shape fields members, (∃ t s₁ s₂, (host.shapeOf t).Gives s₁ shape s₂) ∧
        type = shape.type.name ∧ dump = Text.trimEnd shape.dump ∧ available = fields ++ members ∧
        shape.Alternatives fields members ∧ available.Nodup ∧
        Unknown shape (Scope.pathParts start) d path name available) ∧
    ∀ {options path} {t : Table} {s s' p name type available dump},
      (c.configure options path t).Raises s (.unknownDeclarationKey p name type available dump) s' →
      type = c.typeName ∧ dump = "" ∧ p = path ++ "." ++ name ∧ name ∈ t.keys ∧
        available = c.points.map (·.name) ∧ name ∉ available := by
  refine ⟨fun h => ?_, configure_unknown hregister⟩
  obtain ⟨shape, fields, members, hgives, htype, hdump, rfl, halternatives, hunknown⟩ :=
    replay_unknown hhost hdeclared h
  exact ⟨shape, fields, members, hgives, htype, hdump, rfl, halternatives, halternatives.nodup,
    hunknown⟩

theorem Android.host_declared : Android.host.Declared := by
  intro t s shape s' h
  obtain ⟨ds, -, hshape⟩ := Android.exists_of_shape? (Android.host_shapeOf_gives.1 h).1
  exact ⟨t, ds, hshape⟩

/-- Builders of variants have a field `enable`, and callbacks are for `onVariants`. -/
theorem unknown_alternatives_enabled :
    (∃ shape fields members, Shape.Alternatives (σ := Android.Model) shape fields members ∧
      Unknown shape ["builder"] [("enabled", .boolean true)] "builder.enabled" "enabled"
        (fields ++ members)) ∧
    "onVariant" ∉ Android.applicationComponents.points.map (·.name) := by
  have hregister : ∀ r, hostOnly.Obeys (Android.applicationComponents.register r) :=
    fun r => Act.Law.keeps_modify fun _ _ => trivial
  have hreplay : (replay Android.host ⟨.lenient, ⟨"/"⟩⟩ "builder" [("enabled", .boolean true)]
      ⟨typeRef Android.VariantBuilder, 0⟩).Raises .empty (.unknownDeclarationKey _ _ _ _ _) .empty :=
    rfl
  have hconfigure : (Android.applicationComponents.configure ⟨.lenient, ⟨"/"⟩⟩ "androidComponents"
      [("onVariant", .table [])]).Raises [] (.unknownDeclarationKey _ _ _ _ _) [] := rfl
  obtain ⟨hmapper, hadapter⟩ := unknown_alternatives
    (Android.host_obeys (fun _ _ => trivial) fun message => ⟨message, rfl⟩) Android.host_declared
    hregister
  obtain ⟨shape, fields, members, -, -, -, havailable, halternatives, -, hunknown⟩ :=
    hmapper hreplay
  rw [havailable] at hunknown
  exact ⟨⟨shape, fields, members, halternatives, hunknown⟩, (hadapter hconfigure).2.2.2.2.2⟩

/-- The target `zero` of a request is refused, and `zero` stands among its alternatives. -/
theorem unknown_alternatives_zero : ∃ type available dump,
    (replay Lab.host ⟨.lenient, ⟨"/"⟩⟩ ""
      [(dispatchKey, .table [("target", .string "zero"), ("method", .string "zero")])]
      ⟨typeRef Lab.Module, 0⟩).Raises Lab.World.empty
        (.unknownDeclarationKey dispatchKey "zero" type available dump) Lab.World.empty ∧
      "zero" ∈ available := by
  let shape : Shape Lab.World :=
    .ofDeclarations (typeRef Lab.Module) (Lab.Module.fields ++ Lab.Module.members)
  obtain ⟨fields, members, havailable, halternatives⟩ :=
    (Shape.ofDeclarations_separate _ _ : shape.Separate).alternatives
  refine ⟨shape.type.name, shape.availableNames, _, rfl, ?_⟩
  rw [havailable, halternatives.mem_iff]
  exact .inr rfl

end BuildReplay
