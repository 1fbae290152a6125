import BuildReplay.Proofs.Android.Outline
import BuildReplay.Proofs.Course
import BuildReplay.Proofs.Fields
import BuildReplay.Proofs.Obedience
import BuildReplay.Proofs.Recording
import BuildReplay.Proofs.Shape

/-! # What a key does by what it is

A key that is no request is a settable field, else a read-only field, else an entry of a type like
a map, else a member. Each of these is applied in its own way, which calls the members that belong
to it and no others, and a key that is nothing of the kind is refused where it stands. -/

namespace BuildReplay

open Act (Records)

variable {σ : Type}

/-! ## Errors below a key -/

/-- The key path of a scope inside another one is longer. -/
theorem keyPath_ne_of_prefix {path : List String} (hne : path ≠ []) {sc : Scope σ}
    (h : path <+: sc.path) (key : String) : (sc.key key).keyPath ≠ ".".intercalate path := by
  obtain ⟨rest, hrest⟩ := h
  have hlonger : (sc.key key).keyPath =
      ".".intercalate path ++ "." ++ ".".intercalate (rest ++ [key]) := by
    rw [← String.intercalate_append_of_ne_nil hne (by simp), ← List.append_assoc, hrest]
    rfl
  intro heq
  rw [hlonger, ← String.toList_inj] at heq
  simpa using congrArg List.length heq

namespace Task

variable {host : Host σ} {path : List String} {task : Task σ} {c c' : Task σ × σ} {s : σ}
  {e : Error}

/-- The task stands at a path or below it, among objects that fail with errors of the host only. -/
def Below (path : List String) : Task σ → Prop
  | .next sc _ _ | .elements sc _ _ _ => path <+: sc.path ∧ sc.Obeys hostOnly
  | .entries sc shape _ _ => (path <+: sc.path ∧ sc.Obeys hostOnly) ∧ shape.Obeys hostOnly

theorem Leads.below (hhost : host.Obeys hostOnly) (h : Leads host c c') (hc : c.1.Below path) :
    c'.1.Below path := by
  cases h with
  | key _ => exact ⟨hc.1.1.trans (List.prefix_append _ _), hc.1.2.key _⟩
  | keys _ _ => exact hc
  | object hshape =>
      exact ⟨⟨hc.1, hc.2.enter_object (hhost.shape hshape) _⟩, hhost.shape hshape⟩
  | elements => exact hc
  | element _ =>
      exact ⟨hc.1.trans (List.prefix_append _ _), (hc.2.key _).enter_collection _ _⟩
  | others _ _ => exact hc

/-- A task below a path knows the keys below it only. -/
theorem Fails.ne_unknownKey (hhost : host.Obeys hostOnly) (hne : path ≠ [])
    (hbelow : task.Below path) (h : task.Fails host s e) (name type : String)
    (available : List String) (dump : String) :
    e ≠ .unknownDeclarationKey (".".intercalate path) name type available dump := by
  rintro rfl
  cases h with
  | @key sc _ _ key _ _ _ _ _ hkey =>
      obtain ⟨⟨hpath, hsc⟩, hshape⟩ := hbelow
      rcases hhost.keyStep_error (hsc.key key) hshape hkey with hown | ⟨message, heq⟩
      · cases hown with
        | here hhere _ _ _ => exact keyPath_ne_of_prefix hne hpath key (Option.some.inj hhere).symm
      · cases heq
  | object hshape => exact absurd ((hhost.shapeOf _ _ trivial).2 _ _ hshape) (by simp)
  | element hcreate =>
      unfold Host.maybeCreate at hcreate
      split at hcreate
      · cases hcreate
      · cases (Act.throw_raises.1 hcreate).1

end Task

section Unknown

variable {host : Host σ} {sc : Scope σ} {shape : Shape σ} {self : ObjectRef} {key : String}
  {v : Value} {s : σ}

/-- What is left of a key never refuses the key itself. -/
theorem walkNext_ne_unknownKey (hhost : host.Obeys hostOnly) (hsc : sc.Obeys hostOnly)
    (hne : sc.path ≠ []) {next : Next} {s' : σ} {e : Error}
    (h : (walkNext host sc next v).Raises s e s') (name type : String) (available : List String)
    (dump : String) :
    e ≠ .unknownDeclarationKey sc.keyPath name type available dump := by
  by_cases htable : v.isTable
  · obtain ⟨t, rfl⟩ := Value.exists_of_isTable htable
    obtain ⟨c, hreach, hfails⟩ := Task.next_breaks (Task.walk_breaks t).1 (Task.walk_breaks t).2 h
    have hbelow : c.1.Below sc.path :=
      hreach.keeps (P := fun c => c.1.Below sc.path) (fun _ _ hleads => hleads.below hhost)
        ⟨List.prefix_rfl, hsc⟩
    exact hfails.ne_unknownKey hhost hne hbelow name type available dump
  · rw [walkNext_of_not_table host sc next (by simpa using htable)] at h
    exact absurd h Act.not_pure_raises

theorem walkKey_of_lacks (hkey : key ≠ dispatchKey) (h : shape.Lacks key) :
    walkKey host sc shape self key v = throw (unknownKey shape sc.keyPath key) := by
  rw [walkKey_member (route_eq_member.2 ⟨hkey, h.settable, h.accessor, h.readOnly⟩),
    memberStep_of_no_put h.put, h.member, h.setter]
  rfl

/-- A key is unknown where it stands exactly if it is nothing on the type of its object. -/
theorem walkKey_unknown_iff (hhost : host.Obeys hostOnly) (hsc : sc.Obeys hostOnly)
    (hshape : shape.Obeys hostOnly) (hkey : key ≠ dispatchKey) :
    (∃ name type available dump s', (walkKey host (sc.key key) shape self key v).Raises s
      (.unknownDeclarationKey (sc.key key).keyPath name type available dump) s') ↔
        shape.Lacks key := by
  constructor
  · rintro ⟨name, type, available, dump, s', h⟩
    rcases Act.bind_raises.1 h with hstep | ⟨next, s₁, -, hnext⟩
    · rcases hhost.keyStep_error (hsc.key key) hshape hstep with hown | ⟨message, heq⟩
      · cases hown with
        | here _ _ _ hunknown => exact (hunknown _ _ _ _ _ rfl).resolve_left hkey
      · cases heq
    · have hne : (sc.key key).path ≠ [] := by simp [Scope.key]
      exact absurd rfl
        (walkNext_ne_unknownKey hhost (hsc.key key) hne hnext name type available dump)
  · intro hlacks
    rw [walkKey_of_lacks hkey hlacks]
    exact ⟨_, _, _, _, s, Act.throw_raises.2 ⟨rfl, rfl⟩⟩

end Unknown

/-! ## Calls for a key -/

section Calls

variable {host : Host σ} {sc : Scope σ} {shape : Shape σ} {self : ObjectRef} {key : String}
  {v : Value} {P : List (MemberCall σ) → Prop}

/-- A value that is no table ends with the step of its key. -/
theorem walkKey_records (hv : v.isTable = false)
    (h : (keyStep host sc shape self key v).Records
      (keyStep host.recorded sc.recorded shape.recorded self key v) P) :
    (walkKey host sc shape self key v).Records
      (walkKey host.recorded sc.recorded shape.recorded self key v) P := by
  simp only [walkKey, walkNext_of_not_table _ _ _ hv]
  exact h.andThen_pure ()

theorem route_recorded :
    route shape.recorded key = match route shape key with
      | .dispatch => .dispatch
      | .settable f => .settable (f.within .fst)
      | .readOnly f => .readOnly (f.within .fst)
      | .member => .member :=
  route_within .fst shape key

/-- The overloads of a member are called with one argument. -/
theorem invokeFirst_overloads_records {name : String} {ms : List (Member σ)}
    (hms : shape.members? name = some ms) :
    (invokeFirst host sc self key v none none ms).Records
      (invokeFirst host.recorded sc.recorded self key v none none (ms.map Member.recorded))
      (AtMostOne fun call => call.self = self ∧ call.member ∈ shape.overloads name 1 ∧
        ∃ live, call.args = [live]) := by
  refine (invokeFirst_records host sc self key v none none ms).mono fun calls hcalls =>
    hcalls.mono ?_
  rintro call ⟨hself, hmem, harity, hargs⟩
  refine ⟨hself, ?_, hargs⟩
  rw [Shape.overloads_of_members? hms]
  exact List.mem_filter.2 ⟨hmem, by simpa using harity⟩

/-- Where there is no `put`, the member of the key is called, or else its setter. -/
theorem memberStep_records (hput : shape.mapLike → shape.members? "put" = none) :
    (memberStep host sc shape self key v).Records
      (memberStep host.recorded sc.recorded shape.recorded self key v)
      (AtMostOne fun call => call.self = self ∧ (call.member ∈ shape.overloads key 1 ∨
        shape.members? key = none ∧ call.member ∈ shape.overloads (setterName key) 1) ∧
        ∃ live, call.args = [live]) := by
  have hput' : shape.recorded.mapLike → shape.recorded.members? "put" = none := by
    intro hmap
    rw [Shape.members?_recorded, hput hmap]
    rfl
  rw [memberStep_of_no_put hput, memberStep_of_no_put hput', Shape.members?_recorded,
    Shape.members?_recorded]
  cases hmember : shape.members? key with
  | some ms =>
      refine (invokeFirst_overloads_records hmember).mono fun calls hcalls => hcalls.mono ?_
      exact fun call ⟨hself, hmem, hargs⟩ => ⟨hself, .inl hmem, hargs⟩
  | none =>
      cases hsetter : shape.members? (setterName key) with
      | some ms =>
          refine (invokeFirst_overloads_records hsetter).mono fun calls hcalls => hcalls.mono ?_
          exact fun call ⟨hself, hmem, hargs⟩ => ⟨hself, .inr ⟨rfl, hmem⟩, hargs⟩
      | none =>
          change Records (throw (unknownKey shape sc.keyPath key))
            (throw (unknownKey shape.recorded sc.keyPath key)) _
          rw [Shape.unknownKey_recorded]
          exact .throw _ .none

end Calls

/-! ## Routes -/

/-- What a key does to an object, by what the key is on the object's type. -/
structure Routing (host : Host σ) (sc : Scope σ) (shape : Shape σ) (self : ObjectRef) (key : String)
    (v : Value) : Prop where
  /-- The key is refused as unknown, where it stands, exactly if it is nothing on the type. -/
  unknown : ∀ s, (∃ name type available dump s', (walkKey host sc shape self key v).Raises s
    (.unknownDeclarationKey sc.keyPath name type available dump) s') ↔ shape.Lacks key
  /-- Refusing such a key is all that is done. -/
  lacking : shape.Lacks key →
    walkKey host sc shape self key v = throw (unknownKey shape sc.keyPath key)
  /-- A settable field of the name, or else of its `is` form, comes first. A value that is no table
  calls its setter at most, where the field cannot be written itself. -/
  settable : ∀ f, (shape.settable? key <|> shape.settable? (isName key)) = some f →
    walkKey host sc shape self key v = walkSettable host sc shape self f key v ∧
    (v.isTable = false → (walkKey host sc shape self key v).Records
      (walkKey host.recorded sc.recorded shape.recorded self key v)
      (AtMostOne fun call => f.write? = none ∧ call.self = self ∧
        call.member ∈ shape.overloads (setterName key) 1 ∧ ∃ live, call.args = [live]))
  /-- A read-only field comes next, and a value that is no table calls nothing. -/
  readOnly : ∀ f, shape.settable? key = none → shape.settable? (isName key) = none →
    shape.readOnly? key = some f →
    walkKey host sc shape self key v = walkReadOnly host sc shape self f v ∧
    (v.isTable = false → (walkKey host sc shape self key v).Records
      (walkKey host.recorded sc.recorded shape.recorded self key v) (· = []))
  /-- A type like a map with a `put` puts the value under the key, and calls nothing else. -/
  put : ∀ ms, shape.settable? key = none → shape.settable? (isName key) = none →
    shape.readOnly? key = none → shape.mapLike → shape.members? "put" = some ms →
    (walkKey host sc shape self key v).Records
      (walkKey host.recorded sc.recorded shape.recorded self key v)
      (AtMostOne fun call => call.self = self ∧ call.member ∈ ms ∧ call.member.arity = 2 ∧
        ∃ live, call.args = [.string key, live])
  /-- Otherwise a member of the name is called with the value or, where there is none, a setter. -/
  member : shape.settable? key = none → shape.settable? (isName key) = none →
    shape.readOnly? key = none → (shape.mapLike → shape.members? "put" = none) →
    (walkKey host sc shape self key v).Records
      (walkKey host.recorded sc.recorded shape.recorded self key v)
      (AtMostOne fun call => call.self = self ∧ (call.member ∈ shape.overloads key 1 ∨
        shape.members? key = none ∧ call.member ∈ shape.overloads (setterName key) 1) ∧
        ∃ live, call.args = [live])

/-- Every key but a request is routed, on hosts and types that fail with errors of the host only. -/
theorem walkKey_routing {host : Host σ} {sc : Scope σ} {shape : Shape σ} {key : String}
    (hhost : host.Obeys hostOnly) (hsc : sc.Obeys hostOnly) (hshape : shape.Obeys hostOnly)
    (hkey : key ≠ dispatchKey) (self : ObjectRef) (v : Value) :
    Routing host (sc.key key) shape self key v where
  unknown s := walkKey_unknown_iff hhost hsc hshape hkey
  lacking := walkKey_of_lacks hkey
  settable f hf := by
    have hroute : route shape key = .settable f := by
      rw [route, if_neg hkey, hf]
    refine ⟨walkKey_settable hroute, fun hv => walkKey_records hv ?_⟩
    rw [keyStep, keyStep, route_recorded, hroute]
    exact settableStep_records host (sc.key key) shape self f key v
  readOnly f hsettable haccessor hf := by
    have hroute : route shape key = .readOnly f := by
      rw [route, if_neg hkey, hsettable, haccessor, hf]
      rfl
    refine ⟨walkKey_readOnly hroute, fun hv => walkKey_records hv ?_⟩
    rw [keyStep, keyStep, route_recorded, hroute]
    dsimp only
    rw [readOnlyStep_recorded]
    exact .silent _ rfl
  put ms hsettable haccessor hreadOnly hmap hms := by
    have hroute := route_eq_member.2 ⟨hkey, hsettable, haccessor, hreadOnly⟩
    have hmap' : shape.recorded.mapLike := hmap
    have hms' : shape.recorded.members? "put" = some (ms.map Member.recorded) := by
      rw [Shape.members?_recorded, hms]
      rfl
    rw [walkKey_member hroute, walkKey_member (by rw [route_recorded, hroute]),
      memberStep_put hmap hms, memberStep_put hmap' hms']
    exact invokeFirst_records host (sc.key key) self key v (some (.string key)) none ms
  member hsettable haccessor hreadOnly hput := by
    have hroute := route_eq_member.2 ⟨hkey, hsettable, haccessor, hreadOnly⟩
    rw [walkKey_member hroute, walkKey_member (by rw [route_recorded, hroute])]
    exact memberStep_records hput

open Android in
/-- The source level of an application is set by a member. -/
theorem walkKey_routing_sourceCompatibility :
    let shape := Shape.ofDeclarations (typeRef CompileOptions) CompileOptions.declarations
    let self : ObjectRef := ⟨typeRef CompileOptions, 0⟩
    Routing Android.host
      (((Scope.top ⟨.strict, ⟨"/"⟩⟩ "android.compileOptions").enter (.object self shape)).key
        "sourceCompatibility")
      shape self "sourceCompatibility" (.string "VERSION_17") := by
  intro shape self
  have hmessage : ∀ message, ∃ message', Error.host message = .host message' :=
    fun message => ⟨message, rfl⟩
  have hknown : shape? (typeRef CompileOptions) = some shape := rfl
  have hshape : shape.Obeys hostOnly := shape?_obeys (fun _ _ => trivial) hmessage hknown
  exact walkKey_routing (host_obeys (fun _ _ => trivial) hmessage)
    ((Scope.top_obeys _ _).enter_object hshape self) hshape (by decide) self _

end BuildReplay
