import BuildReplay.Proofs.Android.Course

/-! # What an application refuses

The table of an application is refused by the host where a build type is initialized with itself, or
where a list does not take what a request is to keep in it. The tables of callbacks are never
refused by the host. -/

namespace BuildReplay.Android

open Act Law

/-- The only member that is refused is called by its own name. -/
theorem key_eq_initWith {key : String} (h : "initWith" = key ∨ "initWith" = setterName key) :
    key = "initWith" := by
  rcases h with h | h
  · exact h.symm
  · have hlist := congrArg String.toList h
    rw [setterName, String.toList_append] at hlist
    cases hlist

/-- The host refuses a key through a call that initializes a build type with itself, or through the
list of a request. -/
theorem Modelled.refused {I : Model → Prop} (hI : ∀ {m m' : Model}, m.Edits m' → I m → I m')
    {sc : Scope Model} (hsc : Modelled sc) {self : ObjectRef} {shape : Shape Model}
    (hshape : shape? self.type = some shape) {key : String} {v : Value} {m m' : Model}
    {message : String} (hm : I m)
    (h : (keyStep host sc shape self key v).Raises m (.host message) m') :
    CallRefused host I InitSelf sc self key v message ∨
      key = dispatchKey ∧ DispatchRefused host sc shape self v m message :=
  keyStep_host_error host_agrees hsc.agrees (shape?_agrees hshape) (hsc.effects hI hshape key v)
    InitSelf.object hm h

section Places

variable {a : Ref ApplicationExtension} {t : Table}

/-- The key of an object has come so far from a model in which an application is intact. -/
structure OnTheWay (a : Ref ApplicationExtension) (m m' : Model) : Prop where
  outline : m'.outline = m.outline
  intact : Intact a m'

theorem OnTheWay.refl {m : Model} (hm : Intact a m) : OnTheWay a m m := ⟨rfl, hm⟩

theorem OnTheWay.edits {m m₁ m₂ : Model} (hedits : m₁.Edits m₂) (h : OnTheWay a m m₁) :
    OnTheWay a m m₂ :=
  ⟨hedits.outline.trans h.outline, h.intact.edits hedits⟩

/-- The build type of this name in the table is to be initialized with itself. -/
def InitializesSelf (t : Table) (name : String) : Prop :=
  ∃ body, DeclaresBuildType t name body ∧ ("initWith", .string name) ∈ body

/-- A refused call initializes the build type of the enclosing table with itself, and the refusal
tells its name. -/
theorem Stands.call_refused {sc : Scope Model} {r : ObjectRef} {key : String} {v : Value}
    {rest : Table} {m : Model} {message : String} (h : Stands a t sc r ((key, v) :: rest) m)
    (hrefused : CallRefused host (OnTheWay a m) InitSelf (sc.key key) r key v message) :
    ∃ name, InitializesSelf t name ∧ message = BuildType.selfRefusal name := by
  obtain ⟨name, param, argument, m₁, m₂, m₃, hname, hm₂, hresolve, hm₃,
    ⟨b, rfl, rfl, hargs, hmessage⟩, htype⟩ := hrefused
  obtain rfl := key_eq_initWith hname
  cases hargs
  cases htype with
  | @object _ param hparam =>
      obtain rfl : param = typeRef BuildType := hparam.symm
      obtain ⟨n, slot, r', rfl, hlive, hframe, hget⟩ :=
        resolveArgument_object factory?_eq_none hresolve
      cases hlive
      obtain ⟨name, body, hdeclares, hrest, hstands, hframes⟩ := h.buildType rfl
      obtain rfl := hframes _ _ hframe
      -- names stand for the same build types throughout the key
      have hget₃ : (CollectionField.buildTypes.collection a).getByName n m₃ = some b.object := by
        rw [CollectionField.getByName_congr a .buildTypes (hm₃.outline.trans hm₂.outline.symm)]
        exact (read_gives.1 hget).1
      have hstands₃ : (CollectionField.buildTypes.collection a).getByName name m₃ =
          some b.object := by
        rw [CollectionField.getByName_congr a .buildTypes hm₃.outline]
        exact hstands
      have hn := hm₃.intact.name_eq hget₃
      obtain rfl : name = n := (hm₃.intact.name_eq hstands₃).symm.trans hn
      refine ⟨name, ⟨body, hdeclares, hrest List.mem_cons_self⟩, ?_⟩
      rw [← hn]
      exact Error.host.inj hmessage

/-- The task is about to carry out a request whose result the host refuses. -/
def AtRefusedDispatch (task : Task Model) (m : Model) (message : String) : Prop :=
  ∃ sc shape self v rest, task = .entries sc shape self ((dispatchKey, v) :: rest) ∧
    DispatchRefused host (sc.key dispatchKey) shape self v m message

theorem Placed.host_error {task : Task Model} {m : Model} {message : String}
    (hplaced : Placed a t (task, m)) (h : task.Fails host m (.host message)) :
    (∃ name, InitializesSelf t name ∧ message = BuildType.selfRefusal name) ∨
      AtRefusedDispatch task m message := by
  generalize he : Error.host message = e at h
  cases h with
  | @key sc shape self key v rest _ _ m' hkey =>
      subst he
      obtain ⟨hm, hshape, hstands⟩ := hplaced
      have hsc := hstands.modelled.key key
      rcases hsc.refused OnTheWay.edits hshape (.refl hm) hkey with hcall | ⟨rfl, hdispatch⟩
      · exact .inl (hstands.call_refused hcall)
      · exact .inr ⟨sc, shape, self, v, rest, rfl, hdispatch⟩
  | @object sc r entries _ _ m' hshapeOf =>
      obtain ⟨-, hplace⟩ := hplaced
      obtain ⟨shape, hshape⟩ := Option.isSome_iff_exists.1 (hplace entries rfl).1
      exact absurd hshapeOf (shapeOf_succeeds hshape).not_raises
  | @element sc element slot name body rest _ _ m' hcreate =>
      obtain ⟨-, hgathers⟩ := hplaced
      obtain ⟨c, hc, -⟩ := hgathers.named
      obtain ⟨hnone, -⟩ := host_maybeCreate_raises hcreate
      cases hc.symm.trans hnone
  | entry _ => cases he

/-- The table of an application is refused by the host in two cases only. -/
theorem replay_host_error {options : Options} {start : String} {m m' : Model} {message : String}
    (hm : Intact a m) (h : (replay host options start t a.object).Raises m (.host message) m') :
    (∃ name, InitializesSelf t name ∧ message = BuildType.selfRefusal name) ∨
      ∃ c, Task.Reaches host (.document options start t a.object, m) c ∧
        AtRefusedDispatch c.1 c.2 message := by
  obtain ⟨⟨task, m₁⟩, hreaches, hfails⟩ := Task.replay_breaks h
  have hstart : Placed a t (.document options start t a.object, m) := by
    refine ⟨hm, ?_⟩
    rintro rest ⟨⟩
    exact ⟨rfl, .top options start, fun _ => ⟨rfl, List.Subset.refl _, fun _ _ => List.not_mem_nil⟩,
      fun hr => absurd hr (of_decide_eq_false rfl)⟩
  have hplaced := hreaches.keeps (fun _ _ => Placed.leads) hstart
  rcases hplaced.host_error hfails with hself | hdispatch
  · exact .inl hself
  · exact .inr ⟨_, hreaches, hdispatch⟩

end Places

end BuildReplay.Android
