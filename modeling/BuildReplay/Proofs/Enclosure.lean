import BuildReplay.Proofs.Course
import BuildReplay.Proofs.Typing

/-! # What encloses a key

A key stands in a table of the document, and the table stands below the objects that were populated
on the way to it. The walk brings to every key the frames of these objects and of the collections
that they are elements of, and no others. So nothing else can be named there. -/

namespace BuildReplay

open Act

variable {σ : Type}

/-- An object around a key. -/
structure Enclosure (σ : Type) where
  self : ObjectRef
  shape : Shape σ
  /-- The type and the place of the collection that the object is an element of. -/
  collection? : Option (TypeRef × Slot)

/-- The frames of an object: its own, inside that of its collection. -/
def Enclosure.frames (e : Enclosure σ) : List (Frame σ) :=
  .object e.self e.shape :: (e.collection?.map fun c => .collection c.1 c.2).toList

/-- The scope of a key below some objects, the innermost first. -/
def Scope.inside (sc : Scope σ) (es : List (Enclosure σ)) (path : List String) : Scope σ :=
  ⟨sc.options, sc.path ++ path, es.flatMap Enclosure.frames ++ sc.frames⟩

/-- In the course of the task, a table of the document at some path is applied to a target, below
some objects, the innermost first. It is the document itself, or the table of a key that hands it
on when the walk comes to it. -/
inductive Enclosed (host : Host σ) (start : Task σ × σ) :
    List (Enclosure σ) → List String → Next → Table → Prop where
  | document {sc r t s shape s'} : start = (.next sc (.object r) (.table t), s) →
      (host.shapeOf r.type).Gives s shape s' →
      Enclosed host start [⟨r, shape, none⟩] [] (.object r) t
  /-- The table of an object in a field. -/
  | object {e es path t key entries sc rest s r shape s'} :
      Enclosed host start (e :: es) path (.object e.self) t → (key, .table entries) ∈ t →
      Task.Reaches host start (.entries sc e.shape e.self ((key, .table entries) :: rest), s) →
      (route e.shape key).handsOn e.self s (.object r) → (host.shapeOf r.type).Gives s shape s' →
      Enclosed host start (⟨r, shape, none⟩ :: e :: es) (path ++ [key]) (.object r) entries
  /-- The table of a collection in a field. -/
  | elements {e es path t key entries sc rest s element slot} :
      Enclosed host start (e :: es) path (.object e.self) t → (key, .table entries) ∈ t →
      Task.Reaches host start (.entries sc e.shape e.self ((key, .table entries) :: rest), s) →
      (route e.shape key).handsOn e.self s (.elements element slot) →
      Enclosed host start (e :: es) (path ++ [key]) (.elements element slot) entries
  /-- The table of an element. -/
  | element {es path element slot t name body sc rest s r s₁ shape s'} :
      Enclosed host start es path (.elements element slot) t → (name, .table body) ∈ t →
      Task.Reaches host start (.elements sc element slot ((name, .table body) :: rest), s) →
      (host.maybeCreate slot name).Gives s r s₁ → (host.shapeOf r.type).Gives s₁ shape s' →
      Enclosed host start (⟨r, shape, some (element, slot)⟩ :: es) (path ++ [name]) (.object r) body

/-- Some object encloses every table, and the keys of an object's table are applied to the
innermost one. -/
theorem Enclosed.exists_innermost {host : Host σ} {start : Task σ × σ} {es : List (Enclosure σ)}
    {path : List String} {target : Next} {t : Table} (h : Enclosed host start es path target t) :
    ∃ e rest, es = e :: rest ∧ ∀ r, target = .object r → r = e.self := by
  induction h with
  | document => exact ⟨_, _, rfl, fun r heq => (Next.object.inj heq).symm⟩
  | object => exact ⟨_, _, rfl, fun r heq => (Next.object.inj heq).symm⟩
  | elements => exact ⟨_, _, rfl, fun r heq => by cases heq⟩
  | element => exact ⟨_, _, rfl, fun r heq => (Next.object.inj heq).symm⟩

/-- The types of the objects around a table are as the host gives them. -/
theorem Enclosed.shapes {host : Host σ} {start : Task σ × σ} {P : Shape σ → Prop}
    (hP : ∀ {t s shape s'}, (host.shapeOf t).Gives s shape s' → P shape) {es : List (Enclosure σ)}
    {path : List String} {target : Next} {t : Table} (h : Enclosed host start es path target t) :
    ∀ e ∈ es, P e.shape := by
  induction h with
  | document _ hshape => simpa using hP hshape
  | object _ _ _ _ hshape ih => exact List.forall_mem_cons.2 ⟨hP hshape, ih⟩
  | elements _ _ _ _ ih => exact ih
  | element _ _ _ _ hshape ih => exact List.forall_mem_cons.2 ⟨hP hshape, ih⟩

/-! ## Where a task stands -/

/-- A task stands where its scope says. -/
inductive Stands (host : Host σ) (start : Task σ × σ) (outer : Scope σ) : Task σ × σ → Prop where
  | done {sc v s} : Stands host start outer (.next sc .done v, s)
  | object {sc r v s es path} (collection? : Option (TypeRef × Slot)) :
      (∀ t shape s', v = .table t → (host.shapeOf r.type).Gives s shape s' →
        Enclosed host start (⟨r, shape, collection?⟩ :: es) path (.object r) t) →
      (∀ shape, sc.enter (.object r shape) = outer.inside (⟨r, shape, collection?⟩ :: es) path) →
      Stands host start outer (.next sc (.object r) v, s)
  | collection {sc element slot v s es path} :
      (∀ t, v = .table t → Enclosed host start es path (.elements element slot) t) →
      sc = outer.inside es path → Stands host start outer (.next sc (.elements element slot) v, s)
  | entries {sc e es path t t' s} : Enclosed host start (e :: es) path (.object e.self) t →
      t' <:+ t → sc = outer.inside (e :: es) path →
      Stands host start outer (.entries sc e.shape e.self t', s)
  | elements {sc element slot es path t t' s} :
      Enclosed host start es path (.elements element slot) t → t' <:+ t →
      sc = outer.inside es path → Stands host start outer (.elements sc element slot t', s)

namespace Task

variable {host : Host σ} {start : Task σ × σ} {outer : Scope σ}

theorem inside_key (es : List (Enclosure σ)) (path : List String) (key : String) :
    (outer.inside es path).key key = outer.inside es (path ++ [key]) := by
  simp [Scope.inside, Scope.key]

theorem Leads.stands {c c' : Task σ × σ} (h : Leads host c c') (hc : Reaches host start c)
    (hstands : Stands host start outer c) : Stands host start outer c' := by
  cases h with
  | @key sc shape self key v rest s next s' hkey =>
      cases hstands with
      | @entries _ e es path t _ _ henclosed hsuffix hsc =>
          have hmem : (key, v) ∈ t := hsuffix.subset List.mem_cons_self
          subst hsc
          rw [inside_key]
          cases next with
          | done => exact .done
          | object r =>
              obtain ⟨-, rfl, hon⟩ := (keyStep_goesOn (by simp)).1 hkey
              refine .object none (fun entries shape s₁ hv hshape => ?_) fun _ => rfl
              subst hv
              exact .object henclosed hmem hc hon hshape
          | elements element slot =>
              obtain ⟨-, rfl, hon⟩ := (keyStep_goesOn (by simp)).1 hkey
              refine .collection (fun entries hv => ?_) rfl
              subst hv
              exact .elements henclosed hmem hc hon
  | keys =>
      cases hstands with
      | entries henclosed hsuffix hsc =>
          exact .entries henclosed ((List.suffix_cons _ _).trans hsuffix) hsc
  | @object sc r t s shape s' hshape =>
      cases hstands with
      | object collection? henclosed hsc =>
          exact .entries (henclosed t shape s' rfl hshape) List.suffix_rfl (hsc shape)
  | elements =>
      cases hstands with
      | collection henclosed hsc => exact .elements (henclosed _ rfl) List.suffix_rfl hsc
  | @element sc element slot name body rest s r s' hcreate =>
      cases hstands with
      | @elements _ _ _ es path t _ _ henclosed hsuffix hsc =>
          have hmem : (name, .table body) ∈ t := hsuffix.subset List.mem_cons_self
          subst hsc
          rw [inside_key]
          refine .object (some (element, slot)) (fun t shape s₁ hv hshape => ?_) fun _ => rfl
          cases hv
          exact .element henclosed hmem hc hcreate hshape
  | others =>
      cases hstands with
      | elements henclosed hsuffix hsc =>
          exact .elements henclosed ((List.suffix_cons _ _).trans hsuffix) hsc

/-- Every task that a walk comes to stands where its scope says. -/
theorem Reaches.stands {sc : Scope σ} {r : ObjectRef} {t : Table} {s : σ} {c : Task σ × σ}
    (h : Reaches host (.next sc (.object r) (.table t), s) c) :
    Stands host (.next sc (.object r) (.table t), s) sc c := by
  induction h with
  | refl =>
      have hscope : ∀ shape, sc.enter (.object r shape) = sc.inside [⟨r, shape, none⟩] [] := by
        simp [Scope.inside, Scope.enter, Enclosure.frames]
      refine .object none (fun t shape s' hv hshape => ?_) hscope
      cases hv
      exact .document rfl hshape
  | tail hbefore hlast ih => exact hlast.stands hbefore ih

end Task

/-! ## What a key can name -/

section Visible

variable {host : Host σ} {outer : Scope σ} {es : List (Enclosure σ)} {path : List String}

theorem Scope.mem_frames_inside {f : Frame σ} :
    f ∈ (outer.inside es path).frames ↔
      (∃ e ∈ es, f = .object e.self e.shape ∨
        ∃ c, e.collection? = some c ∧ .collection c.1 c.2 = f) ∨ f ∈ outer.frames := by
  simp [Scope.inside, Enclosure.frames]

/-- A text names an element of a collection around the key. -/
theorem Scope.resolveSymbol_inside {name text : String} {type : ValueType} {live : Live} {s s' : σ}
    (h : (resolveSymbol host (.string name) type text (outer.inside es path).frames).Gives s
      (some live) s') :
    ∃ element slot r, live = .object r ∧ (host.getByName slot name).Gives s' (some r) s' ∧
      ((∃ e ∈ es, e.collection? = some (element, slot)) ∨
        .collection element slot ∈ outer.frames) := by
  obtain ⟨f, hf, s₁, hresolve⟩ := resolveSymbol_gives h
  cases f with
  | object self shape => cases (Act.pure_gives.1 hresolve).1
  | collection element slot =>
      obtain ⟨_, r, hname, -, hlive, hget⟩ := Frame.resolve_collection_gives hresolve
      cases hname
      obtain rfl := Host.getByName_state hget
      refine ⟨element, slot, r, hlive, hget, ?_⟩
      rcases Scope.mem_frames_inside.1 hf with ⟨e, he, hobject | ⟨c, hc, hf⟩⟩ | houter
      · cases hobject
      · cases hf
        exact .inl ⟨e, he, hc⟩
      · exact .inr houter

/-- A member is one of an object around the key. -/
theorem Scope.findMember?_inside {name : String} {arity : Nat} {f : Frame σ} {m : Member σ}
    (h : findMember? name arity (outer.inside es path).frames = some (f, m)) :
    (∃ e ∈ es, f = .object e.self e.shape) ∨ f ∈ outer.frames := by
  obtain ⟨hf, hm⟩ := mem_of_findMember? h
  rcases Scope.mem_frames_inside.1 hf with ⟨e, he, hobject | ⟨c, -, rfl⟩⟩ | houter
  · exact .inl ⟨e, he, hobject⟩
  · cases hm
  · exact .inr houter

end Visible

end BuildReplay
