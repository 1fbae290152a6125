import BuildReplay.Proofs.Declared
import BuildReplay.Proofs.Lens
import BuildReplay.Proofs.Relocation.Walk

/-! # Declared types from two roots

The objects of a type keep all their paths in one part. Where related states hold objects that
differ in this part only, what a declaration reads is alike, and what it writes leaves the objects
related. -/

namespace BuildReplay

open Act (Mirrors)

variable {σ β γ : Type} {S : σ → σ → Prop} {R : Path → Path → Prop}

/-! ## Objects -/

/-- A type of objects, with the part of them that their paths are in, and what it is for two such
parts to differ in related paths only. -/
class HasPaths (γ : Type) where
  {Paths : Type}
  paths : Lens γ Paths
  Rel : (Path → Path → Prop) → Paths → Paths → Prop
  refl : ∀ {R : Path → Path → Prop}, (∀ p, R p p) → ∀ c, Rel R c c

/-- A type of objects without paths. -/
@[reducible]
def HasPaths.nowhere : HasPaths γ where
  Paths := Unit
  paths := { get := fun _ => (), set := fun _ x => x }
  Rel _ _ _ := True
  refl _ _ := trivial

/-- The objects are the same, but for their paths, and these are related. -/
structure Relocated [HasPaths γ] (R : Path → Path → Prop) (x x' : γ) : Prop where
  rest : x' = HasPaths.paths.set (HasPaths.paths.get x') x
  paths : HasPaths.Rel R (HasPaths.paths.get x) (HasPaths.paths.get x')

namespace Relocated

variable [HasPaths γ] {x x' : γ}

theorem refl (hR : ∀ p, R p p) (x : γ) : Relocated R x x :=
  ⟨(Lens.set_get _ _).symm, HasPaths.refl hR _⟩

/-- What does not depend on the paths is the same. -/
theorem congr {δ : Type} {get : γ → δ} (hget : ∀ c x, get (HasPaths.paths.set c x) = get x)
    (h : Relocated R x x') : get x' = get x :=
  (congrArg get h.rest).trans (hget _ x)

/-- What changes no paths changes both objects alike. -/
theorem map {f : γ → γ} (hf : ∀ c x, f (HasPaths.paths.set c x) = HasPaths.paths.set c (f x))
    (h : Relocated R x x') : Relocated R (f x) (f x') := by
  have hpaths : ∀ x, HasPaths.paths.get (f x) = HasPaths.paths.get x := by
    intro x
    have hfix := hf (HasPaths.paths.get x) x
    rw [Lens.set_get] at hfix
    rw [hfix, Lens.get_set]
  refine ⟨?_, by rw [hpaths, hpaths]; exact h.paths⟩
  rw [hpaths, ← hf, ← h.rest]

/-- Related paths are put into both objects. -/
theorem set {c c' : HasPaths.Paths γ} (hc : HasPaths.Rel R c c') (h : Relocated R x x') :
    Relocated R (HasPaths.paths.set c x) (HasPaths.paths.set c' x') := by
  refine ⟨?_, by rwa [Lens.get_set, Lens.get_set]⟩
  rw [Lens.get_set, Lens.set_set, h.rest, Lens.set_set]

end Relocated

/-- Related states hold related objects of a type, and stay related where one of the objects is
changed alike. -/
structure Keeps (S : σ → σ → Prop) (R : Path → Path → Prop) (γ : Type) [Stored σ γ] [HasPaths γ] :
    Prop where
  get : ∀ {s t}, S s t → ∀ r : Ref γ, Relocated R (r.get s) (r.get t)
  modify : ∀ {s t}, S s t → ∀ (r : Ref γ) {f g : γ → γ},
    (∀ {x x'}, Relocated R x x' → Relocated R (f x) (g x')) → S (r.modify f s) (r.modify g t)

/-! ## Types of fields -/

/-- A type of fields, with what it is for two of its values to differ in related paths only. Alike
values are converted to such fields, and such fields are read as alike values. -/
class Relocating (β : Type) [OfLive β] [ToLive β] where
  Rel : (Path → Path → Prop) → β → β → Prop
  alike : ∀ {R : Path → Path → Prop} {b b' : β}, Rel R b b' → Live.Alike R (toLive b) (toLive b')
  converts : ∀ {R : Path → Path → Prop}, (∀ p, R p p) → ∀ {v w : Live}, Live.Alike R v w →
    Outcome (Rel R) (ofLive v : Except Error β) (ofLive w)

/-- A type of fields that hold no paths. -/
class Pathless (β : Type) [OfLive β] : Prop where
  refuses : ∀ p, ∃ message, (ofLive (.path p) : Except Error β) = .error (.host message)

instance : Pathless Bool := ⟨fun _ => ⟨_, rfl⟩⟩
instance : Pathless Int32 := ⟨fun _ => ⟨_, rfl⟩⟩
instance : Pathless String := ⟨fun _ => ⟨_, rfl⟩⟩
instance {α : Type} [Described α] : Pathless (Ref α) := ⟨fun _ => ⟨_, rfl⟩⟩

instance [OfLive β] [Pathless β] : Pathless (Option β) where
  refuses p := by
    obtain ⟨message, h⟩ := Pathless.refuses (β := β) p
    exact ⟨message, congrArg (Except.map some) h⟩

theorem Pathless.converts [OfLive β] [Pathless β] {v w : Live} (h : Live.Alike R v w) :
    Outcome Eq (ofLive v : Except Error β) (ofLive w) := by
  cases h with
  | refl v => exact .refl (fun _ => rfl) _
  | @path p q _ =>
      obtain ⟨message, hp⟩ := Pathless.refuses (β := β) p
      obtain ⟨message', hq⟩ := Pathless.refuses (β := β) q
      rw [hp, hq]
      exact .error (.host message message')

instance (priority := low) [OfLive β] [ToLive β] [Pathless β] : Relocating β where
  Rel _ := Eq
  alike h := h ▸ .refl _
  converts _ _ _ h := Pathless.converts h

instance : Relocating Path where
  Rel R := R
  alike h := .path h
  converts hR v w hvw := by
    cases hvw with
    | path h => exact .ok h
    | refl v =>
        cases v with
        | path p => exact .ok (hR p)
        | _ => exact .error (.refl _)

instance : Relocating (Option Path) where
  Rel R := Option.Rel R
  alike h := by
    cases h with
    | some h => exact .path h
    | none => exact .refl _
  converts {R} hR v w hvw := by
    have hsome : Outcome (Option.Rel R) ((ofLive v : Except Error Path).map some)
        ((ofLive w : Except Error Path).map some) :=
      (Relocating.converts hR hvw).map .some
    cases hvw with
    | path _ => exact hsome
    | refl v =>
        cases v with
        | nothing => exact .ok .none
        | _ => exact hsome

/-! ## Declarations -/

/-- What a declaration stands for goes side by side. -/
def Declaration.Mirrored (S : σ → σ → Prop) (R : Path → Path → Prop) : Declaration σ → Prop
  | .settable f =>
    (∀ r {s t}, S s t → Outcome (Live.Alike R) (f.read r s) (f.read r t)) ∧
      ∀ write, f.write? = some write → ∀ r {v w}, Live.Alike R v w →
        Mirrors S Eq (write r v) (write r w)
  | .readOnly f => ∀ r {s t}, S s t → Outcome (Live.Alike R) (f.read r s) (f.read r t)
  | .member m => ∀ r {args args'}, List.Forall₂ (Live.Alike R) args args' →
    Mirrors S (Live.Alike R) (m.invoke r args) (m.invoke r args')
  | .factory f => ∀ argument, Mirrors S (Live.Alike R) (f.build argument) (f.build argument)
  | .mapLike => True

theorem Shape.DescribedBy.mirrored {shape : Shape σ} {ds : List (Declaration σ)}
    (h : shape.DescribedBy ds) (hds : ∀ d ∈ ds, d.Mirrored S R) : shape.Mirrored S R where
  read := by
    rintro f ⟨name, hf | hf⟩
    · exact (hds _ (h.settable hf).1).1
    · exact hds _ (h.readOnly hf).1
  write hf hwrite := (hds _ (h.settable hf).1).2 _ hwrite
  invoke hms hm := hds _ (h.members hms _ hm).1
  build hf := hds _ (h.factories hf).1

section Arguments

variable {V : β → β → Prop} {l l' : List β} {d d' : β}

theorem forall₂_getD (h : List.Forall₂ V l l') (hd : V d d') (i : Nat) :
    V (l.getD i d) (l'.getD i d') := by
  induction h generalizing i with
  | nil => exact hd
  | cons hab _ ih =>
      cases i with
      | zero => exact hab
      | succ i => exact ih i

theorem forall₂_getLastD (h : List.Forall₂ V l l') (hd : V d d') :
    V (l.getLastD d) (l'.getLastD d') := by
  induction h generalizing d d' with
  | nil => exact hd
  | cons hab _ ih =>
      rw [List.getLastD_cons, List.getLastD_cons]
      exact ih hab

end Arguments

namespace Declaration

theorem getter_mirrored [Described γ] {look : Ref γ → σ → Live}
    (h : ∀ a {s t}, S s t → Live.Alike R (look a s) (look a t)) (o : ObjectRef) {s t : σ}
    (hst : S s t) : Outcome (Live.Alike R) (getter look o s) (getter look o t) := by
  rw [getter_eq, getter_eq]
  cases o.cell γ with
  | ok a => exact .ok (h a hst)
  | error e => exact .error (.refl e)

section Containers

variable [Described γ] {name : String} {type : ValueType}

theorem list_mirrored : (list γ name type : Declaration σ).Mirrored S R :=
  getter_mirrored fun _ _ _ _ => .refl _

theorem map_mirrored : (map γ name type : Declaration σ).Mirrored S R :=
  getter_mirrored fun _ _ _ _ => .refl _

theorem property_mirrored : (property γ name type : Declaration σ).Mirrored S R :=
  getter_mirrored fun _ _ _ _ => .refl _

theorem collection_mirrored {element : TypeRef} :
    (collection γ name element : Declaration σ).Mirrored S R :=
  getter_mirrored fun _ _ _ _ => .refl _

/-- What a member does goes side by side where its body does, whatever is lent meanwhile. -/
theorem call_mirrored {params : List ValueType} {body : Ref γ → List Live → Access σ Live}
    (h : ∀ a {args args'} bs, List.Forall₂ (Live.Alike R) args args' →
      Mirrors S (Live.Alike R) ((body a args).during bs) ((body a args').during bs)) :
    (call name params body : Declaration σ).Mirrored S R := by
  intro o args args' hargs
  change Mirrors S (Live.Alike R) (o.lend .exclusive fun a => body a args).act
    (o.lend .exclusive fun a => body a args').act
  rw [ObjectRef.act_lend_exclusive, ObjectRef.act_lend_exclusive]
  exact (Mirrors.ofExcept (.refl (fun _ => rfl) _)).andThen fun a => h a _ hargs

end Containers

/-- The argument at a position, from alike arguments. -/
theorem argument_mirrors [OfLive β] [Pathless β] {args args' : List Live} {bs : Borrows}
    (h : List.Forall₂ (Live.Alike R) args args') (i : Nat) :
    Mirrors S Eq ((argument args i : Access σ β).during bs) ((argument args' i).during bs) :=
  .ofExcept (Pathless.converts (forall₂_getD h (.refl _) i))

section Object

variable [Stored σ γ] [HasPaths γ] (hγ : Keeps S R γ) {name : String} {type : ValueType}
include hγ

/-- A field beside the paths that is only read. -/
theorem viewed_mirrored [ToLive β] {get : γ → β}
    (hget : ∀ c x, get (HasPaths.paths.set c x) = get x := by intros; rfl) :
    (viewed name type get : Declaration σ).Mirrored S R := by
  refine getter_mirrored fun a s t hst => ?_
  rw [(hγ.get hst _).congr hget]
  exact .refl _

/-- A field that the paths are in. -/
theorem placed_mirrored [OfLive β] [ToLive β] [Relocating β] (hR : ∀ p, R p p) {get : γ → β}
    {set : β → γ → γ}
    (hget : ∀ {x x'}, Relocated R x x' → Relocating.Rel R (get x) (get x'))
    (hset : ∀ {b b' x x'}, Relocating.Rel R b b' → Relocated R x x' →
      Relocated R (set b x) (set b' x')) :
    (stored name type get set : Declaration σ).Mirrored S R := by
  refine ⟨getter_mirrored fun _ _ _ hst => Relocating.alike (hget (hγ.get hst _)), ?_⟩
  intro write hwrite o v w hvw
  cases hwrite
  dsimp only
  rw [act_convert, act_convert]
  exact (Mirrors.ofExcept (Relocating.converts hR hvw)).bind fun hb =>
    (Mirrors.ofExcept (.refl (fun _ => rfl) _)).andThen fun a =>
      .modify fun hst => hγ.modify hst a (hset hb)

/-- A field beside the paths. -/
theorem stored_mirrored [OfLive β] [ToLive β] [Pathless β] (hR : ∀ p, R p p) {get : γ → β}
    {set : β → γ → γ} (hget : ∀ c x, get (HasPaths.paths.set c x) = get x := by intros; rfl)
    (hset : ∀ b c x, set b (HasPaths.paths.set c x) = HasPaths.paths.set c (set b x) := by
      intros; rfl) :
    (stored name type get set : Declaration σ).Mirrored S R :=
  placed_mirrored hγ hR (fun h => (h.congr hget).symm) fun hb h => hb ▸ h.map (hset _)

theorem setter_mirrored [OfLive β] [Pathless β] {set : β → γ → γ}
    (hset : ∀ b c x, set b (HasPaths.paths.set c x) = HasPaths.paths.set c (set b x) := by
      intros; rfl) :
    (setter name type set : Declaration σ).Mirrored S R := by
  refine call_mirrored fun a {args args'} bs hargs => ?_
  simp only [Access.during_bind, Access.during_ofExcept, Access.during_modify, Access.during_pure]
  have hlast := forall₂_getLastD hargs (Live.Alike.refl .nothing)
  refine (Mirrors.ofExcept (Pathless.converts hlast)).andThen fun b => ?_
  have hmodify : Mirrors S Eq (.modify (a.modify (set b))) (.modify (a.modify (set b))) :=
    .modify fun hst => hγ.modify hst a fun h => h.map (hset b)
  exact hmodify.andThen fun _ => .pure (.refl _)

end Object

end Declaration

/-! ## Containers in the fields of objects -/

section Containers

variable [Stored σ γ] [HasPaths γ] (hγ : Keeps S R γ) {r : Ref γ} {v w : Live}
  (hvw : Live.Alike R v w)
include hγ hvw

/-- The list that the paths are in. -/
theorem Ref.append_mirrors_placed [OfLive β] [ToLive β] [Relocating β] (hR : ∀ p, R p p)
    {field : Lens γ (List β)}
    (h : ∀ {b b' x x'}, Relocating.Rel R b b' → Relocated R x x' →
      Relocated R (field.modify (· ++ [b]) x) (field.modify (· ++ [b']) x')) :
    Mirrors S Eq ((r.list field).append v) ((r.list field).append w) := by
  refine (Mirrors.ofExcept (Relocating.converts (β := β) hR hvw)).bind fun {b b'} hb =>
    .modify fun hst => ?_
  exact hγ.modify (f := field.modify (· ++ [b])) (g := field.modify (· ++ [b'])) hst r (h hb)

variable [OfLive β] [Pathless β]

theorem Ref.append_mirrors {field : Lens γ (List β)}
    (h : ∀ f c x,
      field.modify f (HasPaths.paths.set c x) = HasPaths.paths.set c (field.modify f x) := by
        intros; rfl) :
    Mirrors S Eq ((r.list field).append v) ((r.list field).append w) := by
  refine (Mirrors.ofExcept (Pathless.converts (β := β) hvw)).andThen fun b => .modify fun hst => ?_
  exact hγ.modify (f := field.modify (· ++ [b])) (g := field.modify (· ++ [b])) hst r fun hx =>
    hx.map (h _)

theorem Ref.insert_mirrors {field : Lens γ (Dictionary β)} {key : String}
    (h : ∀ f c x,
      field.modify f (HasPaths.paths.set c x) = HasPaths.paths.set c (field.modify f x) := by
        intros; rfl) :
    Mirrors S Eq ((r.map field).insert key v) ((r.map field).insert key w) := by
  refine (Mirrors.ofExcept (Pathless.converts (β := β) hvw)).andThen fun b => .modify fun hst => ?_
  exact hγ.modify (f := field.modify (·.insert key b)) (g := field.modify (·.insert key b)) hst r
    fun hx => hx.map (h _)

theorem Ref.set_mirrors {field : Lens γ (Option β)}
    (h : ∀ f c x,
      field.modify f (HasPaths.paths.set c x) = HasPaths.paths.set c (field.modify f x) := by
        intros; rfl) :
    Mirrors S Eq ((r.property field).set v) ((r.property field).set w) := by
  refine (Mirrors.ofExcept (Pathless.converts (β := β) hvw)).andThen fun b => .modify fun hst => ?_
  exact hγ.modify (f := field.set (some b)) (g := field.set (some b)) hst r fun hx =>
    hx.map (h fun _ => some b)

end Containers

end BuildReplay
