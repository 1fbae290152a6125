import BuildReplay.Lab.Host
import BuildReplay.Proofs.Resolution

/-! # Searches of the frames

Names and members are looked up in the frames around a key from the inside out. A frame that fits
in part, by a member of another number of parameters or a collection without the name, hides
nothing behind it, and gives nothing away either. -/

namespace BuildReplay

variable {σ : Type}

/-- The first of the frames, and so the innermost, of which something holds. -/
def Innermost (P : Frame σ → Prop) (frames : List (Frame σ)) (f : Frame σ) : Prop :=
  ∃ inner outer, frames = inner ++ f :: outer ∧ P f ∧ ∀ g ∈ inner, ¬P g

section Search

variable {β : Type} {P : Frame σ → Prop} {find : Frame σ → Option β} {frames : List (Frame σ)}
  (hP : ∀ f, P f ↔ ∃ b, find f = some b)
include hP

/-- A search from the inside out ends in the innermost frame where it finds something. -/
theorem findSome?_eq_some_iff_innermost {b : β} :
    frames.findSome? find = some b ↔ ∃ f, Innermost P frames f ∧ find f = some b := by
  rw [List.findSome?_eq_some_iff]
  constructor
  · rintro ⟨inner, f, outer, hframes, hb, hinner⟩
    refine ⟨f, ⟨inner, outer, hframes, (hP f).2 ⟨b, hb⟩, fun g hg hPg => ?_⟩, hb⟩
    obtain ⟨b', hb'⟩ := (hP g).1 hPg
    rw [hinner g hg] at hb'
    cases hb'
  · rintro ⟨f, ⟨inner, outer, hframes, -, hinner⟩, hb⟩
    refine ⟨inner, f, outer, hframes, hb, fun g hg => ?_⟩
    exact Option.eq_none_iff_forall_ne_some.2 fun b hgb => hinner g hg ((hP g).2 ⟨b, hgb⟩)

theorem findSome?_eq_none_iff_forall :
    frames.findSome? find = none ↔ ∀ f ∈ frames, ¬P f := by
  rw [List.findSome?_eq_none_iff]
  refine forall₂_congr fun f _ => ?_
  rw [hP, Option.eq_none_iff_forall_ne_some, not_exists]

end Search

/-! ## Members -/

/-- The frame of an object whose shape has a member of that name with so many parameters. -/
inductive Frame.Offers (name : String) (arity : Nat) : Frame σ → Prop where
  | object {self : ObjectRef} {shape : Shape σ} {ms : List (Member σ)} {m : Member σ} :
      shape.members? name = some ms → m ∈ ms → m.arity = arity →
      Offers name arity (.object self shape)

/-- The overload is the first one of the frame's object with that name and so many parameters. -/
inductive Frame.FirstOverload (name : String) (arity : Nat) : Frame σ → Member σ → Prop where
  | object {self : ObjectRef} {shape : Shape σ} {before after : List (Member σ)} {m : Member σ} :
      shape.members? name = some (before ++ m :: after) → m.arity = arity →
      (∀ m' ∈ before, m'.arity ≠ arity) → FirstOverload name arity (.object self shape) m

section Members

variable {name : String} {arity : Nat} {f : Frame σ} {m : Member σ} {frames : List (Frame σ)}

theorem Frame.findMember?_eq_some_iff :
    f.findMember? name arity = some m ↔ f.FirstOverload name arity m := by
  cases f with
  | collection element slot => exact iff_of_false nofun nofun
  | object self shape =>
      rw [Frame.findMember?, Frame.overloads, Shape.overloads, List.head?_filter,
        List.find?_eq_some_iff_append]
      constructor
      · rintro ⟨harity, before, after, hms, hbefore⟩
        cases hmembers : shape.members? name with
        | none => simp [hmembers] at hms
        | some ms =>
            rw [hmembers, Option.getD_some] at hms
            exact .object (hmembers.trans (congrArg some hms)) (eq_of_beq harity)
              fun m' hm' => by simpa using hbefore m' hm'
      · intro h
        cases h with
        | @object _ _ before after _ hmembers harity hbefore =>
            exact ⟨beq_iff_eq.2 harity, before, after, by rw [hmembers, Option.getD_some],
              fun m' hm' => by simpa using hbefore m' hm'⟩

theorem Frame.offers_iff : f.Offers name arity ↔ ∃ m, f.findMember? name arity = some m := by
  constructor
  · intro h
    cases h with
    | @object self shape ms m hmembers hm harity =>
        refine Option.isSome_iff_exists.1 ?_
        rw [Frame.findMember?, Frame.overloads, Shape.overloads, List.head?_filter, hmembers,
          Option.getD_some, List.find?_isSome]
        exact ⟨m, hm, beq_iff_eq.2 harity⟩
  · rintro ⟨m, hm⟩
    cases findMember?_eq_some_iff.1 hm with
    | object hmembers harity _ => exact .object hmembers (by simp) harity

theorem offers_iff_found (g : Frame σ) : g.Offers name arity ↔
    ∃ found, (g.findMember? name arity).map (fun m => (g, m)) = some found := by
  rw [Frame.offers_iff, ← Option.isSome_iff_exists, ← Option.isSome_iff_exists, Option.isSome_map]

theorem findMember?_eq_some_iff :
    findMember? name arity frames = some (f, m) ↔
      Innermost (Frame.Offers name arity) frames f ∧ f.FirstOverload name arity m := by
  rw [findMember?, findSome?_eq_some_iff_innermost offers_iff_found,
    ← Frame.findMember?_eq_some_iff]
  constructor
  · rintro ⟨g, hinnermost, hg⟩
    obtain ⟨m', hm', heq⟩ := Option.map_eq_some_iff.1 hg
    cases heq
    exact ⟨hinnermost, hm'⟩
  · rintro ⟨hinnermost, hm⟩
    exact ⟨f, hinnermost, by rw [hm]; rfl⟩

theorem findMember?_eq_none_iff :
    findMember? name arity frames = none ↔ ∀ f ∈ frames, ¬f.Offers name arity :=
  findSome?_eq_none_iff_forall offers_iff_found

/-- Overloads leave a call without an outcome where there is none of them. -/
theorem Frame.callFirst_gives_none {root : Path} {self : ObjectRef} {params : List Value}
    {path : String} {mismatch : Option Error} {ms : List (Member σ)} {s s' : σ}
    (h : (callFirst root self params path mismatch ms).Gives s none s') :
    mismatch = none ∧ ms = [] := by
  induction ms generalizing mismatch with
  | nil =>
      cases mismatch with
      | none => exact ⟨rfl, rfl⟩
      | some e => exact absurd h Act.not_throw_gives
  | cons m rest ih =>
      simp only [callFirst] at h
      split at h
      · obtain ⟨live, -, hlive⟩ := Act.map_gives.1 h
        cases hlive
      · have hmismatch := (ih h).1
        cases mismatch <;> cases hmismatch
      · exact absurd h Act.not_throw_gives

/-- A call of a member that was found is decided by the frame it was found in. -/
theorem callMember_of_findMember? (h : findMember? name arity frames = some (f, m)) {root : Path}
    {params : List Value} (hparams : params.length = arity) {path : String} {s s' : σ} :
    ¬(f.callMember root name params path).Gives s none s' := by
  obtain ⟨-, hm⟩ := mem_of_findMember? h
  intro hgives
  cases f with
  | collection element slot => cases hm
  | object self shape =>
      rw [Frame.callMember, hparams] at hgives
      rw [Frame.findMember?, Frame.overloads, (Frame.callFirst_gives_none hgives).2] at hm
      cases hm

end Members

/-! ## Elements -/

/-- The element of a name in the collection behind a handle. -/
def Host.element? (host : Host σ) (slot : Slot) (name : String) (s : σ) : Option ObjectRef :=
  (host.named? slot).bind fun c => c.getByName name s

theorem Host.getByName_apply (host : Host σ) (slot : Slot) (name : String) (s : σ) :
    host.getByName slot name s = (.ok (host.element? slot name s), s) := by
  unfold Host.getByName Host.element?
  cases host.named? slot <;> rfl

/-- The frame of a collection with elements of the type, which has one of the name. -/
inductive Frame.Holds (host : Host σ) (t : TypeRef) (name : String) (s : σ) : Frame σ → Prop where
  | collection {slot : Slot} {r : ObjectRef} :
      host.element? slot name s = some r → Holds host t name s (.collection t slot)

/-- What a text names in one frame. -/
def Frame.element? (host : Host σ) (t : TypeRef) (name : String) (s : σ) :
    Frame σ → Option ObjectRef
  | .collection element slot => if t = element then host.element? slot name s else none
  | .object _ _ => none

section Elements

variable {host : Host σ} {t : TypeRef} {name path : String} {frames : List (Frame σ)} {f : Frame σ}
  {r : ObjectRef} {s s' : σ}

theorem Frame.element?_eq_some_iff :
    f.element? host t name s = some r ↔
      ∃ slot, f = .collection t slot ∧ host.element? slot name s = some r := by
  cases f with
  | object self shape => simp [Frame.element?]
  | collection element slot =>
      simp only [Frame.element?]
      split <;> simp_all [eq_comm]

theorem Frame.holds_iff : f.Holds host t name s ↔ ∃ r, f.element? host t name s = some r := by
  simp only [Frame.element?_eq_some_iff]
  constructor
  · rintro ⟨h⟩
    exact ⟨_, _, rfl, h⟩
  · rintro ⟨r, slot, rfl, h⟩
    exact .collection h

theorem Frame.resolve_text (f : Frame σ) :
    f.resolve host (.string name) (.object t) path s =
      (.ok ((f.element? host t name s).map .object), s) := by
  cases f with
  | object self shape => rfl
  | collection element slot =>
      simp only [Frame.resolve, Frame.element?]
      split
      · rw [Act.bind_apply, Host.getByName_apply]
        rfl
      · rfl

/-- A text is looked up in the frames without a change, whatever becomes of it. -/
theorem resolveSymbol_text (frames : List (Frame σ)) :
    resolveSymbol host (.string name) (.object t) path frames s =
      (.ok ((frames.findSome? fun f => f.element? host t name s).map .object), s) := by
  induction frames with
  | nil => rfl
  | cons f outer ih =>
      rw [resolveSymbol, Act.bind_apply, f.resolve_text, List.findSome?_cons]
      cases f.element? host t name s with
      | none => exact ih
      | some r => rfl

theorem resolveSymbol_text_some_iff {live : Live} :
    (resolveSymbol host (.string name) (.object t) path frames).Gives s (some live) s' ↔
      s' = s ∧ ∃ slot r, Innermost (Frame.Holds host t name s) frames (.collection t slot) ∧
        host.element? slot name s = some r ∧ live = .object r := by
  rw [Act.Gives, resolveSymbol_text, Prod.mk.injEq, Except.ok.injEq, Option.map_eq_some_iff,
    and_comm, eq_comm (a := s)]
  refine and_congr_right fun _ => ?_
  simp only [findSome?_eq_some_iff_innermost fun f => Frame.holds_iff,
    Frame.element?_eq_some_iff]
  constructor
  · rintro ⟨r, ⟨f, hinnermost, slot, rfl, hr⟩, rfl⟩
    exact ⟨slot, r, hinnermost, hr, rfl⟩
  · rintro ⟨slot, r, hinnermost, hr, rfl⟩
    exact ⟨r, ⟨_, hinnermost, slot, rfl, hr⟩, rfl⟩

theorem resolveSymbol_text_none_iff :
    (resolveSymbol host (.string name) (.object t) path frames).Gives s none s' ↔
      s' = s ∧ ∀ f ∈ frames, ¬f.Holds host t name s := by
  rw [Act.Gives, resolveSymbol_text, Prod.mk.injEq, Except.ok.injEq, Option.map_eq_none_iff,
    and_comm, eq_comm (a := s), findSome?_eq_none_iff_forall fun f => Frame.holds_iff]

end Elements

/-! ## All searches -/

/-- The searches of some frames end in the innermost ones that fit. -/
structure FromInnermost (host : Host σ) (frames : List (Frame σ)) : Prop where
  /-- A member is the first overload in the innermost object with one that fits. -/
  member_iff : ∀ {name arity f m}, findMember? name arity frames = some (f, m) ↔
    Innermost (Frame.Offers name arity) frames f ∧ f.FirstOverload name arity m
  no_member_iff : ∀ {name arity}, findMember? name arity frames = none ↔
    ∀ f ∈ frames, ¬f.Offers name arity
  /-- A call with as many parameters is decided there. -/
  called : ∀ {name arity f m}, findMember? name arity frames = some (f, m) →
    ∀ {root params path s s'}, params.length = arity →
      ¬(f.callMember root name params path).Gives s none s'
  /-- A text is the element of that name in the innermost collection of the type that has one. -/
  element_iff : ∀ {name t path s live s'},
    (resolveSymbol host (.string name) (.object t) path frames).Gives s (some live) s' ↔
      s' = s ∧ ∃ slot r, Innermost (Frame.Holds host t name s) frames (.collection t slot) ∧
        host.element? slot name s = some r ∧ live = .object r
  no_element_iff : ∀ {name t path s s'},
    (resolveSymbol host (.string name) (.object t) path frames).Gives s none s' ↔
      s' = s ∧ ∀ f ∈ frames, ¬f.Holds host t name s
  /-- A table is put to the factories of the type, whichever objects are around. -/
  table : host.Recalls → (∃ self shape, .object self shape ∈ frames) → ∀ entries t path,
    resolveSymbol host (.table entries) t path frames =
      match Frame.factoryCall? (.table entries) with
      | some (factory, argument) => invokeFactory host t factory argument path
      | none => pure none

/-- Searches of the frames end in the innermost ones that fit, whatever fits in part before them. -/
theorem search_fromInnermost (host : Host σ) (frames : List (Frame σ)) :
    FromInnermost host frames where
  member_iff := findMember?_eq_some_iff
  no_member_iff := findMember?_eq_none_iff
  called h _ _ _ _ _ hparams := callMember_of_findMember? h hparams
  element_iff := resolveSymbol_text_some_iff
  no_element_iff := resolveSymbol_text_none_iff
  table hhost hframes entries t path := by
    obtain ⟨self, shape, hframe⟩ := hframes
    rw [resolveSymbol_table hhost hframe]
    rfl

section Target

open Lab

/-- The frame of a module. -/
def moduleFrame : Frame (World × ShapeCache World) :=
  .object ⟨typeRef Module, 0⟩
    ((Shape.ofDeclarations (typeRef Module) (Module.fields ++ Module.members)).within .fst)

/-- The frames of a target in a module. -/
def targetFrames : List (Frame (World × ShapeCache World)) := [
  .object ⟨typeRef Target, 0⟩
    ((Shape.ofDeclarations (typeRef Target) Target.declarations).within .fst),
  .collection (typeRef Target) ⟨⟨typeRef Module, 0⟩, "targets"⟩,
  moduleFrame]

set_option maxRecDepth 8000 in
/-- The target has a member of the name too, but it takes no parameter. -/
theorem search_fromInnermost_target :
    ∃ m, findMember? "defaultFile" 1 targetFrames = some (moduleFrame, m) ∧
      Innermost (Frame.Offers "defaultFile" 1) targetFrames moduleFrame ∧
      (∀ s s', ¬(moduleFrame.callMember ⟨"/"⟩ "defaultFile" [.string "a.txt"] "targets.x").Gives s
        none s') ∧
      resolveSymbol Lab.host.cached (.table [("of", .string "3")]) (.object versionType) "targets.x"
          targetFrames =
        invokeFactory Lab.host.cached (.object versionType) "of" "3" "targets.x" := by
  have h := search_fromInnermost Lab.host.cached targetFrames
  have hfound : ∃ m, findMember? "defaultFile" 1 targetFrames = some (moduleFrame, m) := ⟨_, rfl⟩
  obtain ⟨m, hm⟩ := hfound
  exact ⟨m, hm, (h.member_iff.1 hm).1, fun s s' => h.called hm rfl,
    h.table (Host.cached_recalls _) ⟨_, _, List.mem_cons_self⟩ _ _ _⟩

end Target

end BuildReplay
