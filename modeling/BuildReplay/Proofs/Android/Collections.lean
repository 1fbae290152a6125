import BuildReplay.Proofs.Android.Outline
import BuildReplay.Proofs.Container
import Mathlib.Data.List.Nodup

/-! # The collections of an application

The three named collections, which hold all elements of an application. Which element a name stands
for is part of the outline. -/

namespace BuildReplay.Android

/-- The shape of applications. -/
def applicationShape : Shape Model :=
  .ofDeclarations (typeRef ApplicationExtension) ApplicationExtension.declarations

theorem host_shapeOf_application :
    host.shapeOf (typeRef ApplicationExtension) = pure applicationShape := rfl

namespace CollectionField

def key : CollectionField → String
  | buildTypes => "buildTypes"
  | productFlavors => "productFlavors"
  | signingConfigs => "signingConfigs"

/-- The type of the elements. -/
def element : CollectionField → TypeRef
  | buildTypes => typeRef BuildType
  | productFlavors => typeRef ProductFlavor
  | signingConfigs => typeRef SigningConfig

def slot (f : CollectionField) (a : Ref ApplicationExtension) : Slot := ⟨a.object, f.key⟩

variable (a : Ref ApplicationExtension) (f : CollectionField)

theorem named?_slot : named? (f.slot a) = some (f.collection a) := by
  cases f <;> rfl

theorem collection_detached : (f.collection a).Detached := by
  cases f <;> intro name m <;> rfl

theorem element_ne (r : Ref (f.collection a).Element) :
    ((f.collection a).handle r).type ≠ typeRef ApplicationExtension := by
  cases f <;> exact of_decide_eq_false rfl

/-- What a collection holds is part of the outline. -/
theorem entries_congr {m m' : Model} (h : m'.outline = m.outline) :
    (f.collection a).entries.get m' = (f.collection a).entries.get m := by
  have hlinks : (m'.applications.cell a.id).links = (m.applications.cell a.id).links :=
    congrFun (congrArg Outline.links h) a.id
  cases f with
  | buildTypes => exact congrArg Links.buildTypes hlinks
  | productFlavors => exact congrArg Links.productFlavors hlinks
  | signingConfigs => exact congrArg Links.signingConfigs hlinks

theorem names_congr {m m' : Model} (h : m'.outline = m.outline) :
    (f.collection a).names m' = (f.collection a).names m := by
  rw [NamedCollection.names, entries_congr a f h]
  rfl

theorem getByName_congr {m m' : Model} (h : m'.outline = m.outline) (name : String) :
    (f.collection a).getByName name m' = (f.collection a).getByName name m := by
  rw [NamedCollection.getByName, NamedCollection.find?, entries_congr a f h]
  rfl

theorem eq_buildTypes {f : CollectionField} (h : f.element = typeRef BuildType) : f = .buildTypes := by
  cases f with
  | buildTypes => rfl
  | productFlavors => exact absurd h (of_decide_eq_false rfl)
  | signingConfigs => exact absurd h (of_decide_eq_false rfl)

/-- The host makes the elements of the collection. -/
theorem maybeCreate_slot (name : String) :
    host.maybeCreate (f.slot a) name = (f.collection a).maybeCreate name := by
  rw [Host.maybeCreate, show host.named? (f.slot a) = some (f.collection a) from f.named?_slot a]

@[simp] theorem collection_element : (f.collection a).element = f.element := by
  cases f <;> rfl

end CollectionField

/-- All named collections of the host are those of applications. -/
theorem exists_of_named? {slot : Slot} {c : NamedCollection Model} (h : named? slot = some c) :
    ∃ (a : Ref ApplicationExtension) (f : CollectionField), slot = f.slot a ∧ c = f.collection a := by
  obtain ⟨⟨⟨type⟩, id⟩, field⟩ := slot
  unfold named? at h
  split at h
  · rename_i htype hfield
    cases htype
    cases hfield
    exact ⟨⟨id⟩, .buildTypes, rfl, (Option.some.inj h).symm⟩
  · rename_i htype hfield
    cases htype
    cases hfield
    exact ⟨⟨id⟩, .productFlavors, rfl, (Option.some.inj h).symm⟩
  · rename_i htype hfield
    cases htype
    cases hfield
    exact ⟨⟨id⟩, .signingConfigs, rfl, (Option.some.inj h).symm⟩
  · cases h

/-- Only a host without the collection refuses to make an element. -/
theorem host_maybeCreate_raises {slot : Slot} {name : String} {m m' : Model} {e : Error}
    (h : (host.maybeCreate slot name).Raises m e m') :
    named? slot = none ∧ e = Host.missing slot ∧ m' = m := by
  unfold Host.maybeCreate at h
  split at h
  · cases h
  · obtain ⟨rfl, rfl⟩ := Act.throw_raises.1 h
    exact ⟨‹_›, rfl, rfl⟩

/-- Making an element leaves a model as it is, or adds a new object to a collection that has none of
the name. -/
theorem maybeCreate_cases (slot : Slot) (name : String) (m : Model) :
    (host.maybeCreate slot name m).2 = m ∨
      ∃ (a : Ref ApplicationExtension) (f : CollectionField),
        (f.collection a).find? name m = none ∧
          (host.maybeCreate slot name m).2 = ((f.collection a).obtain name m).2 := by
  rcases hc : named? slot with _ | c
  · rw [Host.maybeCreate, show host.named? slot = none from hc]
    exact .inl rfl
  · rw [Host.maybeCreate, show host.named? slot = some c from hc]
    obtain ⟨a, f, -, rfl⟩ := exists_of_named? hc
    cases hfind : (f.collection a).find? name m with
    | some r => exact .inl (congrArg Prod.snd (NamedCollection.obtain_of_find? hfind))
    | none => exact .inr ⟨a, f, hfind, rfl⟩

end BuildReplay.Android
