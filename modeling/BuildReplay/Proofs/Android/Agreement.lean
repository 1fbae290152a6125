import BuildReplay.Proofs.Android.Outline
import BuildReplay.Proofs.Coercion
import BuildReplay.Proofs.Refusal

/-! # The types of the application model agree with its host

Each declaration takes what it declares, and the containers do. Only the initialization of a build
type with itself is refused. -/

namespace BuildReplay.Android

open Act

instance : Takes JavaVersion (.enumeration (enumRef JavaVersion)) where
  exists_ofLive h := by
    cases h with
    | enumeration hmem =>
        obtain ⟨version, htake, -⟩ := Enumerated.exists_ofLive (α := JavaVersion) hmem
        exact ⟨version, htake⟩

/-- The call initializes a build type with itself, and the refusal tells its name. -/
def InitSelf (c : Refusal Model) : Prop :=
  ∃ b : Ref BuildType, c.member = "initWith" ∧ c.object = b.object ∧
    c.arguments = [.object b.object] ∧
    c.error = .host (BuildType.selfRefusal (b.get c.state : BuildType).name)

theorem InitSelf.object {c : Refusal Model} (h : InitSelf c) : ∃ o, .object o ∈ c.arguments := by
  obtain ⟨b, -, -, harguments, -⟩ := h
  exact ⟨b.object, harguments ▸ List.mem_cons_self⟩

theorem shapeOf_succeeds {t : TypeRef} {shape : Shape Model} (h : shape? t = some shape) :
    (host.shapeOf t).Succeeds := fun m => ⟨shape, m, host_shapeOf_gives.2 ⟨h, rfl⟩⟩

/-! ## Declarations -/

open BuildReplay.Declaration

theorem BuildType.takeOver_raises {b other : Ref BuildType} {m m' : Model} {e : Error}
    (h : ((BuildType.takeOver b other).during
      (Borrows.nothing.set b.object .writer)).Raises m e m') :
    other = b ∧ e = .host (BuildType.selfRefusal (b.get m : BuildType).name) := by
  rw [takeOver_eq] at h
  split at h
  · rename_i hother
    rcases bind_raises.1 h with h | ⟨name, m₁, hname, h⟩
    · exact absurd h not_read_raises
    · obtain ⟨rfl, rfl⟩ := read_gives.1 hname
      exact ⟨hother, (throw_raises.1 h).1.symm⟩
  · rcases bind_raises.1 h with h | ⟨_, m₁, -, h⟩
    · exact absurd h not_modify_raises
    · exact absurd h not_pure_raises

theorem BuildType.declarations_agree :
    ∀ d ∈ BuildType.declarations, d.Agrees host (typeRef BuildType) InitSelf := by
  simp only [BuildType.declarations, List.forall_mem_cons]
  refine ⟨viewed_agrees rfl rfl, stored_agrees rfl rfl, stored_agrees rfl rfl,
    stored_agrees rfl rfl, stored_agrees rfl rfl, stored_agrees rfl rfl, stored_agrees rfl rfl,
    list_agrees rfl rfl fun _ => rfl, list_agrees rfl rfl fun _ => rfl,
    map_agrees rfl rfl fun _ => rfl, call_agrees rfl (fun p hp => ?_) ?_,
    fun d hd => absurd hd List.not_mem_nil⟩
  · rw [List.mem_singleton.1 hp]
    rintro _ ⟨⟩
    exact shapeOf_succeeds rfl
  · intro b args m e m' hargs h
    obtain ⟨v, rest, hv, hrest, rfl⟩ := List.forall₂_cons_right_iff.1 hargs
    cases hrest
    cases hv with
    | @object o _ ho =>
        obtain ⟨other, rfl⟩ := ObjectRef.exists_cell ho
        rw [Access.during_bind, argument_object, pure_bind] at h
        obtain ⟨rfl, rfl⟩ := takeOver_raises h
        exact ⟨other, rfl, rfl, rfl, rfl⟩

theorem ApplicationExtension.declarations_agree :
    ∀ d ∈ ApplicationExtension.declarations,
      d.Agrees host (typeRef ApplicationExtension) InitSelf := by
  simp only [ApplicationExtension.declarations, List.forall_mem_cons]
  refine ⟨stored_agrees rfl rfl, stored_agrees rfl rfl, viewed_object_agrees rfl,
    collection_agrees rfl fun _ => rfl, collection_agrees rfl fun _ => rfl,
    collection_agrees rfl fun _ => rfl, viewed_object_agrees rfl, list_agrees rfl rfl fun _ => rfl,
    setter_agrees rfl rfl, call_agrees rfl (fun p hp => ?_) ?_,
    fun d hd => absurd hd List.not_mem_nil⟩
  · rw [List.mem_singleton.1 hp]
    exact knows_of_isScalar rfl
  · intro a args m e m' hargs h
    obtain ⟨v, rest, hv, hrest, rfl⟩ := List.forall₂_cons_right_iff.1 hargs
    cases hrest
    cases hv
    cases h

theorem declarationTable_agrees :
    ∀ e ∈ declarationTable, ∀ d ∈ e.2, d.Agrees host e.1 InitSelf := by
  simp only [declarationTable, List.forall_mem_cons, DefaultConfig.declarations,
    ProductFlavor.declarations, SigningConfig.declarations, CompileOptions.declarations,
    VariantBuilder.declarations, Variant.declarations]
  have hnil : ∀ t, ∀ d ∈ ([] : List (Declaration Model)), d.Agrees host t InitSelf :=
    fun _ d hd => absurd hd List.not_mem_nil
  refine ⟨ApplicationExtension.declarations_agree, ?_, BuildType.declarations_agree, ?_, ?_, ?_, ?_,
    ?_, fun e he => absurd he List.not_mem_nil⟩
  · exact ⟨stored_agrees rfl rfl, stored_agrees rfl rfl, stored_agrees rfl rfl,
      stored_agrees rfl rfl, stored_agrees rfl rfl, stored_agrees rfl rfl, stored_agrees rfl rfl,
      map_agrees rfl rfl fun _ => rfl, hnil _⟩
  · exact ⟨viewed_agrees rfl rfl, stored_agrees rfl rfl, stored_agrees rfl rfl,
      stored_agrees rfl rfl, stored_agrees rfl rfl, map_agrees rfl rfl fun _ => rfl, hnil _⟩
  · exact ⟨viewed_agrees rfl rfl, stored_agrees rfl rfl, stored_agrees rfl rfl,
      stored_agrees rfl rfl, stored_agrees rfl rfl, stored_agrees rfl rfl, hnil _⟩
  · exact ⟨stored_agrees rfl rfl, setter_agrees rfl rfl, setter_agrees rfl rfl, hnil _⟩
  · exact ⟨viewed_agrees rfl rfl, stored_agrees rfl rfl, stored_agrees rfl rfl,
      stored_agrees rfl rfl, stored_agrees rfl rfl, hnil _⟩
  · exact ⟨viewed_agrees rfl rfl, property_agrees rfl rfl fun _ => rfl,
      map_agrees rfl rfl fun _ => rfl, list_agrees rfl rfl fun _ => rfl,
      property_agrees rfl rfl fun _ => rfl, hnil _⟩

theorem shape?_agrees {t : TypeRef} {shape : Shape Model} (h : shape? t = some shape) :
    shape.Agrees host InitSelf t := by
  obtain ⟨ds, hmem, rfl⟩ := exists_of_shape? h
  exact ⟨ds, Shape.ofDeclarations_describedBy t ds, declarationTable_agrees _ hmem⟩

theorem host_agrees : host.Agrees InitSelf := fun h => shape?_agrees (host_shapeOf_gives.1 h).1

end BuildReplay.Android
