import BuildReplay.Proofs.Container
import BuildReplay.Proofs.Lens
import BuildReplay.Shape.Typed
import Mathlib.Data.List.Nodup

/-! # Elements in a heap

The elements of a named collection lie in a heap. Looked up by name, they do not show the numbers
they lie under, nor the order in which they were made. -/

namespace BuildReplay

variable {σ α β : Type}

namespace Heap

theorem object_apart {i j : Nat} (h : i ≠ j) : (object i : Lens (Heap β) β).Apart (object j) := by
  intro a b heap
  simp only [object, put, mk.injEq, true_and]
  funext n
  by_cases hi : n = i
  · have hj : n ≠ j := hi ▸ h
    rw [if_pos hi, if_neg hj, if_pos hi]
  · rw [if_neg hi]
    by_cases hj : n = j
    · rw [if_pos hj, if_pos hj]
    · rw [if_neg hj, if_neg hj, if_neg hi]

/-- The element of a name. -/
def element? (h : Heap β) (es : List (String × Ref β)) (name : String) : Option β :=
  (es.find? (·.1 == name)).map fun e => h.cell e.2.id

/-- The entries of a collection: each name once, each of them with an object of its own. -/
structure Holds (h : Heap β) (es : List (String × Ref β)) : Prop where
  names : (es.map (·.1)).Nodup
  objects : (es.map (·.2.id)).Nodup
  made : ∀ e ∈ es, e.2.id < h.size

namespace Holds

variable {h : Heap β} {es : List (String × Ref β)} {name : String} {r : Ref β}

theorem find?_eq (hes : h.Holds es) (hmem : (name, r) ∈ es) :
    es.find? (·.1 == name) = some (name, r) := by
  cases hfind : es.find? (·.1 == name) with
  | none => simpa using List.find?_eq_none.1 hfind _ hmem
  | some e =>
      have hname : e.1 = name := by simpa using List.find?_some hfind
      have heq := List.inj_on_of_nodup_map hes.names (List.mem_of_find?_eq_some hfind) hmem hname
      rw [heq]

theorem element?_of_mem (hes : h.Holds es) (hmem : (name, r) ∈ es) :
    h.element? es name = some (h.cell r.id) := by
  rw [element?, hes.find?_eq hmem, Option.map_some]

theorem put (hes : h.Holds es) (id : Nat) (b : β) : (h.put id b).Holds es :=
  ⟨hes.names, hes.objects, hes.made⟩

/-- Another object in the place of an element is the element of that name alone. -/
theorem element?_put (hes : h.Holds es) (hmem : (name, r) ∈ es) (b : β) :
    (h.put r.id b).element? es = Function.update (h.element? es) name (some b) := by
  funext n
  by_cases hn : n = name
  · subst hn
    rw [(hes.put r.id b).element?_of_mem hmem, h.cell_put_self, Function.update_self]
  · rw [Function.update_of_ne hn]
    refine Option.map_congr fun e he => h.cell_put_of_ne b fun hid => hn ?_
    have hname : e.1 = n := by simpa using List.find?_some he
    have heq := List.inj_on_of_nodup_map hes.objects (List.mem_of_find?_eq_some he) hmem hid
    rw [← hname, heq]

theorem of_size {h' : Heap β} (hes : h.Holds es) (hsize : h'.size = h.size) : h'.Holds es :=
  ⟨hes.names, hes.objects, hsize ▸ hes.made⟩

theorem alloc (hes : h.Holds es) (b : β) : (h.alloc b).2.Holds es :=
  ⟨hes.names, hes.objects, fun e he => Nat.lt_succ_of_lt (hes.made e he)⟩

theorem append (hes : h.Holds es) (hname : name ∉ es.map (·.1)) (b : β) :
    (h.alloc b).2.Holds (es ++ [(name, ⟨h.size⟩)]) where
  names := by
    rw [List.map_append, List.nodup_append]
    refine ⟨hes.names, List.nodup_singleton name, fun n hn n' hn' heq => hname ?_⟩
    obtain rfl : n' = name := List.mem_singleton.1 hn'
    exact heq ▸ hn
  objects := by
    rw [List.map_append, List.nodup_append]
    refine ⟨hes.objects, List.nodup_singleton h.size, fun i hi i' hi' => ?_⟩
    obtain ⟨e, he, rfl⟩ := List.mem_map.1 hi
    rw [List.mem_singleton.1 hi']
    exact Nat.ne_of_lt (hes.made e he)
  made e he := by
    rcases List.mem_append.1 he with he | he
    · exact Nat.lt_succ_of_lt (hes.made e he)
    · rw [List.mem_singleton.1 he]
      exact Nat.lt_succ_self h.size

/-- A new object is an element of a name of its own. -/
theorem element?_append (hes : h.Holds es) (hname : name ∉ es.map (·.1)) (b : β) :
    (h.alloc b).2.element? (es ++ [(name, ⟨h.size⟩)]) =
      Function.update (h.element? es) name (some b) := by
  funext n
  by_cases hn : n = name
  · subst hn
    rw [(hes.append hname b).element?_of_mem (List.mem_append_right es (List.mem_singleton_self _)),
      Function.update_self]
    exact congrArg some (h.cell_put_self h.size b)
  · have hlast : List.find? (·.1 == n) [(name, (⟨h.size⟩ : Ref β))] = none := by
      simpa using Ne.symm hn
    rw [Function.update_of_ne hn, element?, List.find?_append, hlast, Option.or_none]
    refine Option.map_congr fun e he => h.cell_put_of_ne b ?_
    exact Nat.ne_of_lt (hes.made e (List.mem_of_find?_eq_some he))

/-- The elements by their names determine the elements up to their order. -/
theorem perm {h' : Heap β} {es' : List (String × Ref β)} (hes : h.Holds es) (hes' : h'.Holds es')
    (heq : h'.element? es' = h.element? es) :
    (es'.map fun e => (e.1, h'.cell e.2.id)).Perm (es.map fun e => (e.1, h.cell e.2.id)) := by
  have hnodup : ∀ {h : Heap β} {es : List (String × Ref β)}, h.Holds es →
      (es.map fun e => (e.1, h.cell e.2.id)).Nodup := by
    intro h es hes
    refine List.Nodup.of_map Prod.fst ?_
    rw [List.map_map]
    exact hes.names
  have hmem : ∀ {h : Heap β} {es : List (String × Ref β)}, h.Holds es → ∀ e : String × β,
      e ∈ es.map (fun e => (e.1, h.cell e.2.id)) ↔ h.element? es e.1 = some e.2 := by
    intro h es hes e
    constructor
    · intro he
      obtain ⟨x, hx, rfl⟩ := List.mem_map.1 he
      exact hes.element?_of_mem hx
    · intro he
      obtain ⟨x, hx, hcell⟩ := Option.map_eq_some_iff.1 he
      have hname : x.1 = e.1 := by simpa using List.find?_some hx
      exact List.mem_map.2 ⟨x, List.mem_of_find?_eq_some hx, Prod.ext hname hcell⟩
  refine (List.perm_ext_iff_of_nodup (hnodup hes') (hnodup hes)).2 fun e => ?_
  rw [hmem hes', hmem hes, heq]

/-- Where no entry was taken away, the elements by their names determine the entries. -/
theorem entries_eq {h' : Heap β} {es' : List (String × Ref β)} (hes : h.Holds es)
    (hes' : h'.Holds es') (hkept : es <+: es') (heq : h'.element? es' = h.element? es) :
    es' = es := by
  have hlength := (hes.perm hes' heq).length_eq
  rw [List.length_map, List.length_map] at hlength
  exact (hkept.eq_of_length hlength.symm).symm

theorem cell_eq {h' : Heap β} (hes : h.Holds es) (hes' : h'.Holds es)
    (heq : h'.element? es = h.element? es) {e : String × Ref β} (he : e ∈ es) :
    h'.cell e.2.id = h.cell e.2.id := by
  have hcell := congrFun heq e.1
  rw [hes'.element?_of_mem he, hes.element?_of_mem he] at hcell
  exact Option.some.inj hcell

end Holds

end Heap

/-- A change of one object is not seen in another one. -/
theorem Ref.get_modify_of_ne [Stored σ α] {a b : Ref α} (h : a ≠ b) (f : α → α) (s : σ) :
    a.get (b.modify f s) = a.get s := by
  have hid : a.id ≠ b.id := fun hid => h (congrArg Ref.mk hid)
  exact (((Heap.object_apart hid).comp Stored.heap).get_set _ s)

/-! ## Collections in the fields of objects -/

section Collections

variable [Stored σ α] [Stored σ β] (field : Lens α (List (String × Ref β))) (make : String → β)
  (happart : (Stored.heap : Lens σ (Heap β)).Apart (Stored.heap : Lens σ (Heap α))) (a : Ref α)
  (name : String) {s : σ}
  (hes : ((Stored.heap : Lens σ (Heap β)).get s).Holds (field.get (a.get s)))
include happart hes

/-- Making the element of a name where it is missing. -/
theorem Ref.obtain_eq :
    ∃ (es : List (String × Ref β)) (h : Heap β) (r : Ref β) (s₁ : σ),
      (a.collection field make).obtain name s = (r, s₁) ∧
      s₁ = a.modify (field.set es) (Stored.heap.set h s) ∧
      h.Holds es ∧ (name, r) ∈ es ∧
      h.element? es = (Lens.point name).modify (fun b? => some (b?.getD (make name)))
        (((Stored.heap : Lens σ (Heap β)).get s).element? (field.get (a.get s))) := by
  let heap : Lens σ (Heap β) := Stored.heap
  let c : NamedCollection σ := a.collection field make
  have hapart : heap.Apart (a.place.comp field) := (happart.comp_right _).comp_right field
  cases hfind : c.find? name s with
  | some r =>
      obtain ⟨⟨n, r'⟩, hfind', rfl⟩ := Option.map_eq_some_iff.1 hfind
      obtain rfl : n = name := by simpa using List.find?_some hfind'
      have hmem : (n, r') ∈ field.get (a.get s) := List.mem_of_find?_eq_some hfind'
      refine ⟨field.get (a.get s), heap.get s, r', s, NamedCollection.obtain_of_find? hfind, ?_, hes,
        hmem, ?_⟩
      · rw [heap.set_get]
        exact ((a.place.comp field).set_get s).symm
      · have helement := hes.element?_of_mem hmem
        simp only [Lens.modify, Lens.point, helement, Option.getD_some]
        exact (Function.update_eq_self_iff.2 helement.symm).symm
  | none =>
      have hname : name ∉ (field.get (a.get s)).map (·.1) := fun hmem => by
        simpa [hfind] using (NamedCollection.find?_isSome_iff (c := c)).2 hmem
      refine ⟨field.get (a.get s) ++ [(name, ⟨(heap.get s).size⟩)],
        ((heap.get s).alloc (make name)).2, ⟨(heap.get s).size⟩, _,
        NamedCollection.obtain_of_find?_none hfind, ?_, hes.append hname _,
        List.mem_append_right _ (List.mem_singleton_self _), ?_⟩
      · have hentries := hapart.symm.get_set ((heap.get s).alloc (make name)).2 s
        exact congrArg (fun es => (a.place.comp field).set (es ++ [(name, ⟨(heap.get s).size⟩)])
          (heap.set ((heap.get s).alloc (make name)).2 s)) hentries
      · have hnone : (heap.get s).element? (field.get (a.get s)) name = none := by
          rw [Heap.element?, List.find?_eq_none.2, Option.map_none]
          intro e he heq
          exact hname (List.mem_map.2 ⟨e, he, by simpa using heq⟩)
        rw [hes.element?_append hname, Lens.modify, Lens.point]
        dsimp only
        rw [hnone, Option.getD_none]

/-- Making the element of a name where it is missing, and then changing it, sets the element of that
name and no other one. -/
theorem Ref.obtain_modify :
    ∃ (r : Ref β) (s₁ : σ), (a.collection field make).obtain name s = (r, s₁) ∧
      ∀ f : β → β, ∃ (es : List (String × Ref β)) (h : Heap β), h.Holds es ∧
        h.element? es = (Lens.point name).modify (fun b? => some (f (b?.getD (make name))))
          (((Stored.heap : Lens σ (Heap β)).get s).element? (field.get (a.get s))) ∧
        r.modify f s₁ = a.modify (field.set es) (Stored.heap.set h s) := by
  obtain ⟨es, h, r, _, hobtain, rfl, hholds, hmem, helement⟩ :=
    Ref.obtain_eq field make happart a name hes
  refine ⟨r, _, hobtain, fun f => ⟨es, h.put r.id (f (h.cell r.id)), hholds.put _ _, ?_, ?_⟩⟩
  · have hcell := hholds.element?_of_mem hmem
    rw [hholds.element?_put hmem]
    rw [helement] at hcell ⊢
    simp only [Lens.modify, Lens.point, Function.update_self, Function.update_idem] at hcell ⊢
    rw [Option.some.inj hcell]
  · let heap : Lens σ (Heap β) := Stored.heap
    have hapart : heap.Apart (a.place.comp field) := (happart.comp_right _).comp_right field
    change heap.set ((Heap.object r.id).modify f
        (heap.get ((a.place.comp field).set es (heap.set h s))))
      ((a.place.comp field).set es (heap.set h s)) = (a.place.comp field).set es _
    rw [hapart.get_set, heap.get_set, hapart, heap.set_set]
    rfl

end Collections

end BuildReplay
