import BuildReplay.Host.Container
import BuildReplay.Proofs.Act
import BuildReplay.Proofs.Lens

/-! # Contents of containers

Lists, maps and cells take items one after the other. A named collection gives out the element of a
name, and makes it once. -/

namespace BuildReplay

variable {σ : Type}

/-! ## Items -/

theorem foldl_append_items (c : Collection σ) (added : List c.Item) (s : σ) :
    added.foldl (fun s a => c.items.modify (· ++ [a]) s) s = c.items.modify (· ++ added) s := by
  induction added generalizing s with
  | nil => simp
  | cons a added ih =>
      rw [List.foldl_cons, ih, Lens.modify_modify]
      simp [Function.comp_def]

theorem foldl_insert_entries (m : MapSink σ) (added : List (String × m.Item)) (s : σ) :
    added.foldl (fun s e => m.entries.modify (·.insert e.1 e.2) s) s =
      m.entries.modify (fun d => added.foldl (fun d e => d.insert e.1 e.2) d) s := by
  induction added generalizing s with
  | nil => simp
  | cons e added ih =>
      rw [List.foldl_cons, ih, Lens.modify_modify]
      rfl

theorem foldl_set_value (c : PropertyCell σ) (added : List c.Item) (s : σ) :
    added.foldl (fun s a => c.value.modify (fun _ => some a) s) s =
      c.value.modify (fun a? => added.getLast?.or a?) s := by
  induction added generalizing s with
  | nil => simp
  | cons a added ih =>
      rw [List.foldl_cons, ih, Lens.modify_modify, List.getLast?_cons]
      cases added.getLast? <;> rfl

/-! ## Elements -/

namespace NamedCollection

variable {c : NamedCollection σ} {name : String} {s : σ} {r : Ref c.Element}

/-- Making an object leaves the entries of the collection alone. -/
def Detached (c : NamedCollection σ) : Prop :=
  ∀ name s, c.entries.get (c.create name s).2 = c.entries.get s

theorem maybeCreate_gives (c : NamedCollection σ) (name : String) (s : σ) :
    (c.maybeCreate name).Gives s (c.handle (c.obtain name s).1) (c.obtain name s).2 := rfl

theorem obtain_of_find? (h : c.find? name s = some r) : c.obtain name s = (r, s) := by
  rw [obtain, h]

theorem obtain_of_find?_none (h : c.find? name s = none) :
    c.obtain name s = ((c.create name s).1,
      c.entries.modify (· ++ [(name, (c.create name s).1)]) (c.create name s).2) := by
  rw [obtain, h]

theorem find?_isSome_iff : (c.find? name s).isSome ↔ name ∈ c.names s := by
  simp [find?, names]

section Obtain

variable (hcreate : c.entries.get (c.create name s).2 = c.entries.get s)
include hcreate

/-- The request adds an entry of the name where it is missing, and nothing else. -/
theorem entries_obtain :
    c.entries.get (c.obtain name s).2 =
      if name ∈ c.names s then c.entries.get s
        else c.entries.get s ++ [(name, (c.obtain name s).1)] := by
  cases h : c.find? name s with
  | some r => rw [obtain_of_find? h, if_pos (find?_isSome_iff.1 (by rw [h]; rfl))]
  | none =>
      rw [if_neg fun hmem => by simpa [h] using find?_isSome_iff.2 hmem]
      rw [obtain_of_find?_none h, Lens.get_modify, hcreate]

theorem names_obtain_of :
    c.names (c.obtain name s).2 =
      if name ∈ c.names s then c.names s else c.names s ++ [name] := by
  rw [names, entries_obtain hcreate]
  split
  · rfl
  · rw [List.map_append]
    rfl

theorem find?_obtain_of : c.find? name (c.obtain name s).2 = some (c.obtain name s).1 := by
  cases h : c.find? name s with
  | some r => rw [obtain_of_find? h, h]
  | none =>
      have hnone : (c.entries.get s).find? (·.1 == name) = none := by simpa [find?] using h
      have hmem : name ∉ c.names s := fun hmem => by simpa [h] using find?_isSome_iff.2 hmem
      rw [find?, entries_obtain hcreate, if_neg hmem, List.find?_append, hnone]
      simp

end Obtain

/-- After the request the element is there. -/
theorem find?_obtain (hc : c.Detached) (name : String) (s : σ) :
    c.find? name (c.obtain name s).2 = some (c.obtain name s).1 :=
  find?_obtain_of (hc name s)

theorem names_obtain (hc : c.Detached) (name : String) (s : σ) :
    c.names (c.obtain name s).2 =
      if name ∈ c.names s then c.names s else c.names s ++ [name] :=
  names_obtain_of (hc name s)

end NamedCollection

end BuildReplay
