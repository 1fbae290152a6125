import BuildReplay.Proofs.Occurrences
import BuildReplay.Registry

/-! # What was registered

A registry is known from the registrations that were made with it. Each name is listed once, at the
position of its first registration, and stands for what was registered under it last. -/

namespace BuildReplay.Registry

/-! ## One registration -/

theorem get?_register (r : Registry) (name : String) (e : Extension) (key : String) :
    (r.register name e).get? key = if name = key then some e else r.get? key := by
  obtain ⟨entries⟩ := r
  change ((put name e entries).find? _).map _ = if _ then _ else (entries.find? _).map _
  induction entries with
  | nil => by_cases h : name = key <;> simp [put, h]
  | cons x rest ih =>
      by_cases hx : x.1 = name
      · rw [put, if_pos hx]
        by_cases h : name = key <;> simp_all
      · rw [put, if_neg hx]
        by_cases h : x.1 = key
        · have hne : name ≠ key := fun heq => hx (h.trans heq.symm)
          simp [h, hne]
        · simp only [List.find?_cons, beq_eq_false_iff_ne.2 h]
          exact ih

/-- An extension under a new name goes to the end. -/
theorem entries_register_of_notMem {r : Registry} {name : String} (h : name ∉ r.names)
    (e : Extension) : (r.register name e).entries = r.entries ++ [(name, e)] := by
  obtain ⟨entries⟩ := r
  change put name e entries = entries ++ [(name, e)]
  induction entries with
  | nil => rfl
  | cons x rest ih =>
      obtain ⟨hx, hrest⟩ := not_or.1 (mt List.mem_cons.2 h)
      rw [put, if_neg (Ne.symm hx), ih hrest, List.cons_append]

/-- An extension under a name that is there takes the place of that one. -/
theorem entries_register_of_mem {r : Registry} {name : String} (h : name ∈ r.names)
    (e : Extension) :
    (r.register name e).entries = r.entries.set (r.names.idxOf name) (name, e) := by
  obtain ⟨entries⟩ := r
  change put name e entries = entries.set ((entries.map (·.1)).idxOf name) (name, e)
  induction entries with
  | nil => cases h
  | cons x rest ih =>
      rw [put, List.map_cons, List.idxOf_cons]
      by_cases hx : x.1 = name
      · simp [hx]
      · have hrest : name ∈ rest.map (·.1) := (List.mem_cons.1 h).resolve_left (Ne.symm hx)
        rw [if_neg hx, ih hrest, beq_false_of_ne hx]
        rfl

theorem names_register (r : Registry) (name : String) (e : Extension) :
    (r.register name e).names = if name ∈ r.names then r.names else r.names ++ [name] := by
  by_cases h : name ∈ r.names
  · -- The entry that is replaced has the name already.
    have hlt : r.names.idxOf name < r.names.length := List.idxOf_lt_length_iff.2 h
    have hname : r.names[r.names.idxOf name] = name := List.getElem_idxOf hlt
    rw [if_pos h, names, entries_register_of_mem h, List.map_set]
    calc r.names.set (r.names.idxOf name) name
        = r.names.set (r.names.idxOf name) r.names[r.names.idxOf name] := by rw [hname]
      _ = r.names := List.set_getElem_self hlt
  · rw [if_neg h, names, entries_register_of_notMem h, List.map_append]
    rfl

theorem contains_iff (r : Registry) (name : String) : r.contains name ↔ name ∈ r.names := by
  simp [contains, get?, names]

theorem size_eq (r : Registry) : r.size = r.names.length := by
  rw [size, names, List.length_map]

theorem isEmpty_iff (r : Registry) : r.isEmpty ↔ r.names = [] := by
  simp [isEmpty, names]

/-! ## All registrations -/

/-- A registry after registrations of objects and of components, in their order. -/
def registerAll (r : Registry) (calls : List (String × Extension)) : Registry :=
  calls.foldl (fun r call => r.register call.1 call.2) r

theorem registerAll_concat (r : Registry) (calls : List (String × Extension))
    (call : String × Extension) :
    r.registerAll (calls ++ [call]) = (r.registerAll calls).register call.1 call.2 :=
  List.foldl_concat ..

theorem names_registerAll (calls : List (String × Extension)) :
    (empty.registerAll calls).names = (calls.map (·.1)).eraseDups := by
  induction calls using List.reverseRecOn with
  | nil => rfl
  | append_singleton calls call ih =>
      rw [registerAll_concat, names_register, List.map_append, List.map_singleton,
        eraseDups_concat, ih]
      simp only [List.mem_eraseDups]

theorem get?_registerAll (calls : List (String × Extension)) (name : String) :
    (empty.registerAll calls).get? name = calls.reverse.lookup name := by
  induction calls using List.reverseRecOn with
  | nil => rfl
  | append_singleton calls call ih =>
      rw [registerAll_concat, get?_register, ih, lookup_reverse_concat]

/-- A registry is a map whose names are in the order of the registrations. -/
structure Records (calls : List (String × Extension)) (r : Registry) : Prop where
  /-- Each name is listed once, in the order in which the names came first. -/
  names : r.names = (calls.map (·.1)).eraseDups
  nodup : r.names.Nodup
  /-- A name stands for what was registered under it last. -/
  get? : ∀ name, r.get? name = calls.reverse.lookup name
  contains : ∀ name, r.contains name ↔ name ∈ r.names
  size : r.size = r.names.length
  isEmpty : r.isEmpty ↔ r.names = []
  /-- Registering a name again replaces the entry at its position, and moves nothing. -/
  again : ∀ {name}, name ∈ r.names → ∀ e,
    (r.register name e).names = r.names ∧
    (r.register name e).entries = r.entries.set (r.names.idxOf name) (name, e)
  /-- A registration is no matter of other names. -/
  others : ∀ name e {other}, other ≠ name → (r.register name e).get? other = r.get? other

/-- Whatever is registered, objects and components under the same names or not, the registry records
it. -/
theorem registerAll_records (calls : List (String × Extension)) :
    Records calls (empty.registerAll calls) where
  names := names_registerAll calls
  nodup := names_registerAll calls ▸ nodup_eraseDups _
  get? := get?_registerAll calls
  contains := contains_iff _
  size := size_eq _
  isEmpty := isEmpty_iff _
  again hname e := ⟨(names_register _ _ e).trans (if_pos hname), entries_register_of_mem hname e⟩
  others name e other hother := (get?_register _ name e other).trans (if_neg (Ne.symm hother))

/-- Components come under the name of an object and take its position. -/
example (a b : ObjectRef) :
    (empty.registerAll [("java", .object a), ("tools", .object b),
      ("java", .components "LabComponents")]).entries =
        [("java", .components "LabComponents"), ("tools", .object b)] := rfl

end BuildReplay.Registry
