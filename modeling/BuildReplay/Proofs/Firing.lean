import BuildReplay.Callback
import BuildReplay.Proofs.Act
import BuildReplay.Proofs.Track

/-! # Fired callbacks

A table of callbacks that is accepted becomes registrations. When a point is fired for a name, the
tables below the point that stand under the name, or under the key for all names, are replayed in
the order of the document. -/

namespace BuildReplay

open Act

variable {σ : Type}

/-- The tables for a name in the value of a callback point, with their paths, in document order. -/
def Value.tablesFor (path name : String) : Value → List (String × Table)
  | .table entries => entries.filterMap fun e =>
    match e.2 with
    | .table body => if e.1 = allSelector ∨ e.1 = name then some (path ++ "." ++ e.1, body) else none
    | _ => none
  | _ => []

/-- The tables for a name below a callback point, in document order. -/
def Table.tablesFor (path point name : String) (t : Table) : List (String × Table) :=
  t.flatMap fun e => if e.1 = point then e.2.tablesFor (path ++ "." ++ e.1) name else []

theorem Table.tablesFor_cons (path point name key : String) (v : Value) (t : Table) :
    Table.tablesFor path point name ((key, v) :: t) =
      (if key = point then v.tablesFor (path ++ "." ++ key) name else []) ++
        t.tablesFor path point name :=
  List.flatMap_cons

/-- The tables of callbacks without those under other names. -/
def Table.only (name : String) (t : Table) : Table := t.map fun e =>
  (e.1, match e.2 with
    | .table entries => .table (entries.filter fun e => e.1 = allSelector ∨ e.1 = name)
    | v => v)

/-- Tables under other names do not count. -/
theorem Table.tablesFor_only (path point name : String) (t : Table) :
    (t.only name).tablesFor path point name = t.tablesFor path point name := by
  have hfilter : ∀ (path : String) (entries : Table),
      (Value.table (entries.filter fun e => e.1 = allSelector ∨ e.1 = name)).tablesFor path name =
        (Value.table entries).tablesFor path name := by
    intro path entries
    rw [Value.tablesFor, List.filterMap_filter]
    refine List.filterMap_congr fun e _ => ?_
    by_cases hkey : e.1 = allSelector ∨ e.1 = name
    · simp [hkey]
    · cases e.2 <;> simp [hkey]
  rw [Table.tablesFor, Table.only, List.flatMap_map]
  refine List.flatMap_congr fun e _ => ?_
  cases e.2 with
  | table entries => simp only [hfilter]
  | _ => rfl

/-- The callbacks that are fired at a point for a name, in the order of their registration. -/
def callbacksFor (point name : String) (rs : List Registration) : List Callback :=
  (rs.filter (·.selects point name)).map (·.callback)

theorem callbacksFor_cons (point name : String) (r : Registration) (rs : List Registration) :
    callbacksFor point name (r :: rs) =
      (if r.selects point name then [r.callback] else []) ++ callbacksFor point name rs := by
  by_cases h : r.selects point name
  · simp [callbacksFor, h]
  · simp [callbacksFor, h]

theorem callbacksFor_append (point name : String) (rs rs' : List Registration) :
    callbacksFor point name (rs ++ rs') =
      callbacksFor point name rs ++ callbacksFor point name rs' := by
  simp [callbacksFor]

theorem fire_eq_inOrder (host : Host σ) (point name : String) (payload : ObjectRef)
    (rs : List Registration) :
    fire host point name payload rs = inOrder (·.run host payload) (callbacksFor point name rs) := by
  induction rs with
  | nil => rfl
  | cons r rest ih =>
      rw [fire, ih, callbacksFor_cons]
      by_cases h : r.selects point name
      · rw [if_pos h, if_pos h]
        rfl
      · rw [if_neg h, if_neg h]
        rfl

/-- Only keys of the name, and the key for all names, select a name. -/
theorem registration_selects (options : Options) (path : String) (p : CallbackPoint) (key : String)
    (body : Table) (point name : String) :
    (registration options path p key body).selects point name =
      decide (p.name = point ∧ (key = allSelector ∨ key = name)) := by
  have hmatches : (Selector.ofKey key).matches? name = decide (key = allSelector ∨ key = name) := by
    unfold Selector.ofKey
    split
    · rename_i hkey
      simp [Selector.matches?, hkey]
    · rename_i hkey
      rw [Selector.matches?, beq_eq_decide]
      simp [hkey]
  rw [Registration.selects, registration, hmatches, Bool.decide_and]
  rfl

section Configure

variable {c : Components (List Registration)} {options : Options} {path : String}
  (hregister : ∀ r, c.register r = .modify (· ++ [r]))
include hregister

/-- The tables below a point are registered for that point. -/
theorem registerEntries_callbacks {p : CallbackPoint} (point name : String)
    {entries : List (String × Value)} {rs rs' : List Registration}
    (h : (registerEntries options path p c.register entries).Gives rs () rs') :
    callbacksFor point name rs' = callbacksFor point name rs ++
      if p.name = point then ((Value.table entries).tablesFor path name).map fun e =>
        .replay e.1 p.payload options e.2
      else [] := by
  induction entries generalizing rs with
  | nil =>
      obtain ⟨-, rfl⟩ := pure_gives.1 h
      simp [Value.tablesFor]
  | cons e rest ih =>
      obtain ⟨key, v⟩ := e
      cases v with
      | table body =>
          rw [registerEntries, hregister] at h
          obtain ⟨_, rs₁, hmodify, hrest⟩ := bind_gives.1 h
          obtain rfl := modify_gives.1 hmodify
          rw [ih hrest, callbacksFor_append, callbacksFor_cons, registration_selects, List.append_assoc]
          by_cases hpoint : p.name = point
          · by_cases hkey : key = allSelector ∨ key = name
            · simp [hpoint, hkey, Value.tablesFor, callbacksFor, registration]
            · simp [hpoint, hkey, Value.tablesFor, callbacksFor]
          · simp [hpoint, callbacksFor]
      | _ => exact absurd h not_throw_gives

/-- What is fired at a point for a name, after a table was accepted: the tables for the name below
the point. -/
theorem Components.configure_callbacks
    (hpoints : ∀ p ∈ c.points, ∀ q ∈ c.points, p.name = q.name → p = q) {q : CallbackPoint}
    (hq : q ∈ c.points) (name : String) {t : List (String × Value)} {rs rs' : List Registration}
    (h : (c.configure options path t).Gives rs () rs') :
    callbacksFor q.name name rs' = callbacksFor q.name name rs ++
      (Table.tablesFor path q.name name t).map fun e => .replay e.1 q.payload options e.2 := by
  induction t generalizing rs with
  | nil =>
      obtain ⟨-, rfl⟩ := pure_gives.1 h
      simp [Table.tablesFor]
  | cons e rest ih =>
      obtain ⟨key, v⟩ := e
      rw [Components.configure] at h
      split at h
      · exact absurd h not_throw_gives
      · rename_i p hfind
        obtain ⟨_, rs₁, hvalue, hrest⟩ := bind_gives.1 h
        have hname : p.name = key := by simpa using List.find?_some hfind
        cases v with
        | table entries =>
            rw [ih hrest, registerEntries_callbacks hregister q.name name hvalue, List.append_assoc,
              Table.tablesFor_cons, List.map_append]
            by_cases hpoint : p.name = q.name
            · obtain rfl := hpoints p (List.mem_of_find?_eq_some hfind) q hq hpoint
              rw [if_pos rfl, if_pos hname.symm]
            · rw [if_neg hpoint, if_neg (hname ▸ hpoint)]
              rfl
        | _ => exact absurd hvalue not_throw_gives

end Configure

end BuildReplay
