import BuildReplay.Dictionary
import BuildReplay.Proofs.Lens
import Mathlib.Data.List.Sort

/-! # Lookup in dictionaries -/

namespace BuildReplay.Dictionary

variable {α β : Type}

theorem find?_insertEntry (key k : String) (value : α) (entries : List (String × α)) :
    (insertEntry key value entries).find? (·.1 == k) =
      if key = k then some (key, value) else entries.find? (·.1 == k) := by
  induction entries with
  | nil => by_cases h : key = k <;> simp [insertEntry, h]
  | cons e rest ih =>
      rw [insertEntry]
      split
      · by_cases h : key = k <;> simp [h]
      · split
        · rename_i heq
          by_cases h : key = k <;> simp [h, ← heq]
        · rename_i hne
          by_cases h : e.1 = k
          · simp [h, show key ≠ k from fun hk => hne (hk.trans h.symm)]
          · simpa [h] using ih

theorem get?_insert (d : Dictionary α) (key k : String) (value : α) :
    (d.insert key value).get? k = if key = k then some value else d.get? k := by
  rw [get?, insert, find?_insertEntry]
  split <;> rfl

theorem mem_keys_iff {d : Dictionary α} {key : String} : key ∈ d.keys ↔ (d.get? key).isSome := by
  simp [keys, get?]

/-- A new entry takes no key away. -/
theorem keys_sorted (d : Dictionary α) : d.keys.Pairwise (· < ·) :=
  List.pairwise_map.2 d.sorted

theorem keys_subset_insert (d : Dictionary α) (key : String) (value : α) :
    d.keys ⊆ (d.insert key value).keys := by
  intro k hk
  rw [mem_keys_iff] at hk ⊢
  rw [get?_insert]
  split
  · rfl
  · exact hk

theorem keys_subset_foldl_insert (d : Dictionary α) (entries : List (String × α)) :
    d.keys ⊆ (entries.foldl (fun d e => d.insert e.1 e.2) d).keys := by
  induction entries generalizing d with
  | nil => exact List.Subset.refl _
  | cons e entries ih => exact List.Subset.trans (d.keys_subset_insert e.1 e.2) (ih _)

/-- An entry adds its key, and no other. -/
theorem mem_keys_insert {d : Dictionary α} {key k : String} {value : α} :
    k ∈ (d.insert key value).keys ↔ k = key ∨ k ∈ d.keys := by
  rw [mem_keys_iff, mem_keys_iff, get?_insert]
  by_cases h : key = k
  · simp [h]
  · simp [h, Ne.symm h]

theorem mem_keys_foldl_insert {entries : List (String × α)} {d : Dictionary α} {k : String} :
    k ∈ (entries.foldl (fun d e => d.insert e.1 e.2) d).keys ↔
      k ∈ entries.map (·.1) ∨ k ∈ d.keys := by
  induction entries generalizing d with
  | nil => simp
  | cons e rest ih =>
      rw [List.foldl_cons, ih, mem_keys_insert, List.map_cons, List.mem_cons]
      tauto

theorem get?_erase (d : Dictionary α) (key k : String) :
    (d.erase key).get? k = if key = k then none else d.get? k := by
  rw [get?, erase, get?]
  by_cases h : key = k
  · subst h
    simp [List.find?_filter]
  · simp only [List.find?_filter, if_neg h]
    congr 2
    funext e
    by_cases hk : e.1 = k
    · simp [hk, Ne.symm h]
    · simp [hk]

theorem get?_map (f : α → β) (d : Dictionary α) (k : String) :
    (d.map f).get? k = (d.get? k).map f := by
  simp [get?, map, List.find?_map, Function.comp_def]

/-! ## Entries -/

theorem find?_of_mem {entries : List (String × α)} (h : entries.Pairwise fun a b => a.1 < b.1)
    {e : String × α} (he : e ∈ entries) : entries.find? (·.1 == e.1) = some e := by
  induction entries with
  | nil => exact absurd he List.not_mem_nil
  | cons x rest ih =>
      obtain ⟨hx, hrest⟩ := List.pairwise_cons.1 h
      rcases List.mem_cons.1 he with rfl | he
      · simp
      · have hne : x.1 ≠ e.1 := fun heq => String.lt_irrefl e.1 (heq ▸ hx e he)
        simpa [hne] using ih hrest he

theorem get?_eq_some_iff {d : Dictionary α} {key : String} {value : α} :
    d.get? key = some value ↔ (key, value) ∈ d.entries := by
  constructor
  · intro h
    obtain ⟨e, hfind, rfl⟩ := Option.map_eq_some_iff.1 h
    obtain rfl : e.1 = key := by simpa using List.find?_some hfind
    exact List.mem_of_find?_eq_some hfind
  · intro h
    rw [get?, find?_of_mem d.sorted h]
    rfl

/-- Entries that are put into a dictionary replace what it has under their keys. -/
theorem get?_foldl_insert {entries : List (String × α)}
    (h : entries.Pairwise fun a b => a.1 < b.1) (d : Dictionary α) (key : String) :
    (entries.foldl (fun d e => d.insert e.1 e.2) d).get? key =
      ((entries.find? (·.1 == key)).map (·.2)).or (d.get? key) := by
  induction entries generalizing d with
  | nil => rfl
  | cons e rest ih =>
      obtain ⟨he, hrest⟩ := List.pairwise_cons.1 h
      rw [List.foldl_cons, ih hrest, get?_insert]
      by_cases hkey : e.1 = key
      · -- the key does not come again
        have hnone : rest.find? (·.1 == key) = none := by
          refine List.find?_eq_none.2 fun x hx => ?_
          have hne : x.1 ≠ key := fun heq =>
            String.lt_irrefl e.1 (hkey.trans heq.symm ▸ he x hx)
          simpa using hne
        rw [if_pos hkey, hnone, List.find?_cons_of_pos (by simpa using hkey)]
        rfl
      · rw [if_neg hkey, List.find?_cons_of_neg (by simpa using hkey)]

/-- Of entries under one key, the last one stays. -/
theorem get?_foldl_insert_lookup (entries : List (String × α)) (d : Dictionary α) (key : String) :
    (entries.foldl (fun d e => d.insert e.1 e.2) d).get? key =
      (entries.reverse.lookup key).or (d.get? key) := by
  induction entries generalizing d with
  | nil => rfl
  | cons e rest ih =>
      obtain ⟨k, a⟩ := e
      rw [List.foldl_cons, ih, get?_insert, List.reverse_cons, List.lookup_append, Option.or_assoc,
        List.lookup_cons, List.lookup_nil]
      by_cases hkey : k = key
      · simp [hkey]
      · simp [hkey, beq_false_of_ne (Ne.symm hkey)]

/-- A dictionary is determined by its lookups. -/
theorem ext_get? {d d' : Dictionary α} (h : ∀ key, d.get? key = d'.get? key) : d = d' := by
  have hirrefl : Std.Irrefl fun a b : String × α => a.1 < b.1 := ⟨fun a => String.lt_irrefl a.1⟩
  have hantisymm : Std.Antisymm fun a b : String × α => a.1 < b.1 :=
    ⟨fun a b hab hba => absurd (String.lt_trans hab hba) (String.lt_irrefl a.1)⟩
  obtain ⟨entries, sorted⟩ := d
  obtain ⟨entries', sorted'⟩ := d'
  obtain rfl : entries = entries' := by
    refine sorted.eq_of_mem_iff sorted' fun e => ?_
    rw [← get?_eq_some_iff (d := ⟨entries, sorted⟩), h e.1, get?_eq_some_iff]
  rfl

/-- The value under a key, if any. -/
def entry (key : String) : Lens (Dictionary α) (Option α) where
  get d := d.get? key
  set
    | some a, d => d.insert key a
    | none, d => d.erase key
  get_set a d := by cases a <;> simp [get?_insert, get?_erase]
  set_get d := by
    refine ext_get? fun k => ?_
    by_cases hk : key = k
    · subst hk
      cases d.get? key <;> simp [get?_insert, get?_erase]
    · cases d.get? key <;> simp [get?_insert, get?_erase, hk]
  set_set a b d := by
    refine ext_get? fun k => ?_
    cases a <;> cases b <;> simp only [get?_insert, get?_erase] <;> split <;> rfl

theorem entry_apart {key k : String} (h : key ≠ k) :
    (entry key : Lens (Dictionary α) (Option α)).Apart (entry k : Lens (Dictionary α) (Option α)) := by
  intro a b d
  refine ext_get? fun name => ?_
  by_cases hname : key = name
  · subst hname
    cases a <;> cases b <;> simp [entry, get?_insert, get?_erase, h.symm]
  · cases a <;> cases b <;> simp [entry, get?_insert, get?_erase, hname]

end BuildReplay.Dictionary
