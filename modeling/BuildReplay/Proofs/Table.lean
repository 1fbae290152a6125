import BuildReplay.Document.Value
import Mathlib.Data.List.Forall2
import Mathlib.Data.List.Nodup

/-! # Tables with their keys in another order -/

namespace BuildReplay

mutual

/-- The entries of tables change places, at any depth; arrays stay as they are. -/
inductive Value.Shuffled : Value → Value → Prop where
  | same (v : Value) : Value.Shuffled v v
  | table {t u t' : Table} : Table.Matched t u → u.Perm t' →
    Value.Shuffled (.table t) (.table t')

/-- The values of the entries are shuffled, each under its key. -/
inductive Table.Matched : Table → Table → Prop where
  | nil : Table.Matched [] []
  | cons {key : String} {v v' : Value} {t u : Table} : Value.Shuffled v v' →
      Table.Matched t u → Table.Matched ((key, v) :: t) ((key, v') :: u)

end

namespace Table.Matched

variable {t u : Table}

theorem refl : ∀ t : Table, t.Matched t
  | [] => .nil
  | (_, v) :: t => .cons (.same v) (refl t)

theorem forall₂ {R : String × Value → String × Value → Prop} (h : t.Matched u)
    (hR : ∀ key v v', (key, v) ∈ t → v.Shuffled v' → R (key, v) (key, v')) :
    List.Forall₂ R t u := by
  induction t generalizing u with
  | nil =>
      cases h
      exact .nil
  | cons e t ih =>
      cases h with
      | cons hv hrest =>
          refine .cons (hR _ _ _ List.mem_cons_self hv) (ih hrest fun key v v' hmem => ?_)
          exact hR key v v' (List.mem_cons_of_mem _ hmem)

end Table.Matched

namespace Value.Shuffled

variable {v v' : Value}

theorem exists_of_table {t : Table} (h : Shuffled (.table t) v') :
    ∃ u t', v' = .table t' ∧ t.Matched u ∧ u.Perm t' := by
  cases h with
  | same => exact ⟨t, t, rfl, .refl t, .refl t⟩
  | table hmatched hperm => exact ⟨_, _, rfl, hmatched, hperm⟩

/-- Nothing but a table is changed. -/
theorem eq_of_not_table (h : Shuffled v v') (hv : v.isTable = false) : v' = v := by
  cases h with
  | same => rfl
  | table => cases hv

theorem isTable_eq (h : Shuffled v v') : v'.isTable = v.isTable := by
  cases h <;> rfl

end Value.Shuffled

end BuildReplay

namespace BuildReplay.Table

theorem get?_cons (e : String × Value) (t : Table) (key : String) :
    get? (e :: t) key = if e.1 = key then some e.2 else t.get? key := by
  rw [get?, List.find?_cons]
  by_cases h : e.1 = key
  · simp [h]
  · rw [beq_eq_false_iff_ne.2 h, if_neg h]
    rfl

/-- Where each key stands once, an entry is found under its key. -/
theorem get?_eq_some_iff {t : Table} (h : t.keys.Nodup) {key : String} {v : Value} :
    t.get? key = some v ↔ (key, v) ∈ t := by
  induction t with
  | nil => simp [get?]
  | cons e t ih =>
      obtain ⟨hnotin, hnodup⟩ := List.nodup_cons.1 h
      rw [get?_cons, List.mem_cons]
      by_cases hkey : e.1 = key
      · subst hkey
        have hout : (e.1, v) ∉ t := fun hmem => hnotin (List.mem_map.2 ⟨_, hmem, rfl⟩)
        simp [hout, Prod.ext_iff, eq_comm]
      · have hne : (key, v) ≠ e := fun heq => hkey (congrArg Prod.fst heq).symm
        simpa [hkey, hne] using ih hnodup

theorem get?_perm {t u : Table} (h : t.keys.Nodup) (hperm : u.Perm t) (key : String) :
    u.get? key = t.get? key := by
  have hu : u.keys.Nodup := (hperm.map Prod.fst).nodup_iff.2 h
  refine Option.ext fun v => ?_
  rw [get?_eq_some_iff hu, get?_eq_some_iff h, hperm.mem_iff]

end BuildReplay.Table
