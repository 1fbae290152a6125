import Mathlib.Data.List.Induction
import Mathlib.Data.List.Nodup

/-! # First and last occurrences

What a list says about a name it says where the name came first, or where it came last. -/

namespace BuildReplay

section First

variable {α : Type} [BEq α] [LawfulBEq α]

theorem eraseDups_concat (l : List α) (a : α) :
    (l ++ [a]).eraseDups = if a ∈ l then l.eraseDups else l.eraseDups ++ [a] := by
  rw [List.eraseDups_append]
  by_cases h : a ∈ l <;> simp [List.removeAll, h, List.eraseDups_cons]

theorem nodup_eraseDups (l : List α) : l.eraseDups.Nodup := by
  induction l using List.reverseRecOn with
  | nil => exact .nil
  | append_singleton l a ih =>
      rw [eraseDups_concat]
      by_cases h : a ∈ l
      · rwa [if_pos h]
      · rw [if_neg h]
        simpa using ih.concat (mt List.mem_eraseDups.1 h)

end First

/-- From the end of the list, its last entry is found first. -/
theorem lookup_reverse_concat {β : Type} (entries : List (String × β)) (e : String × β)
    (name : String) :
    (entries ++ [e]).reverse.lookup name =
      if e.1 = name then some e.2 else entries.reverse.lookup name := by
  obtain ⟨key, b⟩ := e
  rw [List.reverse_concat, List.lookup_cons]
  by_cases h : key = name
  · simp [h]
  · simp [h, beq_false_of_ne (Ne.symm h)]

end BuildReplay
