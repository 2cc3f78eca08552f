import Mathlib.Data.List.Nodup

/-!
# Looking up keys

A list of pairs in which no key stands twice gives for a key what stands beside it
(`lookup_of_mem`), and without the pairs of one key it gives the same for all others
(`lookup_filter_ne`).
-/

namespace ModelIR

variable {α β : Type} [BEq α] [LawfulBEq α] {l : List (α × β)} {a : α} {b : β}

theorem mem_of_lookup (h : l.lookup a = some b) : (a, b) ∈ l := by
  obtain ⟨before, after, rfl, -⟩ := List.lookup_eq_some_iff.1 h
  exact List.mem_append_right _ List.mem_cons_self

theorem lookup_of_mem (hkeys : (l.map Prod.fst).Nodup) (h : (a, b) ∈ l) : l.lookup a = some b := by
  obtain ⟨before, after, rfl⟩ := List.append_of_mem h
  refine List.lookup_eq_some_iff.2 ⟨before, after, rfl, fun p hp => ?_⟩
  rw [bne_iff_ne]
  rintro rfl
  rw [List.map_append, List.map_cons, List.nodup_append] at hkeys
  exact hkeys.2.2 p.1 (List.mem_map_of_mem hp) p.1 List.mem_cons_self rfl

theorem lookup_filter_ne [DecidableEq α] (key : α) : ∀ l : List (α × β),
    (l.filter fun p => p.1 ≠ key).lookup a = if a = key then none else l.lookup a
  | [] => by simp
  | p :: l => by
    have ih := lookup_filter_ne key l
    by_cases hp : p.1 = key
    · rw [List.filter_cons_of_neg (by simpa using hp), ih, List.lookup_cons, hp]
      by_cases ha : a = key
      · rw [if_pos ha, if_pos ha]
      · rw [if_neg ha, if_neg ha, beq_false_of_ne ha]
    · rw [List.filter_cons_of_pos (by simpa using hp), List.lookup_cons, List.lookup_cons, ih]
      by_cases ha : a = key
      · rw [if_pos ha, if_pos ha, ha, beq_false_of_ne (Ne.symm hp)]
      · rw [if_neg ha, if_neg ha]

end ModelIR
