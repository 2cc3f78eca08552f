/-!
# Splitting at a separator

`splitOn` gives the parts of a list between the occurrences of a separator: one more than there are
separators, and joined by it again they are the list.
-/

namespace ModelIR

variable {α : Type} [DecidableEq α]

/-- The parts between the occurrences of a separator. -/
def splitOn (sep : α) : List α → List (List α)
  | [] => [[]]
  | a :: rest =>
    if a = sep then [] :: splitOn sep rest
    else
      match splitOn sep rest with
      | [] => [[a]]
      | part :: parts => (a :: part) :: parts

theorem splitOn_ne_nil (sep : α) (l : List α) : splitOn sep l ≠ [] := by
  cases l with
  | nil => simp [splitOn]
  | cons a rest =>
    rw [splitOn]
    split
    · simp
    · split <;> simp

omit [DecidableEq α] in
/-- The parts of a list, joined by a separator. -/
def joinWith (sep : α) : List (List α) → List α
  | [] => []
  | [part] => part
  | part :: parts => part ++ sep :: joinWith sep parts

theorem joinWith_splitOn (sep : α) (l : List α) : joinWith sep (splitOn sep l) = l := by
  induction l with
  | nil => rfl
  | cons a rest ih =>
    rw [splitOn]
    split
    · obtain ⟨part, parts, h⟩ := List.exists_cons_of_ne_nil (splitOn_ne_nil sep rest)
      rw [h] at ih ⊢
      simp_all [joinWith]
    · split
      · exact absurd ‹_› (splitOn_ne_nil sep rest)
      · rename_i part parts h
        rw [h] at ih
        cases parts <;> simp_all [joinWith]

end ModelIR
