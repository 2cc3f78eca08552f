/-!
# Looking for a mark

`after?` takes a mark off the front of a list, and `cutAt?` parts a list at the first place where
the mark stands. Both give back what they are given: the mark before the rest, and the mark between
the two parts.
-/

namespace ModelIR

variable {α : Type} [DecidableEq α]

/-- What follows a mark that the list begins with. -/
def after? : List α → List α → Option (List α)
  | [], l => some l
  | _ :: _, [] => none
  | m :: mark, a :: l => if m = a then after? mark l else none

/-- What stands before the first occurrence of a mark, and what follows it. -/
def cutAt? (mark : List α) : List α → Option (List α × List α)
  | [] => none
  | a :: l =>
    match after? mark (a :: l) with
    | some rest => some ([], rest)
    | none => (cutAt? mark l).map fun (before, rest) => (a :: before, rest)

theorem eq_append_of_after? {mark l rest : List α} (h : after? mark l = some rest) :
    l = mark ++ rest := by
  fun_induction after? mark l with
  | case1 => simpa using h
  | case2 => simp at h
  | case3 => simp_all
  | case4 => simp at h

theorem eq_append_of_cutAt? {mark l before rest : List α}
    (h : cutAt? mark l = some (before, rest)) :
    l = before ++ mark ++ rest := by
  fun_induction cutAt? mark l generalizing before with
  | case1 => simp at h
  | case2 a l rest' h' =>
    simp only [Option.some.injEq, Prod.mk.injEq] at h
    obtain ⟨rfl, rfl⟩ := h
    simpa using eq_append_of_after? h'
  | case3 a l _ ih =>
    simp only [Option.map_eq_some_iff, Prod.mk.injEq, Prod.exists] at h
    obtain ⟨b, r, hb, rfl, rfl⟩ := h
    simpa using ih hb

end ModelIR
