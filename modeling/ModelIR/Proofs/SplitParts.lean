import Mathlib.Data.List.Basic
import Mathlib.Tactic.SplitIfs
import ModelIR.Text.Split

/-!
# Splitting what was joined

What is split at a separator has parts without it (`not_mem_of_mem_splitOn`), and parts without it
are what their join is split into (`splitOn_joinWith`).
-/

namespace ModelIR

variable {α : Type} [DecidableEq α] {sep : α}

omit [DecidableEq α] in
theorem joinWith_eq_intercalate (sep : α) : ∀ parts : List (List α),
    joinWith sep parts = [sep].intercalate parts
  | [] => rfl
  | [part] => List.intercalate_singleton.symm
  | part :: next :: parts => by
    rw [joinWith, joinWith_eq_intercalate sep (next :: parts), List.intercalate_cons_cons,
      List.append_assoc]
    · rfl
    · simp

theorem splitOn_append_sep (front rest : List α) :
    splitOn sep (front ++ sep :: rest) = splitOn sep front ++ splitOn sep rest := by
  induction front with
  | nil => exact if_pos rfl
  | cons a front ih =>
    rw [List.cons_append, splitOn, splitOn, ih]
    split_ifs
    · rfl
    · obtain ⟨part, parts, h⟩ := List.exists_cons_of_ne_nil (splitOn_ne_nil sep front)
      rw [h]
      rfl

theorem splitOn_of_not_mem {part : List α} (h : sep ∉ part) : splitOn sep part = [part] := by
  induction part with
  | nil => rfl
  | cons a part ih =>
    obtain ⟨ha, hpart⟩ := List.ne_and_not_mem_of_not_mem_cons h
    rw [splitOn, if_neg ha.symm, ih hpart]

theorem not_mem_of_mem_splitOn {l part : List α} (h : part ∈ splitOn sep l) : sep ∉ part := by
  induction l generalizing part with
  | nil => simp_all [splitOn]
  | cons a l ih =>
    obtain ⟨first, parts, hsplit⟩ := List.exists_cons_of_ne_nil (splitOn_ne_nil sep l)
    rw [hsplit] at ih
    rw [splitOn, hsplit] at h
    split_ifs at h with ha
    · rcases List.mem_cons.1 h with rfl | h
      · exact List.not_mem_nil
      · exact ih h
    · rcases List.mem_cons.1 h with rfl | h
      · exact List.not_mem_cons_of_ne_of_not_mem (Ne.symm ha) (ih List.mem_cons_self)
      · exact ih (List.mem_cons_of_mem _ h)

theorem splitOn_joinWith : ∀ {parts : List (List α)}, parts ≠ [] → (∀ part ∈ parts, sep ∉ part) →
    splitOn sep (joinWith sep parts) = parts
  | [part], _, h => splitOn_of_not_mem (h part List.mem_cons_self)
  | part :: second :: parts, _, h => by
    obtain ⟨hpart, h⟩ := List.forall_mem_cons.1 h
    rw [joinWith, splitOn_append_sep, splitOn_of_not_mem hpart,
      splitOn_joinWith (List.cons_ne_nil second parts) h]
    · rfl
    · simp

theorem joinWith_inj {parts others : List (List α)} (hparts : parts ≠ []) (hothers : others ≠ [])
    (h : ∀ part ∈ parts, sep ∉ part) (h' : ∀ part ∈ others, sep ∉ part) :
    joinWith sep parts = joinWith sep others ↔ parts = others := by
  refine ⟨fun heq => ?_, congrArg _⟩
  rw [← splitOn_joinWith hparts h, heq, splitOn_joinWith hothers h']

end ModelIR
