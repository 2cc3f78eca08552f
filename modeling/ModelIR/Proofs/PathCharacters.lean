import Mathlib.Tactic.SplitIfs
import ModelIR.Cache.Scan

/-!
# Characters of paths

A slash is a byte that no other character takes in, so a path's text is the texts of its components
with slashes between them (`chars_append_slash`). The segments of a path, and so the names that a
model has from it, hold no other characters than the text of the path
(`Model.mem_segments_of_ofPath`).
-/

namespace ModelIR

namespace Lossy

/-- No character that needs more than one byte goes on with a slash. -/
theorem slash_lt_low {b : UInt8} {bits : Nat} {ranges : List (UInt8 × UInt8)}
    (h : lead b = some (bits, ranges)) : ∀ range ∈ ranges, Path.slash < range.1 := by
  have hall : ranges.all (fun range => decide (Path.slash < range.1)) = true := by
    simp only [lead] at h
    split_ifs at h
    all_goals
      obtain ⟨-, rfl⟩ := Prod.mk.inj (Option.some.inj h)
      decide
  exact fun range hrange => of_decide_eq_true (List.all_eq_true.1 hall range hrange)

theorem follow_append_slash (b : List UInt8) : ∀ {ranges : List (UInt8 × UInt8)} (bits : Nat)
    (a : List UInt8), (∀ range ∈ ranges, Path.slash < range.1) →
      follow bits ranges (a ++ Path.slash :: b) =
        ((follow bits ranges a).1, (follow bits ranges a).2 ++ Path.slash :: b)
  | [], _, _, _ => rfl
  | (low, high) :: ranges, bits, [], h => by
    have hlow : ¬ low ≤ Path.slash := UInt8.not_le.2 (h (low, high) List.mem_cons_self)
    simp [follow, hlow]
  | (low, high) :: ranges, bits, x :: a, h => by
    rw [List.cons_append, follow, follow]
    split_ifs
    · exact follow_append_slash b _ a fun range hrange => h range (List.mem_cons_of_mem _ hrange)
    · rfl

theorem step_append_slash (x : UInt8) (a b : List UInt8) :
    step x (a ++ Path.slash :: b) = ((step x a).1, (step x a).2 ++ Path.slash :: b) := by
  rw [step, step]
  rcases hlead : lead x with _ | ⟨bits, ranges⟩
  · rfl
  · simp only [follow_append_slash b bits a (slash_lt_low hlead)]

theorem chars_append_slash (a b : List UInt8) :
    chars (a ++ Path.slash :: b) = chars a ++ '/' :: chars b := by
  fun_induction chars a with
  | case1 =>
    rw [List.nil_append, chars]
    rfl
  | case2 x a ih =>
    rw [List.cons_append, chars, step_append_slash, ih, List.cons_append]

theorem mem_chars_joinWith {c : Char} {part : List UInt8} (hc : c ∈ chars part) :
    ∀ {parts : List (List UInt8)}, part ∈ parts → c ∈ chars (joinWith Path.slash parts)
  | [only], h => by
    obtain rfl := List.mem_singleton.1 h
    exact hc
  | first :: second :: parts, h => by
    rw [joinWith, chars_append_slash]
    · rcases List.mem_cons.1 h with rfl | h
      · exact List.mem_append_left _ hc
      · exact List.mem_append_right _ (List.mem_cons_of_mem _ (mem_chars_joinWith hc h))
    · simp

end Lossy

namespace Path

variable {p : Path} {c : Char}

theorem mem_normalizeStep {component other : List UInt8} {reversed : List (List UInt8)}
    (h : other ∈ normalizeStep reversed component) : other = component ∨ other ∈ reversed := by
  unfold normalizeStep at h
  split_ifs at h with hup
  · rcases reversed with _ | ⟨last, rest⟩
    · exact .inl (hup ▸ List.mem_singleton.1 h)
    · simp only at h
      split_ifs at h
      · exact (List.mem_cons.1 h).imp_left fun hother => hother.trans hup.symm
      · exact .inr (List.mem_cons_of_mem _ h)
  · exact List.mem_cons.1 h

theorem mem_foldl_normalizeStep {other : List UInt8} :
    ∀ (components : List (List UInt8)) {reversed : List (List UInt8)},
      other ∈ components.foldl normalizeStep reversed → other ∈ components ∨ other ∈ reversed
  | [], _, h => .inr h
  | component :: components, reversed, h => by
    rw [List.foldl_cons] at h
    rcases mem_foldl_normalizeStep components h with h | h
    · exact .inl (List.mem_cons_of_mem _ h)
    · exact (mem_normalizeStep h).imp_left fun heq => List.mem_cons.2 (.inl heq)

/-- A segment of a path has no characters but those of the path. -/
theorem mem_toText_of_mem_segments {segment : String} (h : segment ∈ p.segments)
    (hc : c ∈ segment.toList) : c ∈ p.toText.toList := by
  obtain ⟨component, hcomponent, rfl⟩ := List.mem_map.1 h
  rw [Lossy.decode, String.toList_ofList] at hc
  rw [toText, Lossy.decode, String.toList_ofList, ← joinWith_splitOn slash p.bytes]
  refine Lossy.mem_chars_joinWith hc ?_
  rw [normalize, List.mem_reverse] at hcomponent
  have hmem := (mem_foldl_normalizeStep _ hcomponent).resolve_right List.not_mem_nil
  exact (List.mem_filter.1 (List.mem_filter.1 hmem).1).1

end Path

theorem Layout.mem_of_fromEnd? {segments : List String} {position : Nat} {segment : String}
    (h : fromEnd? segments position = some segment) : segment ∈ segments :=
  List.mem_reverse.1 (List.mem_of_getElem? h)

/-- What a model takes from its path are segments of it. -/
theorem Model.mem_segments_of_ofPath {path : Path} {model : Model} (h : ofPath path = .ok model) :
    model.path = path ∧ model.fileName ∈ path.segments ∧ model.precision ∈ path.segments ∧
      model.framework ∈ path.segments := by
  simp only [ofPath] at h
  split at h
  · next fileName precision framework hfile hprecision hframework =>
    obtain rfl := Except.ok.inj h
    exact ⟨rfl, Layout.mem_of_fromEnd? hfile, Layout.mem_of_fromEnd? hprecision,
      Layout.mem_of_fromEnd? hframework⟩
  · simp at h

end ModelIR
