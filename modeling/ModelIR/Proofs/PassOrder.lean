import Mathlib.Data.List.Nodup
import ModelIR.Pass.Pipeline
import ModelIR.Proofs.DepthFirst

/-!
# The order of passes

What the search finishes is checked against the arcs. If an item stands before something that it
must come after, this something was finished first although it leads to the item, so the item leads
back to it and it is on a cycle; if no item does, the order respects every arc
(`Precedence.sort_sorted`). `order_correct` says so of the passes of a pipeline.
-/

namespace ModelIR

namespace Precedence

variable {α : Type} [DecidableEq α] {P : Precedence α} {a b : α} {order : List α}

/-- An item that comes after nothing unplaced stands behind all that it must come after. -/
theorem mem_of_firstUnmet?_eq_none : ∀ {l placed : List α}, P.firstUnmet? placed l = none →
    ∀ {l₁ l₂ : List α} {a : α}, l = l₁ ++ a :: l₂ → ∀ b, P.Arc b a → b = a ∨ b ∈ placed ∨ b ∈ l₁
  | [], _, _, _, _, _, hl, _, _ => by simp at hl
  | c :: l, placed, h, l₁, l₂, a, hl, b, hb => by
    rw [firstUnmet?] at h
    split at h
    · simp at h
    next hnone =>
    rw [List.getLast?_eq_none_iff, List.filter_eq_nil_iff] at hnone
    rcases l₁ with _ | ⟨c', l₁⟩
    · obtain ⟨rfl, rfl⟩ := List.cons.inj hl
      have hmem := hnone b (mem_predecessors.2 hb)
      simp only [decide_eq_true_eq, not_not, List.mem_cons] at hmem
      exact hmem.imp_right .inl
    · obtain ⟨rfl, rfl⟩ := List.cons.inj hl
      rcases mem_of_firstUnmet?_eq_none h rfl b hb with hb | hb | hb
      · exact .inl hb
      · rcases List.mem_cons.1 hb with rfl | hb
        · exact .inr (.inr List.mem_cons_self)
        · exact .inr (.inl hb)
      · exact .inr (.inr (List.mem_cons_of_mem _ hb))

/-- What is unmet must come before an item and stands behind it. -/
theorem of_firstUnmet?_eq_some : ∀ {l placed : List α}, P.firstUnmet? placed l = some b →
    ∃ l₁ a l₂, l = l₁ ++ a :: l₂ ∧ P.Arc b a ∧ b ≠ a ∧ b ∉ placed ∧ b ∉ l₁
  | [], _, h => by simp [firstUnmet?] at h
  | c :: l, placed, h => by
    rw [firstUnmet?] at h
    split at h
    next c' hsome =>
      obtain rfl : c' = b := Option.some.inj h
      have hmem := List.mem_of_getLast? hsome
      rw [List.mem_filter, mem_predecessors, decide_eq_true_eq, List.mem_cons, not_or] at hmem
      exact ⟨[], c, l, rfl, hmem.1, hmem.2.1, hmem.2.2, List.not_mem_nil⟩
    · obtain ⟨l₁, a, l₂, rfl, harc, hne, hplaced, hl₁⟩ := of_firstUnmet?_eq_some h
      rw [List.mem_cons, not_or] at hplaced
      exact ⟨c :: l₁, a, l₂, rfl, harc, hne, hplaced.2, by simp [hplaced.1, hl₁]⟩

theorem idxOf_lt_of_mem {l₁ l₂ : List α} (ha : a ∉ l₁) (hb : b ∈ l₁) :
    (l₁ ++ a :: l₂).idxOf b < (l₁ ++ a :: l₂).idxOf a := by
  rw [List.idxOf_append_of_mem hb, List.idxOf_append_of_notMem ha, List.idxOf_cons_self]
  exact Nat.lt_of_lt_of_le (List.idxOf_lt_length_of_mem hb) (Nat.le_add_right _ _)

/-- Where every item stands before what must come after it, there is no cycle. -/
theorem not_onCycle (h : ∀ a b, P.Arc a b → order.idxOf a < order.idxOf b) (a : α) :
    ¬ P.OnCycle a := by
  have hlt : ∀ b, Relation.TransGen P.Arc a b → order.idxOf a < order.idxOf b := by
    intro b hab
    induction hab with
    | single hab => exact h a _ hab
    | tail _ hbc ih => exact Nat.lt_trans ih (h _ _ hbc)
  exact fun hcycle => Nat.lt_irrefl _ (hlt a hcycle)

/-- What a sort ends with. -/
def Sorted (P : Precedence α) : Except α (List α) → Prop
  | .ok order => order.Perm P.items ∧ ∀ a b, P.Arc a b → order.idxOf a < order.idxOf b
  | .error a => a ∈ P.items ∧ P.OnCycle a

theorem sort_sorted (nodup : P.items.Nodup) (closed : P.Closed) : P.Sorted P.sort := by
  have hstart : P.Searching [] [] [] := by
    constructor <;> simp [Settled]
  have hsearched := searchAll_searched closed (fun _ => id) hstart
  rw [sort]
  rcases hresult : P.searchAll [] [] P.items with a | order <;> rw [hresult] at hsearched
  · exact ⟨hsearched.1, .single hsearched.2⟩
  obtain ⟨hnodup, hitems, -, hall, hsettled⟩ := hsearched
  have hperm : order.Perm P.items :=
    (List.perm_ext_iff_of_nodup hnodup nodup).2 fun a => ⟨fun ha => (hitems a ha).1, hall a⟩
  simp only [bind, Except.bind]
  rcases hunmet : P.firstUnmet? [] order with _ | b
  · refine ⟨hperm, fun b a hab => ?_⟩
    have ha := hall a (closed b a hab).2
    obtain ⟨l₁, l₂, rfl, hl₁⟩ := List.eq_append_cons_of_mem ha
    rcases mem_of_firstUnmet?_eq_none hunmet rfl b hab with rfl | hb | hb
    · exact absurd hab (hitems b ha).2
    · simp at hb
    · exact idxOf_lt_of_mem hl₁ hb
  · obtain ⟨l₁, a, l₂, rfl, hab, hne, -, hl₁⟩ := of_firstUnmet?_eq_some hunmet
    refine ⟨(closed b a hab).1, ?_⟩
    have hb := hall b (closed b a hab).1
    rw [List.mem_append, List.mem_cons] at hb
    obtain ⟨m₁, m₂, rfl⟩ := List.append_of_mem ((hb.resolve_left hl₁).resolve_left hne)
    have hbehind : a ∉ m₂ := by
      intro ha
      have := (List.nodup_cons.1 (List.nodup_append.1 hnodup).2.1).1
      exact this (List.mem_append_right _ (List.mem_cons_of_mem _ ha))
    have hback := (hsettled.of_append.2.of_append.1 a hab).resolve_left hbehind
    exact Relation.TransGen.head' hab hback

end Precedence

/-! ## Pipelines -/

namespace Pipeline

open Relation

variable {p : Pipeline} {a b : String} {names : List String}

/-- Both passes are registered, and one of them says that the first comes before the second. -/
def Before (p : Pipeline) (a b : String) : Prop :=
  a ∈ p.names ∧ b ∈ p.names ∧
    ∃ pass ∈ p.passes, (pass.name = b ∧ a ∈ pass.runAfter) ∨ (pass.name = a ∧ b ∈ pass.runBefore)

theorem mem_arcs_foldl_addArc {α : Type} [DecidableEq α] {arc : α × α} :
    ∀ {arcs : List (α × α)} {P : Precedence α},
      arc ∈ (arcs.foldl Precedence.addArc P).arcs ↔ arc ∈ P.arcs ∨ arc ∈ arcs
  | [], P => by simp
  | arc' :: arcs, P => by
    rw [List.foldl_cons, mem_arcs_foldl_addArc, List.mem_cons, Precedence.addArc]
    split_ifs with hmem
    · constructor
      · exact Or.imp_right .inr
      · rintro (h | rfl | h)
        exacts [.inl h, .inl hmem, .inr h]
    · simp only [List.mem_append, List.mem_singleton, or_assoc]

theorem items_foldl_addArc {α : Type} [DecidableEq α] :
    ∀ {arcs : List (α × α)} {P : Precedence α},
      (arcs.foldl Precedence.addArc P).items = P.items
  | [], _ => rfl
  | arc :: arcs, P => by
    rw [List.foldl_cons, items_foldl_addArc, Precedence.addArc]
    split_ifs <;> rfl

theorem arc_precedence_iff : p.precedence.Arc a b ↔ p.Before a b := by
  rw [precedence, Precedence.Arc, mem_arcs_foldl_addArc]
  simp only [List.not_mem_nil, false_or, List.mem_flatMap, arcsOf, List.mem_append, List.mem_map,
    List.mem_filter, Prod.mk.injEq, contains, List.contains_iff_mem]
  constructor
  · rintro ⟨pass, hpass, ⟨c, ⟨hc, hreg⟩, rfl, rfl⟩ | ⟨c, ⟨hc, hreg⟩, rfl, rfl⟩⟩
    · exact ⟨hreg, List.mem_map_of_mem hpass, pass, hpass, .inl ⟨rfl, hc⟩⟩
    · exact ⟨List.mem_map_of_mem hpass, hreg, pass, hpass, .inr ⟨rfl, hc⟩⟩
  · rintro ⟨ha, hb, pass, hpass, ⟨rfl, h⟩ | ⟨rfl, h⟩⟩
    · exact ⟨pass, hpass, .inl ⟨a, ⟨h, ha⟩, rfl, rfl⟩⟩
    · exact ⟨pass, hpass, .inr ⟨b, ⟨h, hb⟩, rfl, rfl⟩⟩

theorem arc_precedence : p.precedence.Arc = p.Before := by
  funext a b
  exact propext arc_precedence_iff

theorem items_precedence (p : Pipeline) : p.precedence.items = p.names :=
  items_foldl_addArc

theorem precedence_sorted (p : Pipeline) : p.precedence.Sorted p.precedence.sort := by
  refine Precedence.sort_sorted (p.items_precedence ▸ p.nodup) fun a b hab => ?_
  rw [arc_precedence_iff] at hab
  exact p.items_precedence ▸ ⟨hab.1, hab.2.1⟩

theorem of_order_ok (h : p.order = .ok names) :
    names.Perm p.names ∧ (∀ a b, p.Before a b → names.idxOf a < names.idxOf b) ∧
      ∀ a, ¬ TransGen p.Before a a := by
  have hsorted := p.precedence_sorted
  rw [order] at h
  rcases hsort : p.precedence.sort with a | names' <;> rw [hsort] at h hsorted
  · simp at h
  · obtain rfl := Except.ok.inj h
    obtain ⟨hperm, hlt⟩ := hsorted
    rw [items_precedence] at hperm
    have hacyclic := Precedence.not_onCycle hlt
    simp only [Precedence.OnCycle, arc_precedence] at hlt hacyclic
    exact ⟨hperm, hlt, hacyclic⟩

theorem of_order_error {e : PipelineError} (h : p.order = .error e) :
    ∃ a ∈ p.names, e = .orderingCycle a ∧ TransGen p.Before a a := by
  have hsorted := p.precedence_sorted
  rw [order] at h
  rcases hsort : p.precedence.sort with a | names' <;> rw [hsort] at h hsorted
  · obtain ⟨ha, hcycle⟩ := hsorted
    rw [items_precedence] at ha
    rw [Precedence.OnCycle, arc_precedence] at hcycle
    exact ⟨a, ha, (Except.error.inj h).symm, hcycle⟩
  · simp at h

/-- An order is found if and only if no pass must come before itself. It holds every registered pass
once, and respects all that registered passes say of one another; the pass that an error names must
come before itself. -/
theorem order_correct (p : Pipeline) :
    ((∃ names, p.order = .ok names) ↔ ∀ a, ¬ Relation.TransGen p.Before a a) ∧
      (∀ names, p.order = .ok names →
        names.Perm p.names ∧ ∀ a b, p.Before a b → names.idxOf a < names.idxOf b) ∧
      ∀ e, p.order = .error e →
        ∃ a ∈ p.names, e = .orderingCycle a ∧ Relation.TransGen p.Before a a := by
  refine ⟨⟨fun ⟨_, h⟩ => (of_order_ok h).2.2, fun hacyclic => ?_⟩, fun _ h => ?_,
    fun _ => of_order_error⟩
  · rcases horder : p.order with e | names
    · obtain ⟨a, -, -, hcycle⟩ := of_order_error horder
      exact absurd hcycle (hacyclic a)
    · exact ⟨names, rfl⟩
  · obtain ⟨hperm, hlt, -⟩ := of_order_ok h
    exact ⟨hperm, hlt⟩

end Pipeline

end ModelIR
