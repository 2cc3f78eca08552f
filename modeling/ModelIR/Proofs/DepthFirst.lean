import Mathlib.Logic.Relation
import Mathlib.Tactic.SplitIfs
import ModelIR.Pass.Precedence

/-!
# The search in depth

An item that is reached and not finished stands on the stack, and all that stands above its first
place is led to by it (`Pending`). So what must come after a finished item is finished before it, or
leads back to it (`Settled`). One step of the search keeps both (`Searching.pop`,
`Searching.expand`), and the search ends with every item of the stack finished, or at an item that
must come before itself (`search_searched`, `searchAll_searched`).
-/

namespace ModelIR.Precedence

variable {α : Type} [DecidableEq α] {P : Precedence α} {a b x : α}
  {reached finished stack reached' stack' : List α}

omit [DecidableEq α] in
/-- The first item must come before the second. -/
def Arc (P : Precedence α) (a b : α) : Prop :=
  (a, b) ∈ P.arcs

/-- Arcs join items. -/
def Closed (P : Precedence α) : Prop :=
  ∀ a b, P.Arc a b → a ∈ P.items ∧ b ∈ P.items

/-- Arcs lead from the first item to the second. -/
abbrev Leads (P : Precedence α) : α → α → Prop :=
  Relation.ReflTransGen P.Arc

/-- The item must come before itself. -/
abbrev OnCycle (P : Precedence α) (a : α) : Prop :=
  Relation.TransGen P.Arc a a

theorem mem_successors : b ∈ P.successors a ↔ P.Arc a b := by
  simp only [successors, List.mem_filterMap, Arc]
  constructor
  · rintro ⟨⟨c, d⟩, h, hif⟩
    split_ifs at hif with hc
    obtain rfl : c = a := hc
    obtain rfl : d = b := Option.some.inj hif
    exact h
  · intro h
    exact ⟨(a, b), h, by simp⟩

theorem mem_predecessors : a ∈ P.predecessors b ↔ P.Arc a b := by
  simp only [predecessors, List.mem_filterMap, Arc]
  constructor
  · rintro ⟨⟨c, d⟩, h, hif⟩
    split_ifs at hif with hd
    obtain rfl : d = b := hd
    obtain rfl : c = a := Option.some.inj hif
    exact h
  · intro h
    exact ⟨(a, b), h, by simp⟩

/-! ## The invariant -/

/-- What an item leads to is reached, or stands above the item's first place on the stack; all that
stands there is led to by the item. -/
def Pending (P : Precedence α) (reached : List α) (x : α) (stack : List α) : Prop :=
  ∃ above below, stack = above ++ x :: below ∧ x ∉ above ∧ (∀ a ∈ above, P.Leads x a) ∧
    ∀ a, P.Arc x a → a ∈ reached ∨ a ∈ above

/-- What must come after an item is finished before it, or leads back to it. -/
def Settled (P : Precedence α) : List α → Prop
  | [] => True
  | b :: finished => (∀ a, P.Arc b a → a ∈ finished ∨ P.Leads a b) ∧ Settled P finished

/-- What holds all through a search. -/
structure Searching (P : Precedence α) (reached finished stack : List α) : Prop where
  finished_nodup : finished.Nodup
  finished_reached : ∀ a ∈ finished, a ∈ reached
  reached_items : ∀ a ∈ reached, a ∈ P.items
  stack_items : ∀ a ∈ stack, a ∈ P.items
  loopless : ∀ a ∈ reached, ¬ P.Arc a a
  pending : ∀ a ∈ reached, a ∉ finished → P.Pending reached a stack
  settled : P.Settled finished

omit [DecidableEq α] in
theorem Settled.of_append : ∀ {l₁ l₂ : List α}, P.Settled (l₁ ++ l₂) → P.Settled l₂
  | [], _, h => h
  | _ :: l₁, _, h => @of_append l₁ _ h.2

omit [DecidableEq α] in
/-- Behind the top of the stack an item stands where it stood. -/
theorem Pending.tail (h : P.Pending reached x (a :: stack)) (hne : x ≠ a) :
    ∃ above below, stack = above ++ x :: below ∧ x ∉ a :: above ∧
      (∀ b ∈ a :: above, P.Leads x b) ∧ ∀ b, P.Arc x b → b ∈ reached ∨ b ∈ a :: above := by
  obtain ⟨_ | ⟨c, above⟩, below, hstack, hx, hleads, harcs⟩ := h
  · exact absurd (List.cons.inj hstack).1.symm hne
  · obtain ⟨rfl, rfl⟩ := List.cons.inj hstack
    exact ⟨above, below, rfl, hx, hleads, harcs⟩

omit [DecidableEq α] in
/-- An item at the top of the stack leads to nothing that is not reached, once it is reached. -/
theorem Pending.head (h : P.Pending reached a (a :: stack)) : ∀ b, P.Arc a b → b ∈ reached := by
  obtain ⟨_ | ⟨c, above⟩, below, hstack, ha, -, harcs⟩ := h
  · intro b hb
    exact (harcs b hb).resolve_right List.not_mem_nil
  · exact absurd (List.cons.inj hstack).1 fun h => ha (h ▸ List.mem_cons_self)

/-! ## Steps -/

/-- An item that is met again is finished and leaves the stack. What it leads to and is not finished
yet stands below it on the stack, and so leads to it. -/
theorem Searching.pop (h : P.Searching reached finished (a :: stack)) (ha : a ∈ reached) :
    P.Searching reached (if a ∈ finished then finished else a :: finished) stack where
  finished_nodup := by
    split_ifs with hfin
    · exact h.finished_nodup
    · exact List.nodup_cons.2 ⟨hfin, h.finished_nodup⟩
  finished_reached := by
    split_ifs with hfin
    · exact h.finished_reached
    · exact List.forall_mem_cons.2 ⟨ha, h.finished_reached⟩
  reached_items := h.reached_items
  stack_items b hb := h.stack_items b (List.mem_cons_of_mem _ hb)
  loopless := h.loopless
  pending x hx hfin := by
    have hxfin : x ∉ finished := fun hmem => hfin (by split_ifs <;> simp [hmem])
    have hne : x ≠ a := by
      rintro rfl
      simp [hxfin] at hfin
    obtain ⟨above, below, hstack, hxa, hleads, harcs⟩ := (h.pending x hx hxfin).tail hne
    refine ⟨above, below, hstack, fun hmem => hxa (List.mem_cons_of_mem _ hmem),
      fun b hb => hleads b (List.mem_cons_of_mem _ hb), fun b hb => ?_⟩
    rcases harcs b hb with hb | hb
    · exact .inl hb
    · rcases List.mem_cons.1 hb with rfl | hb
      · exact .inl ha
      · exact .inr hb
  settled := by
    split_ifs with hfin
    · exact h.settled
    refine ⟨fun b hb => ?_, h.settled⟩
    have hreached := (h.pending a ha hfin).head b hb
    by_cases hbfin : b ∈ finished
    · exact .inl hbfin
    · by_cases hne : b = a
      · exact .inr (hne ▸ .refl)
      · obtain ⟨above, below, -, -, hleads, -⟩ := (h.pending b hreached hbfin).tail hne
        exact .inr (hleads a List.mem_cons_self)

/-- An item that is met first stays on the stack, below what it leads to. -/
theorem Searching.expand (closed : P.Closed) (h : P.Searching reached finished (a :: stack))
    (ha : a ∉ reached) (hloop : ¬ P.Arc a a) :
    P.Searching (a :: reached) finished
      (((P.successors a).filter (· ∉ a :: reached)).reverse ++ a :: stack) where
  finished_nodup := h.finished_nodup
  finished_reached b hb := List.mem_cons_of_mem _ (h.finished_reached b hb)
  reached_items := List.forall_mem_cons.2 ⟨h.stack_items a List.mem_cons_self, h.reached_items⟩
  stack_items b hb := by
    rcases List.mem_append.1 hb with hb | hb
    · rw [List.mem_reverse, List.mem_filter, mem_successors] at hb
      exact (closed a b hb.1).2
    · exact h.stack_items b hb
  loopless := List.forall_mem_cons.2 ⟨hloop, h.loopless⟩
  pending x hx hfin := by
    have hlater : ∀ b, b ∈ ((P.successors a).filter (· ∉ a :: reached)).reverse ↔
        P.Arc a b ∧ b ∉ a :: reached := by
      intro b
      rw [List.mem_reverse, List.mem_filter, mem_successors, decide_eq_true_eq]
    by_cases hne : x = a
    · subst hne
      refine ⟨_, stack, rfl, fun hmem => ((hlater x).1 hmem).2 List.mem_cons_self,
        fun b hb => .single ((hlater b).1 hb).1, fun b hb => ?_⟩
      by_cases hmem : b ∈ x :: reached
      · exact .inl hmem
      · exact .inr ((hlater b).2 ⟨hb, hmem⟩)
    · have hreached := (List.mem_cons.1 hx).resolve_left hne
      obtain ⟨above, below, hstack, hxa, hleads, harcs⟩ := (h.pending x hreached hfin).tail hne
      refine ⟨((P.successors a).filter (· ∉ a :: reached)).reverse ++ a :: above, below,
        by rw [hstack, List.append_assoc, List.cons_append], fun hmem => ?_, fun b hb => ?_,
        fun b hb => ?_⟩
      · rcases List.mem_append.1 hmem with hmem | hmem
        · exact ((hlater x).1 hmem).2 hx
        · exact hxa hmem
      · rcases List.mem_append.1 hb with hb | hb
        · exact (hleads a List.mem_cons_self).tail ((hlater b).1 hb).1
        · exact hleads b hb
      · rcases harcs b hb with hb | hb
        · exact .inl (List.mem_cons_of_mem _ hb)
        · exact .inr (List.mem_append_right _ hb)
  settled := h.settled

/-! ## Searches -/

/-- What a search from a stack ends with. -/
def Searched (P : Precedence α) (reached stack : List α) : Except α (List α × List α) → Prop
  | .ok (reached', finished') =>
    P.Searching reached' finished' [] ∧ (∀ a ∈ reached, a ∈ reached') ∧ ∀ a ∈ stack, a ∈ reached'
  | .error a => a ∈ P.items ∧ P.Arc a a

omit [DecidableEq α] in
theorem Searched.mono {result : Except α (List α × List α)}
    (h : P.Searched reached' stack' result) (hreached : ∀ a ∈ reached, a ∈ reached')
    (hstack : ∀ a ∈ stack, a ∈ reached' ∨ a ∈ stack') : P.Searched reached stack result := by
  rcases result with a | ⟨reached'', finished''⟩
  · exact h
  · obtain ⟨hend, hsub, hsub'⟩ := h
    exact ⟨hend, fun a ha => hsub a (hreached a ha),
      fun a ha => (hstack a ha).elim (hsub a) (hsub' a)⟩

theorem search_searched (closed : P.Closed) (h : P.Searching reached finished stack) :
    P.Searched reached stack (P.search reached finished stack) := by
  induction reached, finished, stack using Precedence.search.induct P with
  | case1 reached finished =>
    rw [search]
    exact ⟨h, fun _ => id, by simp⟩
  | case2 reached finished a stack ha ih =>
    rw [search, dif_pos ha]
    refine (ih (h.pop ha)).mono (fun _ => id) fun b hb => ?_
    rcases List.mem_cons.1 hb with rfl | hb
    · exact .inl ha
    · exact .inr hb
  | case3 reached finished a stack ha hloop =>
    rw [search, dif_neg ha, if_pos hloop]
    exact ⟨h.stack_items a List.mem_cons_self, mem_successors.1 hloop⟩
  | case4 reached finished a stack ha hloop hitem later ih =>
    rw [search, dif_neg ha, if_neg hloop, dif_pos hitem]
    refine (ih (h.expand closed ha fun hmem => hloop (mem_successors.2 hmem))).mono
      (fun b hb => List.mem_cons_of_mem _ hb) fun b hb => ?_
    exact .inr (List.mem_append_right _ hb)
  | case5 reached finished a stack ha hloop hitem ih =>
    exact absurd (h.stack_items a List.mem_cons_self) hitem

theorem Searching.reached_finished (h : P.Searching reached finished []) (ha : a ∈ reached) :
    a ∈ finished := by
  rcases Decidable.em (a ∈ finished) with hfin | hfin
  · exact hfin
  · obtain ⟨above, below, hstack, -⟩ := h.pending a ha hfin
    simp at hstack

/-- What a search from all items ends with. -/
def SearchedAll (P : Precedence α) (reached items : List α) : Except α (List α) → Prop
  | .ok finished =>
    finished.Nodup ∧ (∀ a ∈ finished, a ∈ P.items ∧ ¬ P.Arc a a) ∧ (∀ a ∈ reached, a ∈ finished) ∧
      (∀ a ∈ items, a ∈ finished) ∧ P.Settled finished
  | .error a => a ∈ P.items ∧ P.Arc a a

omit [DecidableEq α] in
theorem SearchedAll.cons {items : List α} {result : Except α (List α)}
    (h : P.SearchedAll reached' items result) (hreached : ∀ b ∈ reached, b ∈ reached')
    (ha : a ∈ reached') : P.SearchedAll reached (a :: items) result := by
  rcases result with b | finished
  · exact h
  · obtain ⟨hnodup, hitems, hsub, hrest, hsettled⟩ := h
    exact ⟨hnodup, hitems, fun b hb => hsub b (hreached b hb),
      List.forall_mem_cons.2 ⟨hsub a ha, hrest⟩, hsettled⟩

theorem searchAll_searched (closed : P.Closed) :
    ∀ {items reached finished : List α}, (∀ a ∈ items, a ∈ P.items) →
      P.Searching reached finished [] →
      P.SearchedAll reached items (P.searchAll reached finished items)
  | [], reached, finished, _, h => by
    rw [searchAll]
    refine ⟨h.finished_nodup, fun a ha => ?_, fun a ha => h.reached_finished ha, by simp, h.settled⟩
    exact ⟨h.reached_items a (h.finished_reached a ha), h.loopless a (h.finished_reached a ha)⟩
  | a :: items, reached, finished, hitems, h => by
    obtain ⟨ha, hrest⟩ := List.forall_mem_cons.1 hitems
    rw [searchAll]
    split_ifs with hreached
    · exact (searchAll_searched closed hrest h).cons (fun _ => id) hreached
    · have hstart : P.Searching reached finished [a] :=
        { h with
          stack_items := by simpa using ha
          pending := fun b hb hfin => absurd (h.reached_finished hb) hfin }
      have hsearched := search_searched closed hstart
      rcases hresult : P.search reached finished [a] with b | ⟨reached', finished'⟩ <;>
        rw [hresult] at hsearched
      · exact hsearched
      · obtain ⟨hend, hsub, hstack⟩ := hsearched
        exact (searchAll_searched closed hrest hend).cons hsub (hstack a List.mem_cons_self)

end ModelIR.Precedence
