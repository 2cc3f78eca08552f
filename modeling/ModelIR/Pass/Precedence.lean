/-!
# Precedence

Items, and arcs that say which item comes before which. `sort` puts the items in an order that
respects every arc, or names an item on a cycle.

The order comes from a search in depth: an item is finished when everything that must come after it
is, and the order is that of finishing, reversed. It is then checked, item by item, that all that
must come before an item stands before it.
-/

namespace ModelIR

/-- Items in the order of their declaration, and arcs from the earlier item to the later one. -/
structure Precedence (α : Type) where
  items : List α
  arcs : List (α × α) := []
deriving Repr

namespace Precedence

variable {α : Type} [DecidableEq α] (P : Precedence α)

/-- Adds an arc, unless it is there already. -/
def addArc (arc : α × α) : Precedence α :=
  if arc ∈ P.arcs then P else { P with arcs := P.arcs ++ [arc] }

/-- What must come after an item, in the order the arcs were added. -/
def successors (a : α) : List α :=
  P.arcs.filterMap fun arc => if arc.1 = a then some arc.2 else none

/-- What must come before an item, in the order the arcs were added. -/
def predecessors (a : α) : List α :=
  P.arcs.filterMap fun arc => if arc.2 = a then some arc.1 else none

/-- The items that the search has not reached. -/
def unreached (reached : List α) : List α :=
  P.items.filter (· ∉ reached)

theorem unreached_cons (a : α) (reached : List α) :
    P.unreached (a :: reached) = (P.unreached reached).filter (· ≠ a) := by
  simp only [unreached, List.filter_filter]
  congr
  funext b
  simp

theorem length_unreached_cons_lt {reached : List α} {a : α} (ha : a ∈ P.items)
    (fresh : a ∉ reached) :
    (P.unreached (a :: reached)).length < (P.unreached reached).length := by
  have hmem : a ∈ P.unreached reached := List.mem_filter.2 ⟨ha, decide_eq_true fresh⟩
  rw [unreached_cons, List.length_filter_lt_length_iff_exists]
  exact ⟨a, hmem, by simp⟩

/-- Searches on from a stack. An item at the top is expanded when it is met first: what must come
after it and is not reached goes on top of it. When it is met again it is finished and leaves the
stack. The finished items stand with the last one at the head. An item that must come before itself
ends the search. -/
def search (reached finished : List α) : List α → Except α (List α × List α)
  | [] => .ok (reached, finished)
  | a :: stack =>
    if _ : a ∈ reached then
      search reached (if a ∈ finished then finished else a :: finished) stack
    else if a ∈ P.successors a then
      .error a
    else if _ : a ∈ P.items then
      let later := (P.successors a).filter (· ∉ a :: reached)
      search (a :: reached) finished (later.reverse ++ a :: stack)
    else
      search reached finished stack
termination_by stack => ((P.unreached reached).length, stack.length)
decreasing_by
  · exact Prod.Lex.right _ (by simp)
  · exact Prod.Lex.left _ _ (P.length_unreached_cons_lt ‹_› ‹_›)
  · exact Prod.Lex.right _ (by simp)

/-- Searches from every item that is not reached yet, in the order of declaration. -/
def searchAll (reached finished : List α) : List α → Except α (List α)
  | [] => .ok finished
  | a :: rest =>
    if a ∈ reached then searchAll reached finished rest
    else do
      let (reached, finished) ← P.search reached finished [a]
      searchAll reached finished rest

/-- The first item of a list that stands before something it must come after, and of what it must
come after the arc added last. -/
def firstUnmet? (placed : List α) : List α → Option α
  | [] => none
  | a :: rest =>
    match ((P.predecessors a).filter (· ∉ a :: placed)).getLast? with
    | some b => some b
    | none => firstUnmet? (a :: placed) rest

/-- The items in an order that respects every arc, or an item on a cycle. -/
def sort : Except α (List α) := do
  let order ← P.searchAll [] [] P.items
  match P.firstUnmet? [] order with
  | some a => .error a
  | none => .ok order

end Precedence

end ModelIR
