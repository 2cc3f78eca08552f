import Mathlib.Algebra.Group.Nat.Defs
import Mathlib.Data.Nat.Find
import ModelIR.Proofs.GraphCalls

/-!
# The search for a name

A name that is taken gets the least number that makes it free. Different numbers make different
names, and one of these has to be free before there are more of them than names that are taken. So a
search that goes through the numbers one after the other ends, and how many it might go through does
not matter (`numberedUpTo?_of_least`), as long as they are not fewer than the names. The name that
it finds is one that a node may take (`uniqueName_least`).
-/

namespace ModelIR.Graph

variable {g : Graph} {base : String} {n most : Nat}

/-- The first name that is free of those that a base makes with the numbers up to `most`. -/
def numberedUpTo? (g : Graph) (base : String) (most : Nat) : Option String :=
  ((List.range most).map (numbered base)).find? g.isFree

theorem numberedUpTo?_of_least (free : g.isFree (numbered base n))
    (least : ∀ m < n, g.isFree (numbered base m) = false) (hn : n < most) :
    g.numberedUpTo? base most = some (numbered base n) := by
  rw [numberedUpTo?, List.find?_map, Option.map_eq_some_iff]
  refine ⟨n, List.find?_range_eq_some.2 ⟨free, List.mem_range.2 hn, fun m hm => ?_⟩, rfl⟩
  simpa using least m hm

/-- The least number that makes a name free is not above the number of names. -/
theorem exists_least_numbered (taken : g.isFree base = false) : ∃ n < g.names.length,
    g.isFree (numbered base n) ∧ ∀ m < n, g.isFree (numbered base m) = false := by
  classical
  obtain ⟨k, hk, hfree⟩ := exists_isFree_numbered taken
  have hsome : ∃ n, g.isFree (numbered base n) = true := ⟨k, hfree⟩
  refine ⟨Nat.find hsome, Nat.lt_of_le_of_lt (Nat.find_min' hsome hfree) hk,
    Nat.find_spec hsome, ?_⟩
  intro m hm
  simpa using Nat.find_min hsome hm

/-- A base that is free is the name. If it is taken, the name has the least number that makes it
free, and that number is found among those up to the number of names; so are all numbers that have
to be tried where numbers have 32 bits and a sign, unless there are too many names. In either case a
node may be added under the name. -/
theorem uniqueName_least (g : Graph) (base : String) (h : g.names.length < 2 ^ 31 - 1) :
    (g.isFree base → g.uniqueName base = base) ∧
    (g.isFree base = false → ∃ n, 0 < n ∧ n ≤ g.names.length ∧ g.uniqueName base = s!"{base}_{n}" ∧
      g.isFree s!"{base}_{n}" ∧ (∀ m, 0 < m → m < n → g.isFree s!"{base}_{m}" = false) ∧
      ∀ most, n ≤ most → g.numberedUpTo? base most = some s!"{base}_{n}") ∧
    (g.isFree base = false → g.numberedUpTo? base (2 ^ 31 - 2) = some (g.uniqueName base)) ∧
    ∀ node, node.name = g.uniqueName base → ∃ i g', (addNode node).runOn g = (.ok i, g') := by
  have hfound : g.isFree base = false → ∃ n < g.names.length, g.isFree (numbered base n) ∧
      (∀ m < n, g.isFree (numbered base m) = false) ∧ g.uniqueName base = numbered base n := by
    intro taken
    obtain ⟨n, hn, free, least⟩ := exists_least_numbered taken
    refine ⟨n, hn, free, least, ?_⟩
    unfold uniqueName
    rw [if_neg (by simp [taken])]
    exact congrArg (Option.getD · base) (numberedUpTo?_of_least free least hn)
  refine ⟨fun free => if_pos free, fun taken => ?_, fun taken => ?_, fun node hname => ?_⟩
  · obtain ⟨n, hn, free, least, hname⟩ := hfound taken
    refine ⟨n + 1, Nat.succ_pos n, hn, hname, free, fun m hm hlt => ?_, fun most hmost => ?_⟩
    · obtain ⟨k, rfl⟩ := Nat.exists_eq_succ_of_ne_zero (Nat.ne_of_gt hm)
      exact least k (by omega)
    · exact numberedUpTo?_of_least free least hmost
  · obtain ⟨n, hn, free, least, hname⟩ := hfound taken
    rw [hname]
    exact numberedUpTo?_of_least free least (by omega)
  · have free : g.isFree node.name := by
      rw [hname]
      exact isFree_uniqueName g base
    exact ⟨_, _, addNode_runOn_of_free free⟩

/-- A graph whose names have had more numbers than they have now. -/
def gappedNames : Graph :=
  reached [.addData "x", .addData "x_1", .addData "x_2", .addData "x_3", .remove 2]

/-- The gap is filled, and a number may stand behind another. -/
theorem gappedNames_least : gappedNames.names.length < 2 ^ 31 - 1 ∧
    (gappedNames.uniqueName "x" = "x_2" ∧ gappedNames.isFree "x_1" = false ∧
      gappedNames.numberedUpTo? "x" (2 ^ 31 - 2) = some "x_2") ∧
    gappedNames.uniqueName "x_1" = "x_1_1" ∧
      gappedNames.numberedUpTo? "x_1" (2 ^ 31 - 2) = some "x_1_1" := by
  have hcount : gappedNames.names.length < 2 ^ 31 - 1 := by decide +kernel
  have hx : gappedNames.uniqueName "x" = "x_2" := by decide +kernel
  have hnumbered : gappedNames.uniqueName "x_1" = "x_1_1" := by decide +kernel
  obtain ⟨-, -, hsearch, -⟩ := uniqueName_least gappedNames "x" hcount
  obtain ⟨-, -, hsearch', -⟩ := uniqueName_least gappedNames "x_1" hcount
  refine ⟨hcount, ⟨hx, by decide +kernel, ?_⟩, hnumbered, ?_⟩
  · rw [← hx]
    exact hsearch (by decide +kernel)
  · rw [← hnumbered]
    exact hsearch' (by decide +kernel)

end ModelIR.Graph
