import Mathlib.Logic.Basic
import Mathlib.Tactic.SplitIfs
import ModelIR.Path

/-!
# Normal forms of paths

A list of components is gone through with the names so far at hand. A double dot takes away the last
of them; where there is none it leads above the start, and is kept. So the normal form is the double
dots that lead above the start, and behind them the names that are there for one who takes the start
for the root (`Path.normalize_eq`). No double dot leads above the start exactly if no beginning of
the list has more double dots than names (`Path.surplus_eq_zero_iff`).
-/

namespace ModelIR

namespace Path

variable {name : List UInt8} {names below components : List (List UInt8)} {k : Nat}

/-! ## Steps -/

theorem normalizeStep_name (h : name ≠ up) (reversed : List (List UInt8)) :
    normalizeStep reversed name = name :: reversed :=
  if_neg h

theorem normalizeStep_up (h : name ≠ up) (reversed : List (List UInt8)) :
    normalizeStep (name :: reversed) up = reversed := by
  rw [normalizeStep, if_pos rfl]
  exact if_neg h

theorem normalizeStep_replicate (k : Nat) :
    normalizeStep (List.replicate k up) up = List.replicate (k + 1) up := by
  cases k with
  | zero => rfl
  | succ k => rfl

/-- Goes along one more component, where the directory above the root is the root. -/
def rootedStep (reversed : List (List UInt8)) (component : List UInt8) : List (List UInt8) :=
  if component = up then reversed.tail else component :: reversed

/-- The names that a list of components leads to from the root. -/
def rooted (components : List (List UInt8)) : List (List UInt8) :=
  (components.foldl rootedStep []).reverse

/-- How many double dots lead above the start, beginning that many names below it. -/
def surplus : Nat → List (List UInt8) → Nat
  | _, [] => 0
  | depth, component :: components =>
    if component = up then
      if depth = 0 then surplus 0 components + 1 else surplus (depth - 1) components
    else surplus (depth + 1) components

theorem surplus_up_zero (components : List (List UInt8)) :
    surplus 0 (up :: components) = surplus 0 components + 1 := by
  rw [surplus, if_pos rfl, if_pos rfl]

theorem surplus_up_succ (depth : Nat) (components : List (List UInt8)) :
    surplus (depth + 1) (up :: components) = surplus depth components := by
  rw [surplus, if_pos rfl, if_neg (Nat.succ_ne_zero depth), Nat.add_sub_cancel]

theorem surplus_name (h : name ≠ up) (depth : Nat) (components : List (List UInt8)) :
    surplus depth (name :: components) = surplus (depth + 1) components := by
  rw [surplus, if_neg h]

theorem not_mem_rootedStep (h : up ∉ names) (component : List UInt8) :
    up ∉ rootedStep names component := by
  rw [rootedStep]
  split_ifs with hup
  · exact fun hmem => h (List.mem_of_mem_tail hmem)
  · exact List.not_mem_cons_of_ne_of_not_mem (Ne.symm hup) h

theorem not_mem_foldl_rootedStep : ∀ (components : List (List UInt8)) {names : List (List UInt8)},
    up ∉ names → up ∉ components.foldl rootedStep names
  | [], _, h => h
  | component :: components, _, h =>
    not_mem_foldl_rootedStep components (not_mem_rootedStep h component)

theorem not_mem_rooted (components : List (List UInt8)) : up ∉ rooted components := fun h =>
  not_mem_foldl_rootedStep components List.not_mem_nil (List.mem_reverse.1 h)

/-! ## Runs -/

/-- The names at hand, last one first, lie on the double dots that are kept. -/
theorem foldl_normalizeStep : ∀ (components names : List (List UInt8)) (k : Nat),
    up ∉ names → components.foldl normalizeStep (names ++ List.replicate k up) =
      components.foldl rootedStep names ++
        List.replicate (k + surplus names.length components) up
  | [], _, _, _ => rfl
  | component :: components, names, k, hnames => by
    rw [List.foldl_cons, List.foldl_cons]
    by_cases hup : component = up
    · subst hup
      rcases names with _ | ⟨last, names⟩
      · rw [List.nil_append, normalizeStep_replicate, rootedStep, if_pos rfl, List.tail_nil,
          List.length_nil, surplus_up_zero]
        have ih := foldl_normalizeStep components [] (k + 1) List.not_mem_nil
        rwa [List.nil_append, List.length_nil, Nat.add_assoc, Nat.add_comm 1] at ih
      · obtain ⟨hlast, hnames⟩ := List.ne_and_not_mem_of_not_mem_cons hnames
        rw [List.cons_append, normalizeStep_up hlast.symm, rootedStep, if_pos rfl, List.tail_cons,
          List.length_cons, surplus_up_succ]
        exact foldl_normalizeStep components names k hnames
    · rw [normalizeStep_name hup, rootedStep, if_neg hup, surplus_name hup, ← List.cons_append]
      exact foldl_normalizeStep components (component :: names) k
        (List.not_mem_cons_of_ne_of_not_mem (Ne.symm hup) hnames)

/-- The double dots that lead above the start, and the names behind them. -/
theorem normalize_eq (components : List (List UInt8)) :
    normalize components = List.replicate (surplus 0 components) up ++ rooted components := by
  have h := foldl_normalizeStep components [] 0 List.not_mem_nil
  rw [List.replicate_zero, List.append_nil, List.length_nil, Nat.zero_add] at h
  rw [normalize, h, List.reverse_append, List.reverse_replicate, rooted]

theorem mem_normalize_iff : up ∈ normalize components ↔ surplus 0 components ≠ 0 := by
  rw [normalize_eq, List.mem_append, or_iff_left (not_mem_rooted components), List.mem_replicate,
    and_iff_left rfl]

/-- No double dot leads above the start exactly if no beginning has more double dots than names. -/
theorem surplus_eq_zero_iff : ∀ {components : List (List UInt8)} (depth : Nat),
    surplus depth components = 0 ↔
      ∀ front, front <+: components → front.count up ≤ depth + front.countP (· ≠ up)
  | [], depth => by simp [surplus]
  | component :: components, depth => by
    have hcons : (∀ front, front <+: component :: components →
        front.count up ≤ depth + front.countP (· ≠ up)) ↔ ∀ front, front <+: components →
          (component :: front).count up ≤ depth + (component :: front).countP (· ≠ up) := by
      refine ⟨fun h front hfront => h _ ((List.prefix_cons_inj component).2 hfront), ?_⟩
      intro h front hfront
      rcases List.prefix_cons_iff.1 hfront with rfl | ⟨rest, rfl, hrest⟩
      · exact Nat.zero_le _
      · exact h rest hrest
    rw [hcons]
    by_cases hup : component = up
    · subst hup
      rcases depth with _ | depth
      · rw [surplus_up_zero]
        refine iff_of_false (Nat.succ_ne_zero _) fun h => ?_
        exact absurd (h [] List.nil_prefix) (by decide)
      · rw [surplus_up_succ, surplus_eq_zero_iff]
        refine forall₂_congr fun front _ => ?_
        rw [List.count_cons_self, List.countP_cons_of_neg (by simp)]
        omega
    · rw [surplus_name hup, surplus_eq_zero_iff]
      refine forall₂_congr fun front _ => ?_
      rw [List.count_cons_of_ne hup, List.countP_cons_of_pos (by simpa using hup)]
      omega

/-! ## Names below -/

/-- Names that no double dot leads above stay where they are. -/
theorem foldl_rootedStep_append : ∀ {components : List (List UInt8)} (names : List (List UInt8)),
    surplus names.length components = 0 → ∀ below : List (List UInt8),
      components.foldl rootedStep (names ++ below) = components.foldl rootedStep names ++ below
  | [], _, _, _ => rfl
  | component :: components, names, h, below => by
    rw [List.foldl_cons, List.foldl_cons]
    by_cases hup : component = up
    · subst hup
      rcases names with _ | ⟨last, names⟩
      · rw [List.length_nil, surplus_up_zero] at h
        exact absurd h (Nat.succ_ne_zero _)
      · rw [List.length_cons, surplus_up_succ] at h
        exact foldl_rootedStep_append names h below
    · rw [surplus_name hup] at h
      rw [rootedStep, if_neg hup, rootedStep, if_neg hup]
      exact foldl_rootedStep_append (component :: names) h below

theorem foldl_rootedStep_names : ∀ {names : List (List UInt8)}, up ∉ names →
    ∀ reversed, names.foldl rootedStep reversed = names.reverse ++ reversed
  | [], _, _ => rfl
  | name :: names, h, reversed => by
    obtain ⟨hname, hnames⟩ := List.ne_and_not_mem_of_not_mem_cons h
    rw [List.foldl_cons, rootedStep, if_neg hname.symm, foldl_rootedStep_names hnames,
      List.reverse_cons, List.append_assoc, List.singleton_append]

theorem surplus_names : ∀ {names : List (List UInt8)}, up ∉ names → ∀ depth components,
    surplus depth (names ++ components) = surplus (depth + names.length) components
  | [], _, _, _ => rfl
  | name :: names, h, depth, components => by
    obtain ⟨hname, hnames⟩ := List.ne_and_not_mem_of_not_mem_cons h
    rw [List.cons_append, surplus_name hname.symm, surplus_names hnames, List.length_cons]
    congr 1
    omega

theorem surplus_of_not_mem (h : up ∉ names) (depth : Nat) : surplus depth names = 0 := by
  have hempty := surplus_names h depth []
  rwa [List.append_nil, surplus] at hempty

theorem surplus_replicate : ∀ (k : Nat) (components : List (List UInt8)),
    surplus 0 (List.replicate k up ++ components) = k + surplus 0 components
  | 0, components => by rw [List.replicate_zero, List.nil_append, Nat.zero_add]
  | k + 1, components => by
    rw [List.replicate_succ, List.cons_append, surplus_up_zero, surplus_replicate k]
    omega

theorem foldl_rootedStep_replicate : ∀ k : Nat, (List.replicate k up).foldl rootedStep [] = []
  | 0 => rfl
  | k + 1 => foldl_rootedStep_replicate k

/-! ## Normal forms -/

/-- A list whose double dots stand before all names is its own normal form. -/
theorem normalize_of_normal (h : up ∉ names) (k : Nat) :
    normalize (List.replicate k up ++ names) = List.replicate k up ++ names := by
  rw [normalize_eq, surplus_replicate, surplus_of_not_mem h, Nat.add_zero, rooted,
    List.foldl_append, foldl_rootedStep_replicate, foldl_rootedStep_names h, List.append_nil,
    List.reverse_reverse]

/-- Names in front of a list that leads nowhere above its start stay in front of its normal form. -/
theorem normalize_names_append (hnames : up ∉ names) (h : up ∉ normalize components) :
    normalize (names ++ components) = names ++ normalize components := by
  have hzero : surplus 0 components = 0 := by rwa [mem_normalize_iff, not_not] at h
  have hdeeper : surplus (0 + names.length) components = 0 := by
    refine (surplus_eq_zero_iff _).2 fun front hfront => ?_
    have := (surplus_eq_zero_iff 0).1 hzero front hfront
    omega
  have hbelow := foldl_rootedStep_append [] hzero names.reverse
  rw [List.nil_append] at hbelow
  rw [normalize_eq, normalize_eq, surplus_names hnames, hdeeper, hzero, rooted, List.foldl_append,
    foldl_rootedStep_names hnames, List.append_nil, hbelow, List.reverse_append,
    List.reverse_reverse]
  rfl

end Path

end ModelIR
