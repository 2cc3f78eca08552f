import Mathlib.Data.List.Sort
import ModelIR.Files.Walk
import ModelIR.Proofs.Lookup

/-!
# The order of a walk

A walk through a directory meets what is no directory below it, each once, by the names on the way
(`Entry.visits_eq`, `Entry.isWalk_leaves`): the first names that two ways do not share tell which is
met first. There is no other such walk (`Entry.IsWalk.unique`), so that it does not depend on the
order in which the entries of a directory are listed.
-/

namespace ModelIR

/-- The path of what some names lead to below a path. -/
def Path.extend (p : Path) (way : Location) : Path :=
  way.foldl Path.join p

theorem Path.extend_cons (p : Path) (name : Name) (way : Location) :
    p.extend (name :: way) = (p.join name).extend way :=
  rfl

section SortByName

variable {α β : Type}

theorem mem_sortByName {p : Name × α} {l : List (Name × α)} : p ∈ sortByName l ↔ p ∈ l :=
  List.mem_mergeSort

/-- What belongs to a name has no part in the order. -/
theorem sortByName_map (f : Name × α → β) (l : List (Name × α)) :
    sortByName (l.map fun p => (p.1, f p)) = (sortByName l).map fun p => (p.1, f p) :=
  (List.map_mergeSort (f := fun p : Name × α => (p.1, f p)) fun _ _ _ _ => rfl).symm

/-- Distinct names ascend when they are sorted: two neighbours do not descend by the sort, and are
not equal since none were before it. -/
theorem pairwise_sortByName {l : List (Name × α)} (h : (l.map Prod.fst).Nodup) :
    (sortByName l).Pairwise fun p q => p.1 < q.1 := by
  have hle : (sortByName l).Pairwise fun p q => decide (p.1 ≤ q.1) = true := by
    refine List.pairwise_mergeSort (fun p q r hpq hqr => ?_) (fun p q => ?_) l
    · rw [decide_eq_true_eq] at *
      exact List.le_trans hpq hqr
    · rw [Bool.or_eq_true, decide_eq_true_eq, decide_eq_true_eq]
      exact List.le_total p.1 q.1
  have hne : (sortByName l).Pairwise fun p q => p.1 ≠ q.1 := by
    have hperm : ((sortByName l).map Prod.fst).Perm (l.map Prod.fst) :=
      (List.mergeSort_perm l _).map _
    exact List.pairwise_map.1 (hperm.nodup_iff.2 h)
  refine hle.imp₂ (fun p q hpq hpq' => ?_) hne
  by_contra hlt
  exact hpq' (List.le_antisymm (of_decide_eq_true hpq) hlt)

/-- There is one way to put distinct names in ascending order. -/
theorem sortByName_eq {l l' : List (Name × α)} (hperm : l.Perm l')
    (hascending : l'.Pairwise fun p q => p.1 < q.1) : sortByName l = l' := by
  have hnames : (l'.map Prod.fst).Nodup := by
    refine List.pairwise_map.2 (hascending.imp fun {p q} hlt heq => ?_)
    rw [heq] at hlt
    exact List.lt_irrefl q.1 hlt
  have hsorted := pairwise_sortByName ((hperm.map Prod.fst).nodup_iff.2 hnames)
  exact ((List.mergeSort_perm l _).trans hperm).eq_of_pairwise
    (fun _ _ _ _ hlt hgt => absurd hgt (List.lt_asymm hlt)) hsorted hascending

end SortByName

namespace Entry

/-- Whether an entry is a directory. -/
def isDir : Entry → Bool
  | dir _ => true
  | _ => false

mutual

/-- What holds of a directory if it holds of its entries, and of all else, holds of every entry. -/
@[elab_as_elim]
theorem induct {P : Entry → Prop} (file : ∀ f, P (file f)) (link : ∀ target, P (link target))
    (dir : ∀ entries, (∀ p ∈ entries, P p.2) → P (dir entries)) : ∀ e, P e
  | .file f => file f
  | .link target => link target
  | .dir entries => dir entries (inductAll file link dir entries)

theorem inductAll {P : Entry → Prop} (file : ∀ f, P (file f)) (link : ∀ target, P (link target))
    (dir : ∀ entries, (∀ p ∈ entries, P p.2) → P (dir entries)) :
    ∀ entries : List (Name × Entry), ∀ p ∈ entries, P p.2
  | [] => nofun
  | (_, e) :: entries =>
    List.forall_mem_cons.2 ⟨induct file link dir e, inductAll file link dir entries⟩

end

/-! ## Trees that are walked -/

/-- No directory has two entries of one name. -/
def Distinct (e : Entry) : Prop :=
  ∀ way entries, e.at? way = some (dir entries) → (entries.map Prod.fst).Nodup

/-- The directories below a path, where the entry is, can be listed. -/
def Listable (p : Path) (e : Entry) : Prop :=
  ∀ way entries, e.at? way = some (dir entries) → (p.extend way).bytes.length ≤ maxPathLength

theorem at?_of_not_dir {e d : Entry} {way : Location} (h : e.isDir = false)
    (hat : e.at? way = some d) :
    way = [] ∧ d = e := by
  cases e with
  | dir entries => simp [isDir] at h
  | _ =>
    cases way with
    | nil => exact ⟨rfl, (Option.some.inj hat).symm⟩
    | cons name way => simp [at?] at hat

/-- No directory is below what is none. -/
theorem at?_ne_dir {e : Entry} (h : e.isDir = false) (way : Location)
    (entries : List (Name × Entry)) : e.at? way ≠ some (dir entries) := by
  intro hat
  obtain ⟨-, rfl⟩ := at?_of_not_dir h hat
  simp [isDir] at h

theorem distinct_of_not_dir {e : Entry} (h : e.isDir = false) : e.Distinct :=
  fun way entries hat => absurd hat (at?_ne_dir h way entries)

theorem listable_of_not_dir {e : Entry} (h : e.isDir = false) (p : Path) : e.Listable p :=
  fun way entries hat => absurd hat (at?_ne_dir h way entries)

@[simp] theorem distinct_file (f : File) : (file f).Distinct :=
  distinct_of_not_dir rfl

@[simp] theorem distinct_link (target : Path) : (link target).Distinct :=
  distinct_of_not_dir rfl

@[simp] theorem listable_file (f : File) (p : Path) : (file f).Listable p :=
  listable_of_not_dir rfl p

@[simp] theorem listable_link (target : Path) (p : Path) : (link target).Listable p :=
  listable_of_not_dir rfl p

section Dir

variable {entries : List (Name × Entry)} {name : Name} {way : Location} {e : Entry} {p : Path}

/-- What some names lead to from a directory is what all but the first lead to from an entry. -/
theorem at?_dir_cons (hnames : (entries.map Prod.fst).Nodup) :
    (dir entries).at? (name :: way) = some e ↔ ∃ d, (name, d) ∈ entries ∧ d.at? way = some e := by
  rw [at?]
  constructor
  · intro h
    split at h
    · next d hd => exact ⟨d, mem_of_lookup hd, h⟩
    · simp at h
  · rintro ⟨d, hd, h⟩
    rw [lookup_of_mem hnames hd]
    exact h

theorem distinct_dir : (dir entries).Distinct ↔
    (entries.map Prod.fst).Nodup ∧ ∀ p ∈ entries, p.2.Distinct := by
  constructor
  · intro h
    have hnames : (entries.map Prod.fst).Nodup := h [] entries rfl
    exact ⟨hnames, fun p hp way below hat =>
      h (p.1 :: way) below ((at?_dir_cons hnames).2 ⟨p.2, hp, hat⟩)⟩
  · rintro ⟨hnames, h⟩ way below hat
    cases way with
    | nil =>
      obtain rfl := Entry.dir.inj (Option.some.inj hat)
      exact hnames
    | cons name way =>
      obtain ⟨d, hd, hat⟩ := (at?_dir_cons hnames).1 hat
      exact h (name, d) hd way below hat

theorem listable_dir (hnames : (entries.map Prod.fst).Nodup) : (dir entries).Listable p ↔
    p.bytes.length ≤ maxPathLength ∧ ∀ q ∈ entries, q.2.Listable (p.join q.1) := by
  constructor
  · intro h
    exact ⟨h [] entries rfl,
      fun q hq way below hat => h (q.1 :: way) below ((at?_dir_cons hnames).2 ⟨q.2, hq, hat⟩)⟩
  · rintro ⟨hlength, h⟩ way below hat
    cases way with
    | nil => exact hlength
    | cons name way =>
      obtain ⟨d, hd, hat⟩ := (at?_dir_cons hnames).1 hat
      exact h (name, d) hd way below hat

end Dir

/-! ## Ways to what is no directory -/

mutual

/-- The ways from an entry to what is no directory, by ascending names. -/
def leaves : Entry → List Location
  | dir entries => (sortByName (leavesByName entries)).flatMap fun p => p.2.map (p.1 :: ·)
  | file _ => [[]]
  | link _ => [[]]

def leavesByName : List (Name × Entry) → List (Name × List Location)
  | [] => []
  | (name, e) :: entries => (name, e.leaves) :: leavesByName entries

end

theorem leavesByName_eq (entries : List (Name × Entry)) :
    leavesByName entries = entries.map fun p => (p.1, p.2.leaves) := by
  induction entries with
  | nil => rfl
  | cons p entries ih => rw [leavesByName, ih, List.map_cons]

theorem leaves_dir (entries : List (Name × Entry)) : (dir entries).leaves =
    (sortByName entries).flatMap fun p => p.2.leaves.map (p.1 :: ·) := by
  rw [leaves, leavesByName_eq, sortByName_map (fun p : Name × Entry => p.2.leaves),
    List.flatMap_map]

theorem visitsByName_eq (path : Path) (entries : List (Name × Entry)) :
    visitsByName path entries = entries.map fun p => (p.1, p.2.visits (path.join p.1) p.1) := by
  induction entries with
  | nil => rfl
  | cons p entries ih => rw [visitsByName, ih, List.map_cons]

/-- In a directory that can be listed the names are visited in ascending order. -/
theorem visits_dir {path : Path} {entries sorted : List (Name × Entry)}
    (hlength : path.bytes.length ≤ maxPathLength) (hperm : entries.Perm sorted)
    (hascending : sorted.Pairwise fun p q => p.1 < q.1) (name : Name) :
    (dir entries).visits path name =
      sorted.flatMap fun p => p.2.visits (path.join p.1) p.1 := by
  rw [visits, if_neg (Nat.not_lt.2 hlength), visitsByName_eq,
    sortByName_map (fun p : Name × Entry => p.2.visits (path.join p.1) p.1),
    sortByName_eq hperm hascending, List.flatMap_map]

/-- What is met at an entry is what its ways lead to, in their order. -/
theorem visits_eq (e : Entry) : ∀ (path : Path) (name : Name), e.Distinct → e.Listable path →
    e.visits path name =
      e.leaves.map fun way => .file (path.extend way) (way.getLast?.getD name) := by
  induction e using induct with
  | file f => exact fun path name _ _ => rfl
  | link target => exact fun path name _ _ => rfl
  | dir entries ih =>
    intro path name hdistinct hlistable
    obtain ⟨hnames, hdistinct⟩ := distinct_dir.1 hdistinct
    obtain ⟨hlength, hlistable⟩ := (listable_dir hnames).1 hlistable
    rw [visits, if_neg (Nat.not_lt.2 hlength), visitsByName_eq,
      sortByName_map (fun p : Name × Entry => p.2.visits (path.join p.1) p.1),
      List.flatMap_map, leaves_dir, List.map_flatMap]
    refine List.flatMap_congr fun p hp => ?_
    replace hp := mem_sortByName.1 hp
    rw [ih p hp (path.join p.1) p.1 (hdistinct p hp) (hlistable p hp), List.map_map]
    exact List.map_congr_left fun way _ => by
      rw [Function.comp_apply, Path.extend_cons, List.getLast?_cons, Option.getD_some]

/-- Ways through one entry differ below it, ways through two entries at their first names. -/
theorem pairwise_leaves (e : Entry) : e.Distinct → e.leaves.Pairwise (· < ·) := by
  induction e using induct with
  | file f => exact fun _ => List.pairwise_singleton _ _
  | link target => exact fun _ => List.pairwise_singleton _ _
  | dir entries ih =>
    intro hdistinct
    obtain ⟨hnames, hdistinct⟩ := distinct_dir.1 hdistinct
    rw [leaves_dir, List.pairwise_flatMap]
    constructor
    · intro p hp
      replace hp := mem_sortByName.1 hp
      refine List.pairwise_map.2 ((ih p hp (hdistinct p hp)).imp fun hlt => ?_)
      exact List.cons_lt_cons_iff.2 (.inr ⟨rfl, hlt⟩)
    · refine (pairwise_sortByName hnames).imp fun hlt way hway other hother => ?_
      obtain ⟨way, -, rfl⟩ := List.mem_map.1 hway
      obtain ⟨other, -, rfl⟩ := List.mem_map.1 hother
      exact List.cons_lt_cons_iff.2 (.inl hlt)

theorem mem_leaves (e : Entry) : e.Distinct → ∀ way,
    way ∈ e.leaves ↔ ∃ d, e.at? way = some d ∧ d.isDir = false := by
  have hsingle : ∀ e : Entry, e.isDir = false → ∀ way,
      way ∈ [([] : Location)] ↔ ∃ d, e.at? way = some d ∧ d.isDir = false := by
    intro e hdir way
    rw [List.mem_singleton]
    refine ⟨?_, fun ⟨d, hat, _⟩ => (at?_of_not_dir hdir hat).1⟩
    rintro rfl
    exact ⟨e, rfl, hdir⟩
  induction e using induct with
  | file f => exact fun _ => hsingle (file f) rfl
  | link target => exact fun _ => hsingle (link target) rfl
  | dir entries ih =>
    intro hdistinct way
    obtain ⟨hnames, hdistinct⟩ := distinct_dir.1 hdistinct
    rw [leaves_dir, List.mem_flatMap]
    cases way with
    | nil =>
      constructor
      · rintro ⟨p, -, h⟩
        simp at h
      · rintro ⟨d, hat, hdir⟩
        obtain rfl := Option.some.inj hat
        simp [isDir] at hdir
    | cons name way =>
      constructor
      · rintro ⟨⟨other, d⟩, hp, h⟩
        replace hp := mem_sortByName.1 hp
        obtain ⟨way', hway, heq⟩ := List.mem_map.1 h
        obtain ⟨rfl, rfl⟩ := List.cons.inj heq
        obtain ⟨d', hat, hdir⟩ := (ih _ hp (hdistinct _ hp) way').1 hway
        exact ⟨d', (at?_dir_cons hnames).2 ⟨d, hp, hat⟩, hdir⟩
      · rintro ⟨d', hat, hdir⟩
        obtain ⟨d, hp, hat⟩ := (at?_dir_cons hnames).1 hat
        refine ⟨(name, d), mem_sortByName.2 hp, List.mem_map_of_mem ?_⟩
        exact (ih _ hp (hdistinct _ hp) way).2 ⟨d', hat, hdir⟩

/-- The ways down from an entry to all that is no directory, in the order of their names. -/
structure IsWalk (below : Entry) (ways : List Location) : Prop where
  ascending : ways.Pairwise (· < ·)
  complete : ∀ way, way ∈ ways ↔ way ≠ [] ∧ ∃ d, below.at? way = some d ∧ d.isDir = false

theorem IsWalk.nodup {below : Entry} {ways : List Location} (h : below.IsWalk ways) :
    ways.Nodup := by
  refine h.ascending.imp fun {way other} hlt heq => ?_
  rw [heq] at hlt
  exact List.lt_irrefl other hlt

theorem IsWalk.unique {below : Entry} {ways ways' : List Location} (h : below.IsWalk ways)
    (h' : below.IsWalk ways') : ways = ways' :=
  h.ascending.eq_of_mem_iff h'.ascending fun way => (h.complete way).trans (h'.complete way).symm

theorem isWalk_leaves {entries : List (Name × Entry)} (h : (dir entries).Distinct) :
    (dir entries).IsWalk (dir entries).leaves where
  ascending := pairwise_leaves _ h
  complete way := by
    rw [mem_leaves _ h, iff_and_self]
    rintro ⟨d, hat, hdir⟩ rfl
    obtain rfl := Option.some.inj hat
    simp [isDir] at hdir

/-- Nothing is below what is no directory. -/
theorem isWalk_nil {below : Entry} (h : below.isDir = false) : below.IsWalk [] where
  ascending := .nil
  complete way := by
    simp only [List.not_mem_nil, false_iff, not_and]
    rintro hway ⟨d, hat, -⟩
    exact hway (at?_of_not_dir h hat).1

theorem IsWalk.eq_nil {below : Entry} {ways : List Location} (h : below.IsWalk ways)
    (hdir : below.isDir = false) : ways = [] :=
  h.unique (isWalk_nil hdir)

end Entry

end ModelIR
