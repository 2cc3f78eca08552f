import ModelIR.Proofs.FileViews
import ModelIR.Proofs.WalkOrder

/-!
# What a scan selects

A scan looks at what a walk meets, one file after the other. The first file whose name is asked for
and whose path is too short ends it; if there is none, the models are the files that are asked for,
in the order of the walk (`FileTree.scan_selects`).
-/

namespace ModelIR

namespace Filter

/-- What is asked of the name of a file. -/
structure WantsName (f : Filter) (name : String) : Prop where
  extension : modelExtension.toList <:+ name.toList
  included : f.topology = [] ∨ baseName name ∈ f.topology
  not_excluded : baseName name ∉ f.notTopology

/-- What is asked of a model. -/
structure WantsModel (f : Filter) (model : Model) : Prop where
  framework : f.framework = [] ∨ model.framework ∈ f.framework
  precision : f.precision = [] ∨ model.precision ∈ f.precision

variable {f : Filter}

theorem allows_iff {list : List String} {value : String} :
    allows list value = true ↔ list = [] ∨ value ∈ list := by
  rw [allows, Bool.or_eq_true, List.isEmpty_iff, List.contains_iff_mem]

theorem wants_iff {name : String} : Scan.wants f name = true ↔ f.WantsName name := by
  rw [Scan.wants, admitsTopology, Bool.and_eq_true, Bool.and_eq_true, List.isSuffixOf_iff_suffix,
    allows_iff, Bool.not_eq_true', ← Bool.not_eq_true, List.contains_iff_mem]
  exact ⟨fun ⟨h₁, h₂, h₃⟩ => ⟨h₁, h₂, h₃⟩, fun ⟨h₁, h₂, h₃⟩ => ⟨h₁, h₂, h₃⟩⟩

theorem admitsModel_iff {model : Model} : f.admitsModel model = true ↔ f.WantsModel model := by
  rw [admitsModel, admitsKind, Bool.and_eq_true, allows_iff, allows_iff]
  exact ⟨fun ⟨h₁, h₂⟩ => ⟨h₁, h₂⟩, fun ⟨h₁, h₂⟩ => ⟨h₁, h₂⟩⟩

end Filter

namespace Scan

variable {f : Filter} {v : Visit} {visits : List Visit} {scan : Scan} {e : ScanError}

/-! ## One visit after the other -/

theorem ofVisits_nil (f : Filter) : ofVisits f [] = .ok {} :=
  rfl

theorem ofVisits_cons_ok {found : Option Model} (h : modelOf f v = .ok found)
    (hrest : ofVisits f visits = .ok scan) : ofVisits f (v :: visits) =
      .ok { models := found.toList ++ scan.models, filesVisited := scan.filesVisited + 1 } := by
  rw [ofVisits] at hrest
  rw [ofVisits, List.mapM_cons, h]
  rcases hvisits : visits.mapM (modelOf f) with e | all <;> rw [hvisits] at hrest
  · exact absurd hrest nofun
  · obtain rfl := Except.ok.inj hrest
    rcases found with _ | model <;> rfl

theorem ofVisits_cons_error (h : modelOf f v = .error e) (visits : List Visit) :
    ofVisits f (v :: visits) = .error e := by
  rw [ofVisits, List.mapM_cons, h]
  rfl

theorem ofVisits_cons_of_error {found : Option Model} (h : modelOf f v = .ok found)
    (hrest : ofVisits f visits = .error e) : ofVisits f (v :: visits) = .error e := by
  rw [ofVisits] at hrest
  rw [ofVisits, List.mapM_cons, h]
  rcases hvisits : visits.mapM (modelOf f) with e' | all <;> rw [hvisits] at hrest
  · obtain rfl := Except.error.inj hrest
    rfl
  · exact absurd hrest nofun

/-- A scan that fails does so at the first visit that does. -/
theorem ofVisits_eq_error_iff : ofVisits f visits = .error e ↔
    ∃ before v after, visits = before ++ v :: after ∧
      (∀ u ∈ before, ∃ found, modelOf f u = .ok found) ∧ modelOf f v = .error e := by
  induction visits with
  | nil => simp [ofVisits_nil]
  | cons v visits ih =>
    constructor
    · intro h
      rcases hv : modelOf f v with e' | found
      · rw [ofVisits_cons_error hv] at h
        obtain rfl := Except.error.inj h
        exact ⟨[], v, visits, rfl, nofun, hv⟩
      · rcases hvisits : ofVisits f visits with e' | scan
        · rw [ofVisits_cons_of_error hv hvisits] at h
          obtain rfl := Except.error.inj h
          obtain ⟨before, u, after, rfl, hbefore, hu⟩ := ih.1 hvisits
          exact ⟨v :: before, u, after, rfl, List.forall_mem_cons.2 ⟨⟨found, hv⟩, hbefore⟩, hu⟩
        · rw [ofVisits_cons_ok hv hvisits] at h
          simp at h
    · rintro ⟨before, u, after, hsplit, hbefore, hu⟩
      cases before with
      | nil =>
        obtain ⟨rfl, -⟩ := List.cons.inj hsplit
        exact ofVisits_cons_error hu visits
      | cons v' before =>
        obtain ⟨rfl, rfl⟩ := List.cons.inj hsplit
        obtain ⟨⟨found, hv⟩, hbefore⟩ := List.forall_mem_cons.1 hbefore
        exact ofVisits_cons_of_error hv (ih.2 ⟨before, u, after, rfl, hbefore, hu⟩)

/-! ## Files on a walk -/

variable {dir : Path} {way : Location} {ways : List Location}

/-- What is met at the end of a way that leads to no directory. -/
def visitAt (dir : Path) (way : Location) : Visit :=
  .file (dir.extend way) (way.getLast?.getD [])

/-- The last name of a way, as text. -/
def nameAt (way : Location) : String :=
  Lossy.decode (way.getLast?.getD [])

/-- A file has a name that is asked for, but a path that is too short for its layout. -/
def Offends (f : Filter) (dir : Path) (way : Location) (e : ShallowPath) : Prop :=
  f.WantsName (nameAt way) ∧ Model.ofPath (dir.extend way) = .error e

/-- A file is a model that is asked for. -/
def Chooses (f : Filter) (dir : Path) (way : Location) : Prop :=
  f.WantsName (nameAt way) ∧ ∃ model, Model.ofPath (dir.extend way) = .ok model ∧ f.WantsModel model

theorem modelOf_visitAt (f : Filter) (dir : Path) (way : Location) : modelOf f (visitAt dir way) =
    if wants f (nameAt way) then
      match Model.ofPath (dir.extend way) with
      | .ok model => .ok (if f.admitsModel model then some model else none)
      | .error e => .error (.shallow e)
    else .ok none :=
  rfl

theorem modelOf_of_offends {e : ShallowPath} (h : Offends f dir way e) :
    modelOf f (visitAt dir way) = .error (.shallow e) := by
  rw [modelOf_visitAt, if_pos (Filter.wants_iff.2 h.1), h.2]

theorem modelOf_of_not_offends (h : ∀ e, ¬ Offends f dir way e) :
    ∃ found, modelOf f (visitAt dir way) = .ok found ∧
      (∀ model, found = some model → Model.ofPath (dir.extend way) = .ok model) ∧
      (found.isSome = true ↔ Chooses f dir way) := by
  rw [modelOf_visitAt]
  by_cases hname : f.WantsName (nameAt way)
  · rw [if_pos (Filter.wants_iff.2 hname)]
    rcases hmodel : Model.ofPath (dir.extend way) with e | model
    · exact absurd ⟨hname, hmodel⟩ (h e)
    · refine ⟨_, rfl, ?_, ?_⟩
      · intro model' heq
        split_ifs at heq
        exact congrArg Except.ok (Option.some.inj heq)
      · rw [Chooses, hmodel]
        by_cases hwants : f.WantsModel model
        · rw [if_pos (Filter.admitsModel_iff.2 hwants)]
          exact ⟨fun _ => ⟨hname, model, rfl, hwants⟩, fun _ => rfl⟩
        · rw [if_neg fun hadmits => hwants (Filter.admitsModel_iff.1 hadmits)]
          refine ⟨nofun, ?_⟩
          rintro ⟨-, model', hmodel', hwants'⟩
          exact absurd (Except.ok.inj hmodel' ▸ hwants') hwants
  · rw [if_neg fun hwants => hname (Filter.wants_iff.1 hwants)]
    exact ⟨none, rfl, nofun, nofun, fun hchosen => absurd hchosen.1 hname⟩

/-- What is found along some ways: all are counted, and the models are those of the ways that are
chosen, in their order. -/
structure Selects (f : Filter) (dir : Path) (ways : List Location) (scan : Scan) : Prop where
  filesVisited : scan.filesVisited = ways.length
  models : ∃ chosen : List Location, chosen.Sublist ways ∧
    (∀ way, way ∈ chosen ↔ way ∈ ways ∧ Chooses f dir way) ∧
    scan.models.map .ok = chosen.map fun way => Model.ofPath (dir.extend way)

/-- One more way in front. It does not come twice, so one that is not chosen is not among the ways
behind it, either. -/
theorem Selects.cons {found : Option Model} (h : Selects f dir ways scan)
    (hmodel : ∀ model, found = some model → Model.ofPath (dir.extend way) = .ok model)
    (hfound : found.isSome = true ↔ Chooses f dir way) (hway : way ∉ ways) :
    Selects f dir (way :: ways)
      { models := found.toList ++ scan.models, filesVisited := scan.filesVisited + 1 } := by
  obtain ⟨chosen, hsublist, hmem, hmodels⟩ := h.models
  refine ⟨by rw [h.filesVisited, List.length_cons], ?_⟩
  rcases found with _ | model
  · refine ⟨chosen, hsublist.cons _, fun other => ?_, hmodels⟩
    rw [hmem, List.mem_cons, or_and_right, iff_or_self]
    rintro ⟨rfl, hchosen⟩
    exact absurd (hfound.2 hchosen) nofun
  · refine ⟨way :: chosen, hsublist.cons_cons way, fun other => ?_, ?_⟩
    · rw [List.mem_cons, List.mem_cons, hmem, or_and_right]
      refine or_congr_left ⟨?_, And.left⟩
      rintro rfl
      exact ⟨rfl, hfound.1 rfl⟩
    · rw [Option.toList_some, List.singleton_append, List.map_cons, List.map_cons, hmodels,
        hmodel model rfl]

theorem exists_selects : ∀ {ways : List Location}, ways.Nodup →
    (∀ way ∈ ways, ∀ e, ¬ Offends f dir way e) →
      ∃ scan, ofVisits f (ways.map (visitAt dir)) = .ok scan ∧ Selects f dir ways scan
  | [], _, _ => ⟨{}, rfl, rfl, [], .slnil, by simp, rfl⟩
  | way :: ways, hnodup, h => by
    obtain ⟨hway, hnodup⟩ := List.nodup_cons.1 hnodup
    obtain ⟨hhead, hrest⟩ := List.forall_mem_cons.1 h
    obtain ⟨scan, hscan, hselects⟩ := exists_selects hnodup hrest
    obtain ⟨found, hfound, hmodel, hchosen⟩ := modelOf_of_not_offends hhead
    exact ⟨_, ofVisits_cons_ok hfound hscan, hselects.cons hmodel hchosen hway⟩

theorem ofVisits_of_offends {before after : List Location} {e : ShallowPath}
    (hbefore : ∀ other ∈ before, ∀ e, ¬ Offends f dir other e) (h : Offends f dir way e) :
    ofVisits f ((before ++ way :: after).map (visitAt dir)) = .error (.shallow e) := by
  rw [List.map_append, List.map_cons, ofVisits_eq_error_iff]
  refine ⟨_, _, _, rfl, List.forall_mem_map.2 fun other hother => ?_, modelOf_of_offends h⟩
  obtain ⟨found, hfound, -⟩ := modelOf_of_not_offends (hbefore other hother)
  exact ⟨found, hfound⟩

end Scan

/-! ## Trees of files -/

namespace FileTree

variable {t : FileTree} {f : Filter} {dir : Path} {location : Location} {below : Entry}

theorem exists_visits (hdir : t.resolve dir = .ok (.found location below))
    (hdistinct : below.Distinct) (hlistable : below.Listable dir) :
    ∃ ways, below.IsWalk ways ∧ t.view.visits dir = ways.map (Scan.visitAt dir) := by
  change ∃ ways, _ ∧ t.visits dir = _
  rw [visits, hdir]
  cases below with
  | dir entries =>
    exact ⟨_, Entry.isWalk_leaves hdistinct, Entry.visits_eq _ dir [] hdistinct hlistable⟩
  | _ => exact ⟨[], Entry.isWalk_nil rfl, rfl⟩

/-- A scan of what a path leads to fails at the first file on the walk whose name is asked for and
whose path is too short. If there is none, it counts all files on the walk, and selects those that
are models which are asked for. Nothing is found below what is no directory. -/
theorem scan_selects (hdir : t.resolve dir = .ok (.found location below))
    (hdistinct : below.Distinct) (hlistable : below.Listable dir) (f : Filter) :
    ∃ ways, below.IsWalk ways ∧
      (∀ before way after e, ways = before ++ way :: after →
        (∀ other ∈ before, ∀ e, ¬ Scan.Offends f dir other e) → Scan.Offends f dir way e →
          (Scan.run files f dir).run t = (.error (.shallow e), t)) ∧
      ((∀ way ∈ ways, ∀ e, ¬ Scan.Offends f dir way e) →
        ∃ scan, (Scan.run files f dir).run t = (.ok scan, t) ∧ Scan.Selects f dir ways scan) ∧
      (below.isDir = false → (Scan.run files f dir).run t = (.ok {}, t)) := by
  have hpresent : t.view.present dir = true := by
    change t.present dir = true
    rw [present, hdir]
  obtain ⟨ways, hwalk, hvisits⟩ := exists_visits hdir hdistinct hlistable
  rw [shows_files.run_scan, Scan.ofView, if_pos hpresent, hvisits]
  refine ⟨ways, hwalk, ?_, ?_, ?_⟩
  · rintro before way after e rfl hbefore hoffends
    exact congrArg (·, t) (Scan.ofVisits_of_offends hbefore hoffends)
  · intro h
    obtain ⟨scan, hscan, hselects⟩ := Scan.exists_selects hwalk.nodup h
    exact ⟨scan, congrArg (·, t) hscan, hselects⟩
  · intro hdir
    rw [hwalk.eq_nil hdir]
    rfl

section Siblings

/-- A directory over others, each the only entry of the one above, with a model in the last. -/
def siblingBranch : Entry :=
  .dir [([0x62], .dir [([0x46], .dir [([0x64],
    .dir [([0x6D, 0x2E, 0x78, 0x6D, 0x6C], .file {})])])])]

/-- A cache of two models and a link. The name of one directory is the start of the name of the
other, so that the walk goes another way than the texts of the paths. -/
def siblingCache : Entry :=
  .dir [([0x61, 0x2D], siblingBranch), ([0x6C], .link ⟨[0x61]⟩), ([0x61], siblingBranch)]

/-- A tree of this cache. -/
def siblingTree : FileTree where
  root := .dir [([0x63], siblingCache)]

/-- The path of the cache. -/
def siblingDir : Path :=
  ⟨[0x63]⟩

theorem resolve_siblingTree : siblingTree.resolve siblingDir = .ok (.found [[0x63]] siblingCache) :=
  rfl

theorem distinct_siblingCache : siblingCache.Distinct := by
  have hbranch : siblingBranch.Distinct := by simp [siblingBranch, Entry.distinct_dir]
  simp [siblingCache, Entry.distinct_dir, hbranch]

theorem listable_siblingCache : siblingCache.Listable siblingDir := by
  simp (disch := decide) only [siblingCache, siblingBranch, Entry.listable_dir,
    List.forall_mem_cons, Entry.listable_file, Entry.listable_link, List.not_mem_nil,
    false_implies, implies_true, and_true, true_and]
  decide

/-- The ways down in this cache. -/
def siblingWays : List Location :=
  [[[0x61], [0x62], [0x46], [0x64], [0x6D, 0x2E, 0x78, 0x6D, 0x6C]],
    [[0x61, 0x2D], [0x62], [0x46], [0x64], [0x6D, 0x2E, 0x78, 0x6D, 0x6C]], [[0x6C]]]

/-- What is found in this cache. -/
def siblingScan : Scan where
  models := [
    ⟨"m.xml", siblingDir.extend [[0x61], [0x62], [0x46], [0x64], [0x6D, 0x2E, 0x78, 0x6D, 0x6C]],
      .plain, "c", "b"⟩,
    ⟨"m.xml", siblingDir.extend [[0x61, 0x2D], [0x62], [0x46], [0x64],
      [0x6D, 0x2E, 0x78, 0x6D, 0x6C]], .plain, "c", "b"⟩]
  filesVisited := 3

theorem isWalk_siblingCache : siblingCache.IsWalk siblingWays := by
  have hsort : sortByName [([0x61, 0x2D], siblingBranch), ([0x6C], .link ⟨[0x61]⟩),
        ([0x61], siblingBranch)] =
      [([0x61], siblingBranch), ([0x61, 0x2D], siblingBranch), ([0x6C], .link ⟨[0x61]⟩)] := by
    refine sortByName_eq (List.perm_append_singleton _ [_, _]) ?_
    simp only [List.pairwise_cons, List.forall_mem_cons]
    decide
  have hleaves : siblingCache.leaves = siblingWays := by
    rw [siblingCache, Entry.leaves_dir, hsort]
    decide +kernel
  rw [← hleaves]
  exact Entry.isWalk_leaves distinct_siblingCache

theorem not_offends_siblingCache :
    ∀ way ∈ siblingWays, ∀ e, ¬ Scan.Offends {} siblingDir way e := by
  have hmodels : siblingWays.all fun way =>
      (Scan.modelOf {} (Scan.visitAt siblingDir way)).isOk := by decide +kernel
  intro way hway e hoffends
  have hmodel := List.all_eq_true.1 hmodels way hway
  rw [Scan.modelOf_of_offends hoffends] at hmodel
  exact Bool.false_ne_true hmodel

theorem ofVisits_siblingWays :
    Scan.ofVisits {} (siblingWays.map (Scan.visitAt siblingDir)) = .ok siblingScan := by
  decide +kernel

theorem run_siblingTree :
    (Scan.run files {} siblingDir).run siblingTree = (.ok siblingScan, siblingTree) := by
  obtain ⟨ways, hwalk, hvisits⟩ :=
    exists_visits resolve_siblingTree distinct_siblingCache listable_siblingCache
  have hpresent : siblingTree.view.present siblingDir = true := rfl
  rw [shows_files.run_scan, Scan.ofView, if_pos hpresent, hvisits,
    hwalk.unique isWalk_siblingCache, ofVisits_siblingWays]

/-- No file in the cache has a path that is too short, so both models are selected, and the link is
counted. -/
theorem siblingTree_selects : siblingTree.resolve siblingDir = .ok (.found [[0x63]] siblingCache) ∧
    siblingCache.Distinct ∧ siblingCache.Listable siblingDir ∧
    ∃ ways, siblingCache.IsWalk ways ∧
      (∀ way ∈ ways, ∀ e, ¬ Scan.Offends {} siblingDir way e) ∧
      (Scan.run files {} siblingDir).run siblingTree = (.ok siblingScan, siblingTree) ∧
      Scan.Selects {} siblingDir ways siblingScan := by
  obtain ⟨ways, hwalk, -, hselects, -⟩ :=
    scan_selects resolve_siblingTree distinct_siblingCache listable_siblingCache {}
  obtain rfl := hwalk.unique isWalk_siblingCache
  have hoffends := not_offends_siblingCache
  obtain ⟨scan, hrun, hselects⟩ := hselects hoffends
  obtain rfl : scan = siblingScan :=
    Except.ok.inj (Prod.mk.inj (hrun.symm.trans run_siblingTree)).1
  exact ⟨resolve_siblingTree, distinct_siblingCache, listable_siblingCache, _, hwalk, hoffends,
    hrun, hselects⟩

end Siblings

end FileTree

end ModelIR
