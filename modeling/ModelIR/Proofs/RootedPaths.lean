import ModelIR.CommandLine.Arguments
import ModelIR.Proofs.LayoutSlots
import ModelIR.Proofs.SavedFiles
import ModelIR.Proofs.WalkOrder

/-!
# Paths from the root

The directory above the root is the root, so a path from the root has a normal form without double
dots, `Path.lexical`, and that is where one arrives who goes along it without meeting a link
(`FileTree.Walks.found_eq`). The segments have in front of it the double dots that lead above the
root. These fill slots: a path whose normal form is too short for its layout is taken for a model of
the framework `..` if there are enough of them, and all others tell what their normal form tells
(`Model.ofPath_rooted`).
-/

namespace ModelIR

namespace Path

variable {p : Path} {name : List UInt8}

/-- The normal form of a path from the root. -/
def lexical (p : Path) : Path :=
  ⟨slash :: joinWith slash (rooted p.components)⟩

theorem ordinary_of_mem_rooted (h : name ∈ rooted p.components) : Ordinary name := by
  have hnormal : name ∈ normalize p.components := by
    rw [normalize_eq]
    exact List.mem_append_right _ h
  obtain ⟨hnil, hhere, hslash⟩ := of_mem_normalize hnormal
  exact ⟨hnil, hhere, fun hup => not_mem_rooted _ (hup ▸ h), hslash⟩

theorem components_lexical (p : Path) : p.lexical.components = rooted p.components := by
  have hnames : ∀ name ∈ rooted p.components, Ordinary name := fun _ => ordinary_of_mem_rooted
  have hrest : (⟨joinWith slash (rooted p.components)⟩ : Path).components = rooted p.components :=
    (components_ofParts fun name hname => (hnames name hname).no_slash).trans (spoken_names hnames)
  exact (components_append_slash [] _).trans hrest

theorem segments_lexical (p : Path) :
    p.lexical.segments = (rooted p.components).map Lossy.decode := by
  have hnormal := normalize_of_normal (not_mem_rooted p.components) 0
  rw [List.replicate_zero, List.nil_append] at hnormal
  rw [segments, components_lexical, hnormal]

/-- The segments are the double dots that lead above the root, and those of the normal form. -/
theorem segments_eq_lexical (p : Path) :
    p.segments = List.replicate (surplus 0 p.components) ".." ++ p.lexical.segments := by
  rw [segments_eq, segments_lexical]

theorem length_segments (p : Path) :
    p.segments.length = surplus 0 p.components + p.lexical.segments.length := by
  rw [segments_eq_lexical, List.length_append, List.length_replicate]

theorem components_ordinary (h : Ordinary name) : (⟨name⟩ : Path).components = [name] := by
  rw [components_eq, splitOn_of_not_mem h.no_slash]
  exact spoken_names (by simpa using h)

theorem components_extend : ∀ {names : List (List UInt8)}, (∀ name ∈ names, Ordinary name) →
    ∀ p : Path, (p.extend names).components = p.components ++ names
  | [], _, p => (List.append_nil _).symm
  | name :: names, h, p => by
    obtain ⟨hname, hnames⟩ := List.forall_mem_cons.1 h
    rw [extend_cons, components_extend hnames, components_join, components_ordinary hname,
      List.append_assoc, List.singleton_append]

/-- Below the cache that is looked for beside a directory, a double dot leads above the root exactly
if the directory is the root. -/
theorem surplus_beside {dir : Path} {names : List (List UInt8)} (hdir : up ∉ dir.components)
    (hnames : ∀ name ∈ names, Ordinary name) :
    surplus 0 ((dir.join (ofString CommandLine.defaultIrCacheDir).bytes).extend names).components =
      if dir.components = [] then 1 else 0 := by
  obtain ⟨cache, hcache, hsplit⟩ : ∃ cache, cache ≠ up ∧
      (ofString CommandLine.defaultIrCacheDir).components = [up, cache] :=
    ⟨(ofString "ir_cache").bytes, by decide, by decide⟩
  have hbelow : up ∉ cache :: names :=
    List.not_mem_cons_of_ne_of_not_mem hcache.symm fun h => (hnames up h).ne_up rfl
  have hcomponents :=
    components_extend hnames (dir.join (ofString CommandLine.defaultIrCacheDir).bytes)
  rw [components_join, hsplit, List.append_assoc, List.cons_append, List.singleton_append]
    at hcomponents
  rw [hcomponents, surplus_names hdir, Nat.zero_add]
  rcases dir.components with _ | ⟨first, rest⟩
  · rw [List.length_nil, surplus_up_zero, surplus_of_not_mem hbelow]
    rfl
  · rw [List.length_cons, surplus_up_succ, surplus_of_not_mem hbelow]
    rfl

end Path

/-! ## Following a path -/

/-- Without a link on its way, one who goes along names arrives where `Path.rootedStep` says. -/
theorem FileTree.Walks.found_eq {t : FileTree} {location found : Location} {names : List Name}
    {arrival : Arrival} {e : Entry} (h : t.Walks location names arrival)
    (harrival : arrival = .found found e) :
    found = ((names.filter (· ≠ Path.here)).foldl Path.rootedStep location.reverse).reverse := by
  induction h with
  | found _ =>
    obtain ⟨rfl, -⟩ := Arrival.found.inj harrival
    exact (List.reverse_reverse _).symm
  | here _ _ ih =>
    rw [List.filter_cons_of_neg (by simp)]
    exact ih harrival
  | up _ _ ih =>
    rw [List.filter_cons_of_pos (by decide), List.foldl_cons, Path.rootedStep, if_pos rfl,
      List.tail_reverse]
    exact ih harrival
  | down _ hname _ _ _ ih =>
    rw [List.filter_cons_of_pos (by simpa using hname.1), List.foldl_cons, Path.rootedStep,
      if_neg hname.2.1, ih harrival, List.reverse_append]
    rfl
  | link | vacant => simp at harrival

theorem Path.filter_steps (p : Path) : p.steps.filter (· ≠ Path.here) = p.components := by
  rw [steps]
  split_ifs
  · rw [List.filter_append, components]
    exact List.append_nil _
  · rfl

/-! ## Slots with double dots in front -/

namespace Layout

variable {segments : List String} {position : Nat}

theorem fromEnd?_replicate (k : Nat) (h : 0 < position) :
    fromEnd? (List.replicate k ".." ++ segments) position =
      if position ≤ segments.length then fromEnd? segments position
      else if position ≤ k + segments.length then some ".." else none := by
  rw [fromEnd?, fromEnd?, List.reverse_append, List.reverse_replicate]
  split_ifs with hle hle'
  · exact List.getElem?_append_left (by rw [List.length_reverse]; omega)
  · rw [List.getElem?_append_right (by rw [List.length_reverse]; omega), List.length_reverse,
      List.getElem?_replicate, if_pos (by omega)]
  · rw [List.getElem?_append_right (by rw [List.length_reverse]; omega), List.length_reverse,
      List.getElem?_replicate, if_neg (by omega)]

theorem detect_replicate (k : Nat) (segments : List String) :
    detect (List.replicate k ".." ++ segments) = detect segments := by
  have hmarker : fromEnd? (List.replicate k ".." ++ segments) 2 = some marker ↔
      fromEnd? segments 2 = some marker := by
    rw [fromEnd?_replicate k Nat.two_pos]
    by_cases hle : 2 ≤ segments.length
    · rw [if_pos hle]
    · rw [if_neg hle, (fromEnd?_eq_none_iff Nat.two_pos).2 (Nat.lt_of_not_le hle)]
      split_ifs <;> simp [marker]
  simp only [detect, hmarker]

end Layout

namespace Model

open Layout

variable {p : Path} {model : Model} {e : ShallowPath}

theorem ofPath_of_lexical_ok (h : ofPath p.lexical = .ok model) :
    ofPath p = .ok { model with path := p } := by
  have hends := (ofPath_eq_ok_iff.1 h).2.append (List.replicate (Path.surplus 0 p.components) "..")
  rw [← Path.segments_eq_lexical] at hends
  exact ofPath_of_ends hends

/-- A normal form that is too short leaves the first of its slots to the double dots before it: the
slot of the framework is in front of the normal form, but still one of the segments. -/
theorem ofPath_of_lexical_error (h : ofPath p.lexical = .error e) :
    (p.segments.length < e.layout.depth →
      ofPath p = .error ⟨p, e.layout, p.segments.length⟩) ∧
    (e.layout.depth ≤ p.segments.length →
      ∃ model, ofPath p = .ok model ∧ model.layout = e.layout ∧ model.framework = "..") := by
  obtain ⟨rfl, hlt⟩ := ofPath_eq_error_iff.1 h
  have hdetect : detect p.lexical.segments = detect p.segments := by
    rw [Path.segments_eq_lexical p, detect_replicate]
  rw [hdetect] at hlt ⊢
  refine ⟨ofPath_of_lt, fun hle => ?_⟩
  obtain ⟨framework, precision, fileName, hends⟩ := exists_ends hle
  refine ⟨_, ofPath_of_ends hends, rfl, ?_⟩
  have hframework := hends.slots.2.2.2
  have hslot : (detect p.segments).frameworkSlot ≤ p.segments.length := hle
  have hbeyond : ¬(detect p.segments).frameworkSlot ≤ p.lexical.segments.length :=
    Nat.not_le_of_lt hlt
  generalize detect p.segments = layout at hslot hbeyond hframework
  rw [Path.length_segments] at hslot
  rw [Path.segments_eq_lexical p, fromEnd?_replicate _ layout.frameworkSlot_pos, if_neg hbeyond,
    if_pos hslot] at hframework
  exact (Option.some.inj hframework).symm

/-- A path from the root has the segments of its normal form behind as many double dots as lead
above the root, so that it has none exactly if no beginning of it has more double dots than names.
What it tells of a model is what the normal form tells, unless that is too short; then it is refused
with the length that it has with the double dots, or taken for a model of the framework `..` if this
is enough. In the cache that is looked for by default this happens exactly if the program lies in
the root. -/
theorem ofPath_rooted (h : p.isAbsolute = true) :
    ".." ∉ p.lexical.segments ∧
    p.segments = List.replicate (Path.surplus 0 p.components) ".." ++ p.lexical.segments ∧
    (".." ∉ p.segments ↔ Path.surplus 0 p.components = 0) ∧
    (Path.surplus 0 p.components = 0 ↔
      ∀ front, front <+: p.components → front.count Path.up ≤ front.countP (· ≠ Path.up)) ∧
    (∀ (t : FileTree) location e,
      t.walk (FileTree.start t.workplace p) p.steps = .ok (.found location e) →
        p.lexical.segments = location.map Lossy.decode) ∧
    (∀ model, ofPath p.lexical = .ok model → ofPath p = .ok { model with path := p }) ∧
    (∀ e, ofPath p.lexical = .error e →
      (p.segments.length < e.layout.depth →
        ofPath p = .error ⟨p, e.layout, p.segments.length⟩) ∧
      (e.layout.depth ≤ p.segments.length →
        ∃ model, ofPath p = .ok model ∧ model.layout = e.layout ∧ model.framework = "..")) ∧
    ∀ (dir : Path) names, Path.up ∉ dir.components → (∀ name ∈ names, Path.Ordinary name) →
      p = (dir.join (Path.ofString CommandLine.defaultIrCacheDir).bytes).extend names →
      (".." ∉ p.segments ↔ dir.components ≠ []) := by
  have hdots : ".." ∉ p.segments ↔ Path.surplus 0 p.components = 0 := by
    rw [Path.up_mem_segments_iff, Path.mem_normalize_iff, not_not]
  refine ⟨?_, Path.segments_eq_lexical p, hdots, ?_, ?_, fun _ => ofPath_of_lexical_ok,
    fun _ => ofPath_of_lexical_error, ?_⟩
  · rw [Path.segments_lexical]
    exact Path.dots_not_mem_rooted p.components
  · simpa only [Nat.zero_add] using Path.surplus_eq_zero_iff 0
  · intro t location e hwalk
    rw [FileTree.start, if_pos h] at hwalk
    rw [Path.segments_lexical, (FileTree.walks_of_walk hwalk).found_eq rfl, Path.filter_steps]
    rfl
  · rintro dir names hdir hnames rfl
    rw [hdots, Path.surplus_beside hdir hnames]
    split_ifs with hroot <;> simp [hroot]

/-- The way to a file, as it is found in a cache. -/
def shortWay : Location :=
  ["a", "b", "c", "m.xml"].map fun name => (Path.ofString name).bytes

/-- The file in the cache of a program that lies in the root. -/
def besideRoot : Path :=
  ((Path.ofString "/").join (Path.ofString CommandLine.defaultIrCacheDir).bytes).extend shortWay

/-- Five segments are not enough, but the file is taken for a model. -/
theorem besideRoot_rooted : besideRoot = .ofString "/../ir_cache/a/b/c/m.xml" ∧
    besideRoot.isAbsolute = true ∧
    ofPath besideRoot.lexical = .error ⟨besideRoot.lexical, .plain, 5⟩ ∧
    (∃ model, ofPath besideRoot = .ok model ∧ model.layout = .plain ∧ model.framework = "..") ∧
    ".." ∈ besideRoot.segments := by
  have habsolute : besideRoot.isAbsolute = true := by decide
  have hlexical : besideRoot.lexical.segments = ["ir_cache", "a", "b", "c", "m.xml"] := by
    decide +kernel
  have hshallow : ofPath besideRoot.lexical = .error ⟨besideRoot.lexical, .plain, 5⟩ := by
    refine ofPath_eq_error_iff.2 ⟨?_, ?_⟩ <;> rw [hlexical] <;> decide
  obtain ⟨-, hsegments, -, -, -, -, herror, hbeside⟩ := ofPath_rooted habsolute
  refine ⟨by decide, habsolute, hshallow, (herror _ hshallow).2 ?_, ?_⟩
  · rw [hsegments, hlexical]
    decide
  · have hiff := hbeside (.ofString "/") shortWay (by decide) (by decide) rfl
    exact not_not.1 fun hdots => hiff.1 hdots (by decide)

end Model

end ModelIR
