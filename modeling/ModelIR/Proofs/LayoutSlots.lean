import ModelIR.Cache.Layout
import ModelIR.Proofs.PathParts

/-!
# Slots of a path

A model is told by the last segments of its path: six of them, or eight if the last but one is the
marker (`Model.ofPath_eq_ok_iff`), and a path with fewer is refused with its number of segments
(`Model.ofPath_eq_error_iff`). To take a path apart by indices, with the length looked at before any
slot, comes to the same and never leaves the segments (`Model.indexed?_eq`). So directories in front
of a path that leads nowhere above its start tell nothing of the model (`Model.ofPath_total`).
-/

namespace ModelIR

namespace Layout

variable {segments : List String} {position : Nat}

/-! ## Segments by index -/

/-- The segment at an index that is counted back from the length; none if the index is not one of
the list, or is below zero. -/
def slotAt? (segments : List String) (position : Nat) : Option String :=
  if position ≤ segments.length then segments[segments.length - position]? else none

theorem slotAt?_eq (segments : List String) (h : 0 < position) :
    slotAt? segments position = fromEnd? segments position := by
  rw [slotAt?, fromEnd?]
  split_ifs with hle
  · rw [List.getElem?_reverse (by omega)]
    congr 1
    omega
  · rw [List.getElem?_eq_none (by rw [List.length_reverse]; omega)]

theorem fromEnd?_eq_none_iff (h : 0 < position) :
    fromEnd? segments position = none ↔ segments.length < position := by
  rw [fromEnd?, List.getElem?_eq_none_iff, List.length_reverse]
  omega

theorem exists_fromEnd? (h : 0 < position) (hle : position ≤ segments.length) :
    ∃ segment, fromEnd? segments position = some segment := by
  rw [← Option.isSome_iff_exists, ← Option.ne_none_iff_isSome, Ne, fromEnd?_eq_none_iff h]
  omega

theorem frameworkSlot_pos (layout : Layout) : 0 < layout.frameworkSlot := by
  cases layout <;> decide

theorem precisionSlot_pos (layout : Layout) : 0 < layout.precisionSlot := by
  cases layout <;> decide

theorem detect_eq_optimized_iff (segments : List String) :
    detect segments = .optimized ↔ fromEnd? segments 2 = some marker := by
  rw [detect]
  split_ifs with h <;> simp [h]

/-- The layout by index; where there is no segment before the file, none is asked for. -/
def detectAt? (segments : List String) : Option Layout :=
  if segments.length < 2 then some plain
  else (slotAt? segments 2).map fun segment => if segment = marker then optimized else plain

theorem detectAt?_eq (segments : List String) : detectAt? segments = some (detect segments) := by
  rw [detectAt?, detect, slotAt?_eq segments Nat.two_pos]
  split_ifs with hlt hmarker hmarker
  · rw [(fromEnd?_eq_none_iff Nat.two_pos).2 hlt] at hmarker
    cases hmarker
  · rfl
  · rw [hmarker, Option.map_some, if_pos rfl]
  · obtain ⟨segment, hsegment⟩ := exists_fromEnd? Nat.two_pos (Nat.le_of_not_lt hlt)
    rw [hsegment, Option.map_some, if_neg fun h : segment = marker => hmarker (h ▸ hsegment)]

theorem depth_detect (segments : List String) :
    (detect segments).depth = if fromEnd? segments 2 = some marker then 8 else 6 := by
  rw [detect]
  split_ifs <;> rfl

/-! ## Ends of paths -/

/-- How a path ends, by its layout: the framework, the precision and the file among its segments. -/
inductive Ends (segments : List String) : Layout → (framework precision fileName : String) → Prop
  | plain {front : List String} {framework a precision b c fileName : String}
    (h : segments = front ++ [framework, a, precision, b, c, fileName]) (hc : c ≠ marker) :
    Ends segments .plain framework precision fileName
  | optimized {front : List String} {framework a b precision c d fileName : String}
    (h : segments = front ++ [framework, a, b, precision, c, d, marker, fileName]) :
    Ends segments .optimized framework precision fileName

variable {layout : Layout} {framework precision fileName : String}

theorem Ends.append (front : List String) (h : Ends segments layout framework precision fileName) :
    Ends (front ++ segments) layout framework precision fileName := by
  cases h with
  | plain h hc => exact .plain (by rw [h, ← List.append_assoc]) hc
  | optimized h => exact .optimized (by rw [h, ← List.append_assoc])

theorem exists_last {depth : Nat} (h : depth ≤ segments.length) :
    ∃ front last, segments = front ++ last ∧ last.length = depth :=
  ⟨segments.take (segments.length - depth), segments.drop (segments.length - depth),
    (List.take_append_drop ..).symm, by rw [List.length_drop]; omega⟩

/-- A path with as many segments as its layout needs ends as the layout says: the slots are all
among the last segments, and so is the place of the marker. -/
theorem exists_ends (h : (detect segments).depth ≤ segments.length) :
    ∃ framework precision fileName,
      Ends segments (detect segments) framework precision fileName := by
  have hmarker := detect_eq_optimized_iff segments
  obtain ⟨front, last, rfl, hlast⟩ := exists_last h
  generalize hlayout : detect (front ++ last) = layout at *
  cases layout with
  | plain =>
    match last, hlast with
    | [framework, a, precision, b, c, fileName], _ =>
      refine ⟨framework, precision, fileName, .plain rfl fun hc => ?_⟩
      exact absurd (hmarker.2 (by simp [fromEnd?, hc])) (by decide)
  | optimized =>
    match last, hlast with
    | [framework, a, b, precision, c, d, e, fileName], _ =>
      have hmark := hmarker.1 rfl
      obtain rfl : e = marker := by simpa [fromEnd?] using hmark
      exact ⟨framework, precision, fileName, .optimized rfl⟩

theorem Ends.slots (h : Ends segments layout framework precision fileName) :
    detect segments = layout ∧ fromEnd? segments 1 = some fileName ∧
      fromEnd? segments layout.precisionSlot = some precision ∧
      fromEnd? segments layout.frameworkSlot = some framework := by
  rcases h with ⟨rfl, hc⟩ | rfl <;> simp [detect, fromEnd?, precisionSlot, frameworkSlot, *]

end Layout

namespace Model

open Layout

variable {path : Path} {model : Model} {e : ShallowPath}

theorem ofPath_of_ends {layout : Layout} {framework precision fileName : String}
    (h : Ends path.segments layout framework precision fileName) :
    ofPath path = .ok { fileName, path, layout, framework, precision } := by
  obtain ⟨hlayout, hfile, hprecision, hframework⟩ := h.slots
  simp only [ofPath, hlayout, hfile, hprecision, hframework]

theorem ofPath_of_lt (h : path.segments.length < (detect path.segments).depth) :
    ofPath path = .error ⟨path, detect path.segments, path.segments.length⟩ := by
  have hframework := (fromEnd?_eq_none_iff (frameworkSlot_pos (detect path.segments))).2 h
  simp only [ofPath, hframework]
  split
  · simp_all
  · rfl

/-- A model is told by the end of its path. -/
theorem ofPath_eq_ok_iff : ofPath path = .ok model ↔ model.path = path ∧
    Ends path.segments model.layout model.framework model.precision model.fileName := by
  constructor
  · intro h
    rcases Nat.lt_or_ge path.segments.length (detect path.segments).depth with hlt | hge
    · simp [ofPath_of_lt hlt] at h
    · obtain ⟨framework, precision, fileName, hends⟩ := exists_ends hge
      rw [ofPath_of_ends hends] at h
      obtain rfl := Except.ok.inj h
      exact ⟨rfl, hends⟩
  · rintro ⟨rfl, hends⟩
    exact ofPath_of_ends hends

/-- A path is refused if it has fewer segments than its layout needs, and only then. -/
theorem ofPath_eq_error_iff : ofPath path = .error e ↔
    e = ⟨path, detect path.segments, path.segments.length⟩ ∧
      path.segments.length < (detect path.segments).depth := by
  rcases Nat.lt_or_ge path.segments.length (detect path.segments).depth with hlt | hge
  · rw [ofPath_of_lt hlt, Except.error.injEq, eq_comm, and_iff_left hlt]
  · obtain ⟨framework, precision, fileName, hends⟩ := exists_ends hge
    rw [ofPath_of_ends hends]
    exact iff_of_false (by simp) fun h => absurd h.2 (Nat.not_lt_of_ge hge)

/-- What one path tells, told of another one. -/
def retold (q : Path) (told : Except ShallowPath Model) : Except ShallowPath Model :=
  (told.map fun model => { model with path := q }).mapError fun e => { e with path := q }

/-- Paths with the same segments tell the same. -/
theorem ofPath_congr {p q : Path} (h : q.segments = p.segments) :
    ofPath q = retold q (ofPath p) := by
  rcases hp : ofPath p with e | model
  · obtain ⟨rfl, hlt⟩ := ofPath_eq_error_iff.1 hp
    rw [← h] at hlt
    rw [ofPath_of_lt hlt, ← h]
    rfl
  · obtain ⟨rfl, hends⟩ := ofPath_eq_ok_iff.1 hp
    rw [← h] at hends
    exact ofPath_of_ends hends

/-! ## Indices -/

/-- Takes a path apart by indices into its segments; none if one of them is not an index. -/
def indexed? (path : Path) : Option (Except ShallowPath Model) := do
  let segments := path.segments
  let layout ← detectAt? segments
  if segments.length < layout.depth then
    return .error ⟨path, layout, segments.length⟩
  let fileName ← slotAt? segments 1
  let framework ← slotAt? segments layout.frameworkSlot
  let precision ← slotAt? segments layout.precisionSlot
  return .ok { fileName, path, layout, framework, precision }

/-- Behind the look at the length all indices are right. -/
theorem indexed?_eq (path : Path) : indexed? path = some (ofPath path) := by
  rw [indexed?, detectAt?_eq]
  simp only [Option.bind_eq_bind, Option.bind_some]
  split_ifs with hlt
  · rw [ofPath_of_lt hlt]
    rfl
  · obtain ⟨framework, precision, fileName, hends⟩ := exists_ends (Nat.le_of_not_lt hlt)
    obtain ⟨-, hfile, hprecision, hframework⟩ := hends.slots
    rw [ofPath_of_ends hends, slotAt?_eq _ Nat.one_pos, slotAt?_eq _ (frameworkSlot_pos _),
      slotAt?_eq _ (precisionSlot_pos _), hfile, hframework, hprecision]
    rfl

/-- A path is taken apart without leaving its segments. It is refused if it has less than six of
them, or eight with the marker before the file, and then the error tells its number of segments and
how many are needed; otherwise the model is what the end of the path says. So if nothing in the path
leads above its start, directories in front of it, behind the root if it has one, change nothing but
the path, whatever their names are. -/
theorem ofPath_total (path : Path) :
    indexed? path = some (ofPath path) ∧
    ((∃ e, ofPath path = .error e) ↔
      fromEnd? path.segments 2 ≠ some marker ∧ path.segments.length < 6 ∨
        fromEnd? path.segments 2 = some marker ∧ path.segments.length < 8) ∧
    (∀ e, ofPath path = .error e → e.path = path ∧ e.depth = path.segments.length ∧
      e.layout.depth = if fromEnd? path.segments 2 = some marker then 8 else 6) ∧
    (∀ model, ofPath path = .ok model ↔ model.path = path ∧
      Ends path.segments model.layout model.framework model.precision model.fileName) ∧
    ∀ model, ofPath path = .ok model → ".." ∉ path.segments →
      ∀ root dirs rest, splitOn Path.slash path.bytes = root ++ rest → (∀ part ∈ root, part = []) →
        (∀ dir ∈ dirs, Path.Ordinary dir) →
        ∃ deeper, ofPath (.ofParts (root ++ dirs ++ rest)) = .ok deeper ∧
          deeper.layout = model.layout ∧ deeper.framework = model.framework ∧
          deeper.precision = model.precision ∧ deeper.fileName = model.fileName ∧
          deeper.topology = model.topology := by
  refine ⟨indexed?_eq path, ?_, ?_, fun model => ofPath_eq_ok_iff, ?_⟩
  · have hiff : (∃ e, ofPath path = .error e) ↔
        path.segments.length < (detect path.segments).depth := by
      refine ⟨fun ⟨e, h⟩ => (ofPath_eq_error_iff.1 h).2, fun h => ⟨_, ofPath_of_lt h⟩⟩
    rw [hiff, depth_detect]
    split_ifs with hmarker <;> simp [hmarker]
  · intro e h
    obtain ⟨rfl, -⟩ := ofPath_eq_error_iff.1 h
    exact ⟨rfl, rfl, depth_detect path.segments⟩
  · intro model h hup root dirs rest hparts hroot hdirs
    have hends := (ofPath_eq_ok_iff.1 h).2.append (dirs.map Lossy.decode)
    rw [← Path.segments_in_front hparts hroot hdirs hup] at hends
    exact ⟨_, ofPath_of_ends hends, rfl, rfl, rfl, rfl, rfl⟩

/-- A path with the marker behind its root and between two slots. -/
def markedPath : Path :=
  .ofString "/optimized/tf/optimized/x/../FP16/b/c/m.xml"

/-- Directories, of which one is called like the marker. -/
def markedDirs : List (List UInt8) :=
  [(Path.ofString "optimized").bytes, (Path.ofString "a").bytes]

/-- The path tells the same behind these directories. -/
theorem markedPath_total :
    ofPath markedPath = .ok ⟨"m.xml", markedPath, .plain, "tf", "FP16"⟩ ∧
    ".." ∉ markedPath.segments ∧
    splitOn Path.slash markedPath.bytes = [[]] ++ (splitOn Path.slash markedPath.bytes).tail ∧
    (∀ part ∈ [([] : List UInt8)], part = []) ∧ (∀ dir ∈ markedDirs, Path.Ordinary dir) ∧
    ∃ deeper, ofPath (.ofParts ([[]] ++ markedDirs ++ (splitOn Path.slash markedPath.bytes).tail)) =
        .ok deeper ∧
      deeper.layout = .plain ∧ deeper.framework = "tf" ∧ deeper.precision = "FP16" ∧
      deeper.fileName = "m.xml" ∧ deeper.topology = "m" := by
  have hsegments : markedPath.segments =
      ["optimized"] ++ ["tf", "optimized", "FP16", "b", "c", "m.xml"] := by decide +kernel
  have hmodel : ofPath markedPath = .ok ⟨"m.xml", markedPath, .plain, "tf", "FP16"⟩ :=
    ofPath_eq_ok_iff.2 ⟨rfl, .plain hsegments (by decide)⟩
  have hup : ".." ∉ markedPath.segments := by
    rw [hsegments]
    decide
  have hparts : splitOn Path.slash markedPath.bytes =
      [[]] ++ (splitOn Path.slash markedPath.bytes).tail := by decide
  have hroot : ∀ part ∈ [([] : List UInt8)], part = [] := by decide
  have hdirs : ∀ dir ∈ markedDirs, Path.Ordinary dir := by decide
  refine ⟨hmodel, hup, hparts, hroot, hdirs, ?_⟩
  exact (ofPath_total markedPath).2.2.2.2 _ hmodel hup [[]] markedDirs _ hparts hroot hdirs

end Model

end ModelIR
