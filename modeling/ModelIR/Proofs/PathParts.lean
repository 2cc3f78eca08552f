import ModelIR.Proofs.DecodedText
import ModelIR.Proofs.PathNormalForm
import ModelIR.Proofs.SplitParts

/-!
# Parts of paths

A path is its parts with slashes between them. The components of a path made of parts are those
parts that say something (`Path.components_ofParts`), and what is put behind a path adds its
components (`Path.components_join`). Of all components a double dot alone is read as one
(`Path.decode_eq_dots_iff`), so that the texts of a normal form have the same shape
(`Path.segments_eq`).
-/

namespace ModelIR

namespace Path

/-! ## Components -/

/-- A component that is neither a dot nor a double dot. -/
structure Ordinary (name : List UInt8) : Prop where
  ne_nil : name ≠ []
  ne_here : name ≠ here
  ne_up : name ≠ up
  no_slash : slash ∉ name

instance (name : List UInt8) : Decidable (Ordinary name) :=
  decidable_of_iff (name ≠ [] ∧ name ≠ here ∧ name ≠ up ∧ slash ∉ name)
    ⟨fun ⟨h, h', h'', h'''⟩ => ⟨h, h', h'', h'''⟩, fun ⟨h, h', h'', h'''⟩ => ⟨h, h', h'', h'''⟩⟩

/-- The path with given parts. -/
def ofParts (parts : List (List UInt8)) : Path :=
  ⟨joinWith slash parts⟩

/-- The parts that say something. -/
def spoken (parts : List (List UInt8)) : List (List UInt8) :=
  parts.filter fun part => part ≠ [] ∧ part ≠ here

variable {p : Path} {component : List UInt8} {parts : List (List UInt8)}

theorem spoken_append (front rest : List (List UInt8)) :
    spoken (front ++ rest) = spoken front ++ spoken rest :=
  List.filter_append ..

theorem spoken_empty (h : ∀ part ∈ parts, part = []) : spoken parts = [] :=
  List.filter_eq_nil_iff.2 fun part hpart => by simp [h part hpart]

theorem spoken_names (h : ∀ part ∈ parts, Ordinary part) : spoken parts = parts :=
  List.filter_eq_self.2 fun part hpart => by simp [(h part hpart).ne_nil, (h part hpart).ne_here]

theorem components_eq (p : Path) : p.components = spoken (splitOn slash p.bytes) := by
  rw [components, names, List.filter_filter, spoken]
  simp only [Bool.decide_and, Bool.and_comm]

theorem ofParts_splitOn (p : Path) : ofParts (splitOn slash p.bytes) = p := by
  rw [ofParts, joinWith_splitOn]

theorem splitOn_ofParts (hne : parts ≠ []) (h : ∀ part ∈ parts, slash ∉ part) :
    splitOn slash (ofParts parts).bytes = parts :=
  splitOn_joinWith hne h

theorem components_ofParts (h : ∀ part ∈ parts, slash ∉ part) :
    (ofParts parts).components = spoken parts := by
  rw [components_eq]
  rcases parts with _ | ⟨part, parts⟩
  · rfl
  · rw [splitOn_ofParts (List.cons_ne_nil part parts) h]

theorem components_append_slash (front rest : List UInt8) :
    (⟨front ++ slash :: rest⟩ : Path).components =
      (⟨front⟩ : Path).components ++ (⟨rest⟩ : Path).components := by
  rw [components_eq, components_eq, components_eq, splitOn_append_sep, spoken_append]

/-- What is put behind a path adds its components. -/
theorem components_join (p : Path) (rest : List UInt8) :
    (p.join rest).components = p.components ++ (⟨rest⟩ : Path).components := by
  obtain ⟨bytes⟩ := p
  rw [join]
  split_ifs with h
  · rcases List.eq_nil_or_concat bytes with rfl | ⟨front, last, rfl⟩
    · rfl
    · obtain rfl : last = slash := by simpa [endsInSlash] using h
      have hbare := (components_append_slash front []).trans (List.append_nil _)
      rw [List.concat_eq_append, hbare, List.append_assoc, List.singleton_append,
        components_append_slash]
  · exact components_append_slash bytes rest

theorem of_mem_components (h : component ∈ p.components) :
    component ≠ [] ∧ component ≠ here ∧ slash ∉ component := by
  rw [components_eq, Path.spoken, List.mem_filter, decide_eq_true_eq] at h
  exact ⟨h.2.1, h.2.2, not_mem_of_mem_splitOn h.1⟩

theorem of_mem_normalize (h : component ∈ normalize p.components) :
    component ≠ [] ∧ component ≠ here ∧ slash ∉ component :=
  of_mem_components ((mem_foldl_normalizeStep _ (List.mem_reverse.1 h)).resolve_right
    List.not_mem_nil)

/-! ## Segments -/

theorem decode_eq_dots_iff : Lossy.decode component = ".." ↔ component = up :=
  Lossy.decode_eq_iff (by simp)

/-- A segment is never empty, a dot, or more than one component. -/
theorem of_mem_segments {segment : String} (h : segment ∈ p.segments) :
    segment ≠ "" ∧ segment ≠ "." ∧ '/' ∉ segment.toList := by
  obtain ⟨component, hmem, rfl⟩ := List.mem_map.1 h
  obtain ⟨hnil, hhere, hslash⟩ := of_mem_normalize hmem
  refine ⟨fun h => hnil ((Lossy.decode_eq_iff (by simp)).1 h),
    fun h => hhere ((Lossy.decode_eq_iff (by simp)).1 h), fun h => hslash ?_⟩
  rw [Lossy.decode, String.toList_ofList] at h
  exact Lossy.slash_mem_chars_iff.1 h

theorem up_mem_segments_iff : ".." ∈ p.segments ↔ up ∈ normalize p.components := by
  rw [segments, List.mem_map]
  constructor
  · rintro ⟨component, hmem, hdots⟩
    rwa [← decode_eq_dots_iff.1 hdots]
  · exact fun h => ⟨up, h, decode_eq_dots_iff.2 rfl⟩

theorem dots_not_mem_rooted (components : List (List UInt8)) :
    ".." ∉ (rooted components).map Lossy.decode := by
  rw [List.mem_map]
  rintro ⟨component, hmem, hdots⟩
  exact not_mem_rooted components (decode_eq_dots_iff.1 hdots ▸ hmem)

theorem segments_eq (p : Path) : p.segments =
    List.replicate (surplus 0 p.components) ".." ++ (rooted p.components).map Lossy.decode := by
  rw [segments, normalize_eq, List.map_append, List.map_replicate, decode_eq_dots_iff.2 rfl]

/-- Names in front of a path that leads nowhere above its start, or behind its root, are in front of
its segments. -/
theorem segments_in_front {root dirs rest : List (List UInt8)}
    (hparts : splitOn slash p.bytes = root ++ rest) (hroot : ∀ part ∈ root, part = [])
    (hdirs : ∀ dir ∈ dirs, Ordinary dir) (hup : ".." ∉ p.segments) :
    (ofParts (root ++ dirs ++ rest)).segments = dirs.map Lossy.decode ++ p.segments := by
  have hslash : ∀ part ∈ root ++ rest, slash ∉ part := fun part hpart =>
    not_mem_of_mem_splitOn (hparts ▸ hpart)
  have hcomponents : p.components = spoken rest := by
    rw [components_eq, hparts, spoken_append, spoken_empty hroot, List.nil_append]
  have hdeeper : (ofParts (root ++ dirs ++ rest)).components = dirs ++ p.components := by
    rw [components_ofParts, spoken_append, spoken_append, spoken_empty hroot, spoken_names hdirs,
      List.nil_append, hcomponents]
    intro part hpart
    rcases List.mem_append.1 hpart with hpart | hpart
    · rcases List.mem_append.1 hpart with hpart | hpart
      · exact hslash part (List.mem_append_left _ hpart)
      · exact (hdirs part hpart).no_slash
    · exact hslash part (List.mem_append_right _ hpart)
  rw [segments, hdeeper, normalize_names_append (fun h => (hdirs up h).ne_up rfl)
    (up_mem_segments_iff.not.1 hup), List.map_append]
  rfl

end Path

end ModelIR
