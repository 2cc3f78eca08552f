import Mathlib.Logic.Relation
import ModelIR.Proofs.LayoutSlots

/-!
# Spellings of a path

A path may be spelled with parts that lead nowhere: an empty one, a dot, or a name with a double dot
behind it, at any place. Paths that come from one another by putting in and taking out such parts
are those with one normal form (`Path.respelled_iff`), as every path comes from its normal form
(`Path.respelled_normal`). The texts of the normal form, joined by slashes, spell it again
(`Path.segments_canonical`).
-/

namespace ModelIR

namespace Path

/-- Parts that lead nowhere, wherever they stand. -/
inductive Idle : List (List UInt8) → Prop
  | empty : Idle [[]]
  | here : Idle [here]
  | undone {name : List UInt8} (h : Ordinary name) : Idle [name, up]

/-- A path with idle parts put in at some place. -/
inductive Padded : Path → Path → Prop
  | insert {p : Path} {before after idle : List (List UInt8)}
    (hparts : splitOn slash p.bytes = before ++ after) (hidle : Idle idle) :
    Padded p (ofParts (before ++ idle ++ after))

/-- Paths that come from one another by putting in and taking out idle parts. -/
def Respelled : Path → Path → Prop :=
  Relation.EqvGen Padded

variable {p q : Path} {before after idle reversed : List (List UInt8)} {name part : List UInt8}

/-! ## Idle parts -/

theorem Idle.no_slash (h : Idle idle) : ∀ part ∈ idle, slash ∉ part := by
  rcases h with _ | _ | h
  · decide
  · decide
  · simpa [h.no_slash] using (by decide : slash ∉ up)

theorem normalize_undone (h : name ≠ up) (before after : List (List UInt8)) :
    normalize (before ++ [name, up] ++ after) = normalize (before ++ after) := by
  rw [normalize, normalize, List.foldl_append, List.foldl_append, List.foldl_append,
    List.foldl_cons, List.foldl_cons, List.foldl_nil, normalizeStep_name h, normalizeStep_up h]

theorem normalize_idle (h : Idle idle) (before after : List (List UInt8)) :
    normalize (spoken (before ++ idle ++ after)) = normalize (spoken (before ++ after)) := by
  rw [spoken_append, spoken_append, spoken_append]
  rcases h with _ | _ | h
  · exact congrArg (fun parts => normalize (parts ++ spoken after)) (List.append_nil _)
  · exact congrArg (fun parts => normalize (parts ++ spoken after)) (List.append_nil _)
  · rename_i name
    have hspoken : spoken [name, up] = [name, up] := by
      simp [spoken, h.ne_nil, h.ne_here, (by decide : up ≠ []), (by decide : up ≠ here)]
    rw [hspoken]
    exact normalize_undone h.ne_up _ _

theorem Padded.normalize_eq (h : Padded p q) :
    normalize q.components = normalize p.components := by
  obtain ⟨hparts, hidle⟩ := h
  rename_i before after idle
  have hslash : ∀ part ∈ before ++ after, slash ∉ part := fun part hpart =>
    not_mem_of_mem_splitOn (hparts ▸ hpart)
  rw [components_eq p, hparts, components_ofParts, normalize_idle hidle]
  intro part hpart
  rw [List.append_assoc, List.mem_append, List.mem_append, or_left_comm, ← List.mem_append] at hpart
  exact hpart.elim (hidle.no_slash part) (hslash part)

theorem Respelled.normalize_eq (h : Respelled p q) :
    normalize q.components = normalize p.components := by
  induction h with
  | rel _ _ h => exact h.normalize_eq
  | refl _ => rfl
  | symm _ _ _ ih => exact ih.symm
  | trans _ _ _ _ _ ih ih' => exact ih'.trans ih

/-! ## Every path comes from its normal form -/

/-- Parts that lead nowhere may stand anywhere. The empty path has a part, too, so it is padded by
way of a path that has both. -/
theorem respelled_idle (h : Idle idle) (hslash : ∀ part ∈ before ++ after, slash ∉ part) :
    Respelled (ofParts (before ++ after)) (ofParts (before ++ idle ++ after)) := by
  by_cases hne : before ++ after = []
  · obtain ⟨rfl, rfl⟩ := List.append_eq_nil_iff.1 hne
    have hidle : splitOn slash (ofParts idle).bytes = [] ++ idle :=
      splitOn_ofParts (by rcases h with _ | _ | _ <;> simp) h.no_slash
    have hempty : Padded (ofParts []) (ofParts ([[]] ++ idle ++ [])) := .insert rfl h
    have hbare : Padded (ofParts idle) (ofParts ([] ++ [[]] ++ idle)) := .insert hidle .empty
    simp only [List.append_nil, List.nil_append] at hempty hbare ⊢
    exact .trans _ _ _ (.rel _ _ hempty) (.symm _ _ (.rel _ _ hbare))
  · exact .rel _ _ (.insert (splitOn_ofParts hne hslash) h)

theorem kept_of_spoken (hpart : slash ∉ part) {component : List UInt8}
    (h : component ∈ spoken [part]) : component = up ∨ Ordinary component := by
  obtain ⟨hmem, hspoken⟩ := List.mem_filter.1 h
  obtain rfl := List.mem_singleton.1 hmem
  obtain ⟨hnil, hhere⟩ := of_decide_eq_true hspoken
  exact (em (component = up)).imp_right fun hup => ⟨hnil, hhere, hup, hpart⟩

theorem kept_step (hpart : slash ∉ part) (h : ∀ kept ∈ reversed, kept = up ∨ Ordinary kept) :
    ∀ kept ∈ (spoken [part]).foldl normalizeStep reversed, kept = up ∨ Ordinary kept := by
  intro kept hkept
  exact (mem_foldl_normalizeStep _ hkept).elim (kept_of_spoken hpart) (h kept)

/-- What is at hand behind a part is another spelling of what was at hand with the part. -/
theorem respelled_step (hpart : slash ∉ part) (h : ∀ kept ∈ reversed, kept = up ∨ Ordinary kept)
    (hafter : ∀ part ∈ after, slash ∉ part) :
    Respelled (ofParts (((spoken [part]).foldl normalizeStep reversed).reverse ++ after))
      (ofParts (reversed.reverse ++ [part] ++ after)) := by
  have hslash : ∀ {front : List (List UInt8)}, (∀ kept ∈ front, kept = up ∨ Ordinary kept) →
      ∀ part ∈ front.reverse ++ after, slash ∉ part := by
    intro front hfront part hmem
    rcases List.mem_append.1 hmem with hmem | hmem
    · rcases hfront part (List.mem_reverse.1 hmem) with rfl | hordinary
      · decide
      · exact hordinary.no_slash
    · exact hafter part hmem
  by_cases hsaid : part ≠ [] ∧ part ≠ here
  · have hspoken : spoken [part] = [part] := List.filter_cons_of_pos (decide_eq_true hsaid)
    have hpush : normalizeStep reversed part = part :: reversed →
        Respelled (ofParts (((spoken [part]).foldl normalizeStep reversed).reverse ++ after))
          (ofParts (reversed.reverse ++ [part] ++ after)) := by
      intro hstep
      rw [hspoken, List.foldl_cons, List.foldl_nil, hstep, List.reverse_cons]
      exact .refl _
    by_cases hup : part = up
    · subst hup
      rcases reversed with _ | ⟨last, reversed⟩
      · exact hpush rfl
      · obtain ⟨rfl | hordinary, hreversed⟩ := List.forall_mem_cons.1 h
        · exact hpush rfl
        · rw [hspoken, List.foldl_cons, List.foldl_nil, normalizeStep_up hordinary.ne_up,
            List.reverse_cons, List.append_assoc reversed.reverse]
          exact respelled_idle (.undone hordinary) (hslash hreversed)
    · exact hpush (normalizeStep_name hup reversed)
  · have hspoken : spoken [part] = [] :=
      List.filter_cons_of_neg (by rwa [decide_eq_true_eq])
    have hidle : Idle [part] := by
      rw [not_and_or, not_not, not_not] at hsaid
      rcases hsaid with rfl | rfl
      · exact .empty
      · exact .here
    rw [hspoken]
    exact respelled_idle hidle (hslash h)

/-- Some parts are spelled by their normal form, with what is at hand before them. -/
theorem respelled_foldl : ∀ parts reversed : List (List UInt8),
    (∀ part ∈ parts, slash ∉ part) → (∀ kept ∈ reversed, kept = up ∨ Ordinary kept) →
      Respelled (ofParts ((spoken parts).foldl normalizeStep reversed).reverse)
        (ofParts (reversed.reverse ++ parts))
  | [], reversed, _, _ => by
    rw [List.append_nil]
    exact .refl _
  | part :: parts, reversed, hparts, h => by
    obtain ⟨hpart, hparts⟩ := List.forall_mem_cons.1 hparts
    have hstep := respelled_step hpart h hparts
    have hrest := respelled_foldl parts _ hparts (kept_step hpart h)
    rw [List.append_assoc, List.singleton_append] at hstep
    rw [← List.singleton_append, spoken_append, List.foldl_append]
    exact .trans _ _ _ hrest hstep

/-- Every path comes from its normal form. -/
theorem respelled_normal (p : Path) : Respelled (ofParts (normalize p.components)) p := by
  have h := respelled_foldl (splitOn slash p.bytes) []
    (fun part hpart => not_mem_of_mem_splitOn hpart) (by simp)
  rwa [List.reverse_nil, List.nil_append, ofParts_splitOn, ← components_eq] at h

/-- Two paths come from one another exactly if they have the same normal form. -/
theorem respelled_iff : Respelled p q ↔ normalize q.components = normalize p.components := by
  refine ⟨Respelled.normalize_eq, fun h => ?_⟩
  have hq := respelled_normal q
  rw [h] at hq
  exact .trans _ _ _ (.symm _ _ (respelled_normal p)) hq

/-! ## The texts of a normal form -/

theorem bytes_ofString_append (front rest : String) :
    (ofString (front ++ rest)).bytes = (ofString front).bytes ++ (ofString rest).bytes := by
  simp [ofString]

theorem bytes_ofString_intercalate : ∀ segments : List String,
    (ofString ("/".intercalate segments)).bytes =
      joinWith slash (segments.map fun s => (ofString s).bytes)
  | [] => rfl
  | [segment] => by rw [String.intercalate_singleton]; rfl
  | segment :: next :: segments => by
    rw [String.intercalate_cons_of_ne_nil (List.cons_ne_nil next segments), bytes_ofString_append,
      bytes_ofString_append, bytes_ofString_intercalate (next :: segments), List.append_assoc]
    rfl

/-- The segments of a path spell a path with the same segments. -/
theorem segments_ofString_intercalate (p : Path) :
    (ofString ("/".intercalate p.segments)).segments = p.segments := by
  have hbytes : ∀ {segment component}, (ofString segment).bytes = component →
      segment = Lossy.decode component := fun h => h ▸ (Lossy.decode_ofString _).symm
  have hcomponents : (ofString ("/".intercalate p.segments)).components =
      p.segments.map fun s => (ofString s).bytes := by
    have hparts : ofString ("/".intercalate p.segments) = ofParts _ :=
      congrArg Path.mk (bytes_ofString_intercalate p.segments)
    rw [hparts, components_ofParts]
    · refine List.filter_eq_self.2 fun component hmem => decide_eq_true ?_
      obtain ⟨segment, hsegment, rfl⟩ := List.mem_map.1 hmem
      obtain ⟨hnil, hhere, -⟩ := of_mem_segments hsegment
      refine ⟨fun h => hnil ?_, fun h => hhere ?_⟩
      · exact (hbytes h).trans ((Lossy.decode_eq_iff (by simp)).2 (by decide))
      · exact (hbytes h).trans ((Lossy.decode_eq_iff (by simp)).2 (by decide))
    · intro component hmem
      obtain ⟨segment, hsegment, rfl⟩ := List.mem_map.1 hmem
      rw [← Lossy.slash_mem_chars_iff, Lossy.chars_ofString]
      exact (of_mem_segments hsegment).2.2
  have hnormal : normalize (p.segments.map fun s => (ofString s).bytes) =
      p.segments.map fun s => (ofString s).bytes := by
    rw [segments_eq, List.map_append, List.map_replicate]
    refine normalize_of_normal (fun h => ?_) _
    obtain ⟨segment, hmem, hup⟩ := List.mem_map.1 h
    rw [hbytes hup, decode_eq_dots_iff.2 rfl] at hmem
    exact dots_not_mem_rooted p.components hmem
  rw [segments, hcomponents, hnormal, List.map_map]
  exact (List.map_congr_left fun segment _ => Lossy.decode_ofString segment).trans (List.map_id _)

theorem Respelled.segments_eq (h : Respelled p q) : q.segments = p.segments := by
  rw [segments, segments, h.normalize_eq]

/-- No segment of a path is empty, a dot, or parted by a slash, double dots stand before all other
segments, and the segments spell a path with the same ones. Putting in and taking out parts that
lead nowhere leaves them as they are, and with them what the path tells of a model; the paths that
come about so are all those with the same normal form. -/
theorem segments_canonical (p : Path) :
    (∀ segment ∈ p.segments, segment ≠ "" ∧ segment ≠ "." ∧ '/' ∉ segment.toList) ∧
    (∃ k names, p.segments = List.replicate k ".." ++ names ∧ ".." ∉ names) ∧
    (ofString ("/".intercalate p.segments)).segments = p.segments ∧
    (∀ q, Respelled p q ↔ normalize q.components = normalize p.components) ∧
    ∀ q, Respelled p q →
      q.segments = p.segments ∧ Model.ofPath q = Model.retold q (Model.ofPath p) :=
  ⟨fun _ => of_mem_segments, ⟨_, _, Path.segments_eq p, dots_not_mem_rooted p.components⟩,
    segments_ofString_intercalate p, fun _ => respelled_iff,
    fun _ h => ⟨h.segments_eq, Model.ofPath_congr h.segments_eq⟩⟩

/-- A path of a model that leads above its start. -/
def outerPath : Path :=
  .ofString "../tf/x/FP16/b/c/m.xml"

/-- The path with a name that is no text, a double dot and a dot in it. -/
def paddedPath : Path :=
  .ofParts ((splitOn slash outerPath.bytes).take 4 ++ [[0xFF], up] ++ [here] ++
    (splitOn slash outerPath.bytes).drop 4)

/-- The two paths tell the same. -/
theorem paddedPath_canonical : Respelled outerPath paddedPath ∧
    paddedPath.segments = ["..", "tf", "x", "FP16", "b", "c", "m.xml"] ∧
    Model.ofPath paddedPath = .ok ⟨"m.xml", paddedPath, .plain, "tf", "FP16"⟩ := by
  have hundone : Padded outerPath (ofParts
      ((splitOn slash outerPath.bytes).take 4 ++ [[0xFF], up] ++
        (splitOn slash outerPath.bytes).drop 4)) :=
    .insert (List.take_append_drop 4 _).symm (.undone (by decide))
  have hhere : Padded (ofParts ((splitOn slash outerPath.bytes).take 4 ++ [[0xFF], up] ++
      (splitOn slash outerPath.bytes).drop 4)) paddedPath :=
    .insert (by decide) .here
  have hrespelled : Respelled outerPath paddedPath :=
    .trans _ _ _ (.rel _ _ hundone) (.rel _ _ hhere)
  obtain ⟨hsegments, hmodel⟩ := (segments_canonical outerPath).2.2.2.2 paddedPath hrespelled
  have houter : outerPath.segments = [".."] ++ ["tf", "x", "FP16", "b", "c", "m.xml"] := by
    decide +kernel
  have htold : Model.ofPath outerPath = .ok ⟨"m.xml", outerPath, .plain, "tf", "FP16"⟩ :=
    Model.ofPath_eq_ok_iff.2 ⟨rfl, .plain houter (by decide)⟩
  exact ⟨hrespelled, hsegments.trans houter, by rw [hmodel, htold]; rfl⟩

end Path

end ModelIR
