import ModelIR.Proofs.GenerationRun
import ModelIR.Proofs.PathParts
import ModelIR.Proofs.ReopenedFiles
import ModelIR.Proofs.ScanSelection

/-!
# Recorded paths

The path of a file that is met on a walk is the path of the directory with the names on the way
behind it, so that no two files have one path. What is recorded is its text. Each name stands in it
as it is read, between the same slashes (`Path.toText_extend`), so two files are recorded under one
path exactly if the names on their ways are read alike (`Path.toText_extend_inj`). This never
happens to names that are text, but it does to names that are not: bytes that are no text are all
read as U+FFFD.
-/

namespace ModelIR

/-! ## Texts of paths -/

namespace Path

variable {p : Path} {name : List UInt8} {way other : List (List UInt8)}

/-- What the name of an entry can be. -/
structure IsName (name : List UInt8) : Prop where
  ne_nil : name ≠ []
  no_slash : slash ∉ name

/-- What stands in a path in front of the slash that parts it from a name behind it. -/
def front (p : Path) : List UInt8 :=
  if p.endsInSlash then p.bytes.dropLast else p.bytes

theorem join_eq (hp : p.bytes ≠ []) (name : List UInt8) :
    p.join name = ⟨p.front ++ slash :: name⟩ := by
  have hempty : p.bytes.isEmpty = false := List.isEmpty_eq_false_iff.2 hp
  rw [join, front, hempty, Bool.false_or]
  split_ifs with h
  · obtain ⟨bytes, hbytes⟩ := List.getLast?_eq_some_iff.1 (of_decide_eq_true h)
    rw [hbytes, List.dropLast_concat, List.append_assoc, List.singleton_append]
  · rfl

theorem front_join (hp : p.bytes ≠ []) (hname : IsName name) :
    (p.join name).front = p.front ++ slash :: name := by
  rw [join_eq hp, front, if_neg]
  intro h
  have hlast := of_decide_eq_true h
  rw [List.getLast?_append_cons, List.getLast?_cons,
    List.getLast?_eq_some_getLast hname.ne_nil] at hlast
  exact hname.no_slash (Option.some.inj hlast ▸ List.getLast_mem hname.ne_nil)

theorem extend_eq : ∀ {way : List (List UInt8)} {p : Path}, p.bytes ≠ [] → way ≠ [] →
    (∀ name ∈ way, IsName name) → p.extend way = ⟨p.front ++ slash :: joinWith slash way⟩
  | [name], _, hp, _, _ => join_eq hp name
  | name :: second :: way, p, hp, _, hnames => by
    obtain ⟨hname, hnames⟩ := List.forall_mem_cons.1 hnames
    have hjoin : (p.join name).bytes ≠ [] := by simp [join_eq hp]
    rw [extend_cons, extend_eq hjoin (List.cons_ne_nil second way) hnames, front_join hp hname,
      List.append_assoc, List.cons_append]
    rfl

theorem chars_joinWith : ∀ parts : List (List UInt8),
    Lossy.chars (joinWith slash parts) = joinWith '/' (parts.map Lossy.chars)
  | [] => by rw [joinWith, Lossy.chars]; rfl
  | [part] => rfl
  | part :: second :: parts => by
    rw [joinWith, Lossy.chars_append_slash, chars_joinWith (second :: parts)]
    · rfl
    · simp

theorem toText_extend (hp : p.bytes ≠ []) (hway : way ≠ []) (hnames : ∀ name ∈ way, IsName name) :
    (p.extend way).toText.toList =
      Lossy.chars p.front ++ '/' :: joinWith '/' (way.map Lossy.chars) := by
  rw [toText, Lossy.decode, String.toList_ofList, extend_eq hp hway hnames,
    Lossy.chars_append_slash, chars_joinWith]

theorem extend_inj (hp : p.bytes ≠ []) (hway : way ≠ []) (hother : other ≠ [])
    (hnames : ∀ name ∈ way, IsName name) (hothers : ∀ name ∈ other, IsName name) :
    p.extend way = p.extend other ↔ way = other := by
  rw [extend_eq hp hway hnames, extend_eq hp hother hothers, mk.injEq, List.append_cancel_left_eq,
    List.cons.injEq, and_iff_right rfl]
  exact joinWith_inj hway hother (fun name hname => (hnames name hname).no_slash)
    fun name hname => (hothers name hname).no_slash

/-- Two paths have one text exactly if the names behind their beginning are read alike. -/
theorem toText_extend_inj (hp : p.bytes ≠ []) (hway : way ≠ []) (hother : other ≠ [])
    (hnames : ∀ name ∈ way, IsName name) (hothers : ∀ name ∈ other, IsName name) :
    (p.extend way).toText = (p.extend other).toText ↔
      way.map Lossy.decode = other.map Lossy.decode := by
  have hslash : ∀ names : List (List UInt8), (∀ name ∈ names, IsName name) →
      ∀ part ∈ names.map Lossy.chars, '/' ∉ part := by
    intro names h part hpart
    obtain ⟨name, hname, rfl⟩ := List.mem_map.1 hpart
    exact fun hmem => (h name hname).no_slash (Lossy.slash_mem_chars_iff.1 hmem)
  have hchars : way.map Lossy.decode = other.map Lossy.decode ↔
      way.map Lossy.chars = other.map Lossy.chars := by
    have hdecode : Lossy.decode = String.ofList ∘ Lossy.chars := rfl
    rw [hdecode, ← List.map_map, ← List.map_map]
    exact (List.map_injective_iff.2 fun _ _ => String.ofList_injective).eq_iff
  rw [hchars, ← String.toList_inj, toText_extend hp hway hnames, toText_extend hp hother hothers,
    List.append_cancel_left_eq, List.cons.injEq, and_iff_right rfl]
  exact joinWith_inj (by simpa using hway) (by simpa using hother) (hslash way hnames)
    (hslash other hothers)

/-- The name is the bytes of a text. -/
def IsUtf8 (name : List UInt8) : Prop :=
  ∃ text : String, name = (ofString text).bytes

theorem eq_of_decode_eq {name other : List UInt8} (hname : IsUtf8 name) (hother : IsUtf8 other)
    (h : Lossy.decode name = Lossy.decode other) : name = other := by
  obtain ⟨text, rfl⟩ := hname
  obtain ⟨text', rfl⟩ := hother
  rw [Lossy.decode_ofString, Lossy.decode_ofString] at h
  rw [h]

theorem eq_of_map_decode_eq : ∀ {way other : List (List UInt8)}, (∀ name ∈ way, IsUtf8 name) →
    (∀ name ∈ other, IsUtf8 name) → way.map Lossy.decode = other.map Lossy.decode → way = other
  | [], [], _, _, _ => rfl
  | name :: way, name' :: other, h, h', heq => by
    obtain ⟨hname, h⟩ := List.forall_mem_cons.1 h
    obtain ⟨hname', h'⟩ := List.forall_mem_cons.1 h'
    obtain ⟨hhead, htail⟩ := List.cons.inj heq
    rw [eq_of_decode_eq hname hname' hhead, eq_of_map_decode_eq h h' htail]

section Ways

variable {ways : List (List (List UInt8))} (hp : p.bytes ≠ []) (hnodup : ways.Nodup)
  (hways : ∀ way ∈ ways, way ≠ [] ∧ ∀ name ∈ way, IsName name)

include hp hnodup hways

theorem nodup_map_extend : (ways.map p.extend).Nodup := by
  rw [List.nodup_map_iff_inj_on hnodup]
  intro way hway other hother h
  obtain ⟨hne, hnames⟩ := hways way hway
  obtain ⟨hne', hnames'⟩ := hways other hother
  exact (extend_inj hp hne hne' hnames hnames').1 h

/-- Of distinct ways whose names are texts, the paths have distinct texts. -/
theorem nodup_map_toText_extend (htexts : ∀ way ∈ ways, ∀ name ∈ way, IsUtf8 name) :
    (ways.map fun way => (p.extend way).toText).Nodup := by
  rw [List.nodup_map_iff_inj_on hnodup]
  intro way hway other hother h
  obtain ⟨hne, hnames⟩ := hways way hway
  obtain ⟨hne', hnames'⟩ := hways other hother
  exact eq_of_map_decode_eq (htexts way hway) (htexts other hother)
    ((toText_extend_inj hp hne hne' hnames hnames').1 h)

end Ways

end Path

/-! ## Trees that are scanned -/

namespace Entry

/-- The names of all entries below are of one kind. -/
def NamesAre (P : Name → Prop) (e : Entry) : Prop :=
  ∀ way entries, e.at? way = some (dir entries) → ∀ p ∈ entries, P p.1

variable {P : Name → Prop} {e d : Entry} {entries : List (Name × Entry)} {way : Location}

theorem namesAre_of_not_dir (h : e.isDir = false) : e.NamesAre P :=
  fun way entries hat => absurd hat (at?_ne_dir h way entries)

theorem namesAre_dir (h : ∀ p ∈ entries, P p.1 ∧ p.2.NamesAre P) : (dir entries).NamesAre P := by
  intro way below hat
  cases way with
  | nil =>
    obtain rfl := Entry.dir.inj (Option.some.inj hat)
    exact fun p hp => (h p hp).1
  | cons name way =>
    rw [at?] at hat
    split at hat
    · next d hlookup => exact (h (name, d) (mem_of_lookup hlookup)).2 way below hat
    · simp at hat

theorem at?_trans {rest : Location} {x : Entry} (hat : e.at? way = some d)
    (hrest : d.at? rest = some x) : e.at? (way ++ rest) = some x := by
  rw [at?_append, hat]
  exact hrest

theorem NamesAre.at? (h : e.NamesAre P) (hat : e.at? way = some d) : d.NamesAre P :=
  fun rest entries hrest => h (way ++ rest) entries (at?_trans hat hrest)

theorem Distinct.at? (h : e.Distinct) (hat : e.at? way = some d) : d.Distinct :=
  fun rest entries hrest => h (way ++ rest) entries (at?_trans hat hrest)

theorem NamesAre.of_mem : ∀ {way : Location} {e : Entry}, e.NamesAre P → e.at? way = some d →
    ∀ name ∈ way, P name
  | [], _, _, _ => nofun
  | name :: way, .file _, _, hat | name :: way, .link _, _, hat => by simp [Entry.at?] at hat
  | name :: way, .dir entries, h, hat => by
    rw [Entry.at?] at hat
    split at hat
    · next e hlookup =>
      have hsingle : (dir entries).at? [name] = some e := (at?_singleton entries name).trans hlookup
      refine List.forall_mem_cons.2 ⟨h [] entries rfl (name, e) (mem_of_lookup hlookup), ?_⟩
      exact (h.at? hsingle).of_mem hat
    · simp at hat

/-- A walk that meets no directory which cannot be listed has listed all. -/
theorem listable_of_visits (e : Entry) : ∀ (path : Path) (name : Name), e.Distinct →
    (∀ p, .unlistable p ∉ e.visits path name) → e.Listable path := by
  induction e using induct with
  | file f => exact fun path _ _ _ => listable_file f path
  | link target => exact fun path _ _ _ => listable_link target path
  | dir entries ih =>
    intro path name hdistinct hvisits
    obtain ⟨hnames, hdistinct⟩ := distinct_dir.1 hdistinct
    rw [visits] at hvisits
    split_ifs at hvisits with hlength
    · exact absurd List.mem_cons_self (hvisits path)
    · refine (listable_dir hnames).2 ⟨Nat.not_lt.1 hlength, fun q hq => ?_⟩
      refine ih q hq (path.join q.1) q.1 (hdistinct q hq) fun p hp => hvisits p ?_
      rw [visitsByName_eq, List.mem_flatMap]
      exact ⟨_, mem_sortByName.2 (List.mem_map_of_mem hq), hp⟩

end Entry

theorem Scan.exists_of_mem {f : Filter} {visits : List Visit} {scan : Scan}
    (hscan : ofVisits f visits = .ok scan) : ∀ v ∈ visits, ∃ found, modelOf f v = .ok found := by
  induction visits generalizing scan with
  | nil => nofun
  | cons v visits ih =>
    rcases hv : modelOf f v with e | found
    · simp [ofVisits_cons_error hv] at hscan
    rcases hvisits : ofVisits f visits with e | rest
    · simp [ofVisits_cons_of_error hv hvisits] at hscan
    exact List.forall_mem_cons.2 ⟨⟨found, hv⟩, ih hvisits⟩

theorem Scan.map_path {dir : Path} : ∀ {models : List Model} {ways : List Location},
    models.map .ok = ways.map (fun way => Model.ofPath (dir.extend way)) →
      models.map Model.path = ways.map dir.extend
  | [], [], _ => rfl
  | model :: models, way :: ways, h => by
    obtain ⟨hmodel, h⟩ := List.cons.inj h
    rw [List.map_cons, List.map_cons, (Model.mem_segments_of_ofPath hmodel.symm).1, map_path h]

namespace FileTree

variable {t t' : FileTree} {f : Filter} {dir : Path} {scan : Scan}
  {location : Location} {below : Entry}

theorem ne_nil_of_resolve {a : Arrival} (h : t.resolve dir = .ok a) : dir.bytes ≠ [] := by
  intro hnil
  obtain ⟨hrefusal, -⟩ := follow_of_resolve h
  simp [Path.refusal?, hnil] at hrefusal

theorem exists_found_of_present (h : t.present dir = true) :
    ∃ location below, t.resolve dir = .ok (.found location below) := by
  rw [present] at h
  split at h
  · next location below hdir => exact ⟨location, below, hdir⟩
  · simp at h

theorem listable_of_ofVisits (hdir : t.resolve dir = .ok (.found location below))
    (hdistinct : below.Distinct) (hscan : Scan.ofVisits f (t.visits dir) = .ok scan) :
    below.Listable dir := by
  cases below with
  | file g => exact Entry.listable_file g dir
  | link target => exact Entry.listable_link target dir
  | dir entries =>
    refine Entry.listable_of_visits (.dir entries) dir [] hdistinct fun p hp => ?_
    have hmem : .unlistable p ∈ t.visits dir := by
      rw [visits, hdir]
      exact hp
    obtain ⟨found, hfound⟩ := Scan.exists_of_mem hscan _ hmem
    simp [Scan.modelOf] at hfound

/-- A scan that succeeds has listed all directories below the one that it was asked for, and selects
from all that is met there. -/
theorem exists_selects_of_scan (hdistinct : t.root.Distinct)
    (hscan : (Scan.run files f dir).run t = (.ok scan, t')) :
    ∃ location below ways, t.resolve dir = .ok (.found location below) ∧ below.IsWalk ways ∧
      Scan.Selects f dir ways scan := by
  rw [shows_files.run_scan, Scan.ofView] at hscan
  obtain ⟨hscan, -⟩ := Prod.mk.inj hscan
  split_ifs at hscan with hpresent
  obtain ⟨location, below, hdir⟩ := exists_found_of_present hpresent
  have hbelow := hdistinct.at? (at?_of_resolve hdir)
  obtain ⟨ways, hwalk, hvisits⟩ :=
    exists_visits hdir hbelow (listable_of_ofVisits hdir hbelow hscan)
  refine ⟨location, below, ways, hdir, hwalk, ?_⟩
  rw [hvisits] at hscan
  have hpasses : ∀ way ∈ ways, ∀ e, ¬ Scan.Offends f dir way e := by
    intro way hway e hoffends
    obtain ⟨found, hfound⟩ := Scan.exists_of_mem hscan _ (List.mem_map_of_mem hway)
    simp [Scan.modelOf_of_offends hoffends] at hfound
  obtain ⟨scan', hscan', hselects⟩ := Scan.exists_selects hwalk.nodup hpasses
  obtain rfl := Except.ok.inj (hscan.symm.trans hscan')
  exact hselects

end FileTree

/-- The paths that the models found are recorded under. -/
def Scan.recorded (scan : Scan) : List String :=
  scan.models.map fun model => (ModelRecord.ofModel model).path

/-- Every test of a model has a record under its path, so the pairs of a path and a test in the
references are as distinct as the paths. -/
theorem Manifests.Adds.exists_references {d d' : Manifests} {scan : Scan}
    (h : d.Adds d' scan.models) :
    ∃ rs : List ReferenceRecord,
      d'.references = (rs.map ReferenceRecord.toElement).foldl Document.append d.references ∧
        rs.map (fun r => (r.path, r.test)) = scan.recorded ×ˢ TestKind.all := by
  obtain ⟨rs, hsubjects, hreferences⟩ := h.references
  refine ⟨rs, hreferences, ?_⟩
  have hpairs := congrArg (List.map fun subject => (subject.1, subject.2.2.1)) hsubjects
  rw [List.map_map, List.map_flatMap] at hpairs
  refine hpairs.trans ?_
  change _ = (scan.models.map fun model => (ModelRecord.ofModel model).path).flatMap _
  rw [List.flatMap_map]
  rfl

namespace FileTree

/-- The models that a scan finds are those of distinct ways, and have distinct paths. Two of them
are recorded under one path exactly if the names on their ways are read alike. If all these names
are text, then no two are, nor do two records in the references share a path and a test. -/
theorem scan_recorded {t t' : FileTree} {f : Filter} {dir : Path} {scan : Scan}
    (hdistinct : t.root.Distinct) (hnames : t.root.NamesAre Path.IsName)
    (hscan : (Scan.run files f dir).run t = (.ok scan, t')) :
    ∃ location below, ∃ ways : List Location, t.resolve dir = .ok (.found location below) ∧
      (∀ way ∈ ways, ∃ e, below.at? way = some e ∧ e.isDir = false) ∧
      scan.models.map Model.path = ways.map dir.extend ∧ (scan.models.map Model.path).Nodup ∧
      scan.recorded = ways.map (fun way => (dir.extend way).toText) ∧
      (∀ way ∈ ways, ∀ other ∈ ways, (dir.extend way).toText = (dir.extend other).toText ↔
        way.map Lossy.decode = other.map Lossy.decode) ∧
      ((∀ way ∈ ways, ∀ name ∈ way, Path.IsUtf8 name) → scan.recorded.Nodup ∧
        ∀ (d : Manifests) w, ∃ d' w', (d.addModels scan.models).run w = (d', w') ∧
          d'.tests = (scan.models.map fun model => (ModelRecord.ofModel model).toElement).foldl
            Document.append d.tests ∧
          ∃ rs : List ReferenceRecord, d'.references =
            (rs.map ReferenceRecord.toElement).foldl Document.append d.references ∧
          (rs.map fun r => (r.path, r.test)).Nodup) := by
  obtain ⟨location, below, ways, hdir, hwalk, hselects⟩ := exists_selects_of_scan hdistinct hscan
  obtain ⟨chosen, hsublist, -, hmodels⟩ := hselects.models
  have hfile : ∀ way ∈ chosen, way ≠ [] ∧ ∃ e, below.at? way = some e ∧ e.isDir = false :=
    fun way hway => (hwalk.complete way).1 (hsublist.subset hway)
  have hways : ∀ way ∈ chosen, way ≠ [] ∧ ∀ name ∈ way, Path.IsName name := by
    intro way hway
    obtain ⟨hne, e, hat, -⟩ := hfile way hway
    exact ⟨hne, (hnames.at? (at?_of_resolve hdir)).of_mem hat⟩
  have hpaths := Scan.map_path hmodels
  have hrecorded : scan.recorded = chosen.map fun way => (dir.extend way).toText := by
    have htexts := congrArg (List.map Path.toText) hpaths
    rwa [List.map_map, List.map_map] at htexts
  have hnodup : chosen.Nodup := hwalk.nodup.sublist hsublist
  have hdirbytes := ne_nil_of_resolve hdir
  refine ⟨location, below, chosen, hdir, fun way hway => (hfile way hway).2, hpaths,
    hpaths ▸ Path.nodup_map_extend hdirbytes hnodup hways, hrecorded,
    fun way hway other hother => ?_, fun htexts => ?_⟩
  · exact Path.toText_extend_inj hdirbytes (hways way hway).1 (hways other hother).1
      (hways way hway).2 (hways other hother).2
  · have hdistinct : scan.recorded.Nodup :=
      hrecorded ▸ Path.nodup_map_toText_extend hdirbytes hnodup hways htexts
    refine ⟨hdistinct, fun d w => ?_⟩
    obtain ⟨d', w', hrun, hadds⟩ := d.exists_addModels scan.models w
    obtain ⟨rs, hreferences, hpairs⟩ := hadds.exists_references
    exact ⟨d', w', hrun, hadds.tests, rs, hreferences, hpairs ▸ hdistinct.product (by decide)⟩

section Twins

def twinDirs : Location :=
  List.replicate 5 [0x61]

/-- A tree with a cache of two files, side by side in the last of five directories. -/
def twinTree (first second : Name) : FileTree where
  root := .dir [([0x63], twinDirs.foldr (fun name e => .dir [(name, e)])
    (.dir [(first, .file {}), (second, .file {})]))]

def twinDir : Path :=
  ⟨[0x63]⟩

def twinModel (name : Name) : Model where
  fileName := Lossy.decode name
  path := twinDir.extend (twinDirs ++ [name])
  layout := .plain
  framework := "a"
  precision := "a"

def twinScan (first second : Name) : Scan where
  models := [twinModel first, twinModel second]
  filesVisited := 2

variable {first second : Name} {P : Name → Prop}

theorem distinct_twinTree (h : first ≠ second) : (twinTree first second).root.Distinct := by
  simp [twinTree, twinDirs, Entry.distinct_dir, h]

theorem visits_twinTree (h : first < second) : (twinTree first second).visits twinDir =
    [.file (twinModel first).path first, .file (twinModel second).path second] := by
  have hresolve : (twinTree first second).resolve twinDir = .ok (.found [[0x63]] (twinDirs.foldr
      (fun name e => .dir [(name, e)]) (.dir [(first, .file {}), (second, .file {})]))) := rfl
  have hsingle : ∀ {path : Path} {name : Name} {e : Entry} (n : Name),
      path.bytes.length ≤ maxPathLength →
      (Entry.dir [(name, e)]).visits path n = e.visits (path.join name) name := by
    intro path name e n hlength
    rw [Entry.visits_dir hlength (.refl _) (List.pairwise_singleton _ _)]
    exact List.append_nil _
  have hpair : [(first, Entry.file {}), (second, .file {})].Pairwise fun p q => p.1 < q.1 := by
    simpa using h
  rw [FileTree.visits, hresolve]
  iterate 5 refine (hsingle _ (by decide)).trans ?_
  exact Entry.visits_dir (by decide) (.refl _) hpair _

theorem run_twinTree (h : first < second) (hscan : Scan.ofVisits {}
      [.file (twinModel first).path first, .file (twinModel second).path second] =
        .ok (twinScan first second)) :
    (Scan.run files {} twinDir).run (twinTree first second) =
      (.ok (twinScan first second), twinTree first second) := by
  have hpresent : (twinTree first second).view.present twinDir = true := rfl
  have hvisits : (twinTree first second).view.visits twinDir = _ := visits_twinTree h
  rw [shows_files.run_scan, Scan.ofView, if_pos hpresent, hvisits, hscan]

theorem namesAre_twinTree (hc : P [0x63]) (ha : P [0x61]) (hfirst : P first) (hsecond : P second) :
    (twinTree first second).root.NamesAre P := by
  have hfile : (Entry.file {}).NamesAre P := Entry.namesAre_of_not_dir rfl
  have hdir : ∀ {name : Name} {e : Entry}, P name → e.NamesAre P →
      (Entry.dir [(name, e)]).NamesAre P := fun hname he => Entry.namesAre_dir (by simp [hname, he])
  have htwins : (Entry.dir [(first, .file {}), (second, .file {})]).NamesAre P :=
    Entry.namesAre_dir (by simp [hfirst, hsecond, hfile])
  exact hdir hc (hdir ha (hdir ha (hdir ha (hdir ha (hdir ha htwins)))))

def grave : Name := (Path.ofString "è.xml").bytes

def acute : Name := (Path.ofString "é.xml").bytes

theorem accentedTwins_recorded : (twinTree grave acute).root.Distinct ∧
    (twinTree grave acute).root.NamesAre Path.IsName ∧
    (Scan.run files {} twinDir).run (twinTree grave acute) =
      (.ok (twinScan grave acute), twinTree grave acute) ∧
    (twinScan grave acute).recorded.Nodup := by
  have hdistinct : (twinTree grave acute).root.Distinct := distinct_twinTree (by decide)
  have hnames : (twinTree grave acute).root.NamesAre Path.IsName :=
    namesAre_twinTree ⟨by decide, by decide⟩ ⟨by decide, by decide⟩ ⟨by decide, by decide⟩
      ⟨by decide, by decide⟩
  have hutf8 : (twinTree grave acute).root.NamesAre Path.IsUtf8 :=
    namesAre_twinTree ⟨"c", by decide⟩ ⟨"a", by decide⟩ ⟨_, rfl⟩ ⟨_, rfl⟩
  have hscan : (Scan.run files {} twinDir).run (twinTree grave acute) =
      (.ok (twinScan grave acute), twinTree grave acute) :=
    run_twinTree (by decide) (by decide +kernel)
  obtain ⟨location, below, ways, hdir, hways, -, -, -, -, htexts⟩ :=
    scan_recorded hdistinct hnames hscan
  refine ⟨hdistinct, hnames, hscan, (htexts fun way hway => ?_).1⟩
  obtain ⟨e, hat, -⟩ := hways way hway
  exact (hutf8.at? (at?_of_resolve hdir)).of_mem hat

/-- A name that is no text: no character begins with its first byte, nor with that of the next. -/
def garbledFE : Name := 0xFE :: (Path.ofString ".xml").bytes

def garbledFF : Name := 0xFF :: (Path.ofString ".xml").bytes

/-- Two files with such names have two paths, but are recorded under one. -/
theorem garbledTwins_recorded : (twinTree garbledFE garbledFF).root.Distinct ∧
    (twinTree garbledFE garbledFF).root.NamesAre Path.IsName ∧
    (Scan.run files {} twinDir).run (twinTree garbledFE garbledFF) =
      (.ok (twinScan garbledFE garbledFF), twinTree garbledFE garbledFF) ∧
    ((twinScan garbledFE garbledFF).models.map Model.path).Nodup ∧
    (twinScan garbledFE garbledFF).recorded =
      ["c/a/a/a/a/a/\uFFFD.xml", "c/a/a/a/a/a/\uFFFD.xml"] ∧
    ¬ (twinScan garbledFE garbledFF).recorded.Nodup := by
  have hrecorded : (twinScan garbledFE garbledFF).recorded =
      ["c/a/a/a/a/a/\uFFFD.xml", "c/a/a/a/a/a/\uFFFD.xml"] := by decide +kernel
  refine ⟨distinct_twinTree (by decide), ?_, run_twinTree (by decide) (by decide +kernel),
    by decide, hrecorded, by simp [hrecorded]⟩
  exact namesAre_twinTree ⟨by decide, by decide⟩ ⟨by decide, by decide⟩ ⟨by decide, by decide⟩
    ⟨by decide, by decide⟩

end Twins

end FileTree

end ModelIR
