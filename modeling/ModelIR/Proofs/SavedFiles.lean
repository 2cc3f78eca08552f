import Mathlib.Tactic.SplitIfs
import ModelIR.Files.Store

/-!
# Saving files

The shape of a tree is the tree without the content of its files. What a path leads to and what is
met below it depend on the shape (`resolve_shape`, `visits_shape`), and saving a file keeps the
shape. So after a file is saved its content is the new one under all its names
(`HasFile.hasFile_save_same`), and other files are as they were (`HasFile.hasFile_save_other`).
-/

namespace ModelIR

namespace File

/-- A file without its content. -/
def shape (f : File) : File :=
  { f with content := .empty }

/-- A file is its shape and its content. -/
theorem eq_of_shape {f f' : File} (h : f'.shape = f.shape) :
    { f with content := f'.content } = f' :=
  (congrArg (fun g : File => { g with content := f'.content }) h).symm

/-- Content that fits is kept to its end. -/
theorem write_eq (f : File) {content : ByteArray} (h : f.writeFault? content = none) :
    f.write content = { f with content } := by
  rw [writeFault?] at h
  rw [write]
  rcases hroom : f.room with _ | room
  · rfl
  · simp only [hroom] at h ⊢
    split_ifs at h with hsize
    have hcontent : content.extract 0 room = content := by
      rw [ByteArray.ext_iff, ByteArray.data_extract, Array.extract_eq_self_of_le hsize]
    rw [hcontent]

theorem sharing_of_twin {f g : File} (h : f.isTwin g = true) :
    f.sharing g = { f with content := g.content } :=
  if_pos h

theorem sharing_of_not_twin {f g : File} (h : ¬ f.isTwin g = true) : f.sharing g = f :=
  if_neg h

theorem shape_sharing (f g : File) : (f.sharing g).shape = f.shape := by
  rw [sharing]
  split_ifs <;> rfl

/-- Which files are one depends on their shapes. -/
theorem isTwin_of_shape {f f' : File} (h : f'.shape = f.shape) (g : File) :
    g.isTwin f' = g.isTwin f := by
  have hinode : f'.shape.inode = f.shape.inode := congrArg File.inode h
  change f'.inode = f.inode at hinode
  rw [isTwin, isTwin, hinode]

theorem isTwin_comm (f g : File) : f.isTwin g = g.isTwin f := by
  rw [isTwin, isTwin]
  by_cases h : f.inode = g.inode
  · rw [h]
  · simp [h, Ne.symm h]

end File

namespace Entry

mutual

/-- An entry without the content of its files. -/
def shape : Entry → Entry
  | file f => file f.shape
  | link target => link target
  | dir entries => dir (shapes entries)

/-- Entries without the content of their files. -/
def shapes : List (Name × Entry) → List (Name × Entry)
  | [] => []
  | (name, e) :: entries => (name, e.shape) :: shapes entries

end

theorem lookup_shapes (name : Name) : ∀ entries : List (Name × Entry),
    (shapes entries).lookup name = (entries.lookup name).map shape
  | [] => rfl
  | (other, e) :: entries => by
    rw [shapes, List.lookup_cons, List.lookup_cons]
    rcases name == other with _ | _
    · exact lookup_shapes name entries
    · rfl

theorem at?_shape : ∀ (location : Location) (e : Entry),
    e.shape.at? location = (e.at? location).map shape
  | [], _ => rfl
  | _ :: _, file _ => rfl
  | _ :: _, link _ => rfl
  | name :: rest, dir entries => by
    rw [shape, at?, at?, lookup_shapes]
    rcases entries.lookup name with _ | e
    · rfl
    · exact at?_shape rest e

mutual

theorem visits_shape (path : Path) (name : Name) : ∀ e : Entry,
    e.shape.visits path name = e.visits path name
  | file _ => rfl
  | link _ => rfl
  | dir entries => by
    rw [shape, visits, visits, visitsByName_shapes path entries]

theorem visitsByName_shapes (path : Path) : ∀ entries : List (Name × Entry),
    visitsByName path (shapes entries) = visitsByName path entries
  | [] => rfl
  | (name, e) :: entries => by
    rw [shapes, visitsByName, visitsByName, visits_shape (path.join name) name e,
      visitsByName_shapes path entries]

end

/-! ## Names of one file -/

mutual

theorem shape_share (f : File) : ∀ e : Entry, (e.share f).shape = e.shape
  | file g => congrArg Entry.file (g.shape_sharing f)
  | link _ => rfl
  | dir entries => by rw [share, shape, shape, shapes_shareAll f entries]

theorem shapes_shareAll (f : File) : ∀ entries : List (Name × Entry),
    shapes (shareAll f entries) = shapes entries
  | [] => rfl
  | (name, e) :: entries => by
    rw [shareAll, shapes, shapes, shape_share f e, shapes_shareAll f entries]

end

theorem lookup_shareAll (f : File) (name : Name) : ∀ entries : List (Name × Entry),
    (shareAll f entries).lookup name = (entries.lookup name).map (share f)
  | [] => rfl
  | (other, e) :: entries => by
    rw [shareAll, List.lookup_cons, List.lookup_cons]
    rcases name == other with _ | _
    · exact lookup_shareAll f name entries
    · rfl

theorem at?_share (f : File) : ∀ (location : Location) (e : Entry),
    (e.share f).at? location = (e.at? location).map (share f)
  | [], _ => rfl
  | _ :: _, file _ => rfl
  | _ :: _, link _ => rfl
  | name :: rest, dir entries => by
    rw [share, at?, at?, lookup_shareAll]
    rcases entries.lookup name with _ | e
    · rfl
    · exact at?_share f rest e

mutual

/-- A file with one name shares its content with no other. -/
theorem share_of_inode {f : File} (h : f.inode = none) : ∀ e : Entry, e.share f = e
  | file g => by
    have hne : ¬ g.isTwin f = true := by
      rw [File.isTwin_comm, File.isTwin, h]
      exact Bool.false_ne_true
    rw [share, File.sharing_of_not_twin hne]
  | link _ => rfl
  | dir entries => by rw [share, shareAll_of_inode h entries]

theorem shareAll_of_inode {f : File} (h : f.inode = none) : ∀ entries : List (Name × Entry),
    shareAll f entries = entries
  | [] => rfl
  | (name, e) :: entries => by rw [shareAll, share_of_inode h e, shareAll_of_inode h entries]

end

/-! ## Putting a file in the place of a file -/

theorem lookup_setName (name : Name) (e : Entry) : ∀ entries : List (Name × Entry),
    (setName name e entries).lookup name = some e
  | [] => by simp [setName]
  | p :: entries => by
    rw [setName]
    split_ifs with h
    · exact List.lookup_cons_self
    · have hne : (name == p.1) = false := by simpa using Ne.symm h
      rw [List.lookup_cons, hne]
      exact lookup_setName name e entries

theorem lookup_setName_of_ne {name other : Name} (h : other ≠ name) (e : Entry) :
    ∀ entries : List (Name × Entry), (setName name e entries).lookup other = entries.lookup other
  | [] => by simp [setName, h]
  | p :: entries => by
    have ih := lookup_setName_of_ne h e entries
    rw [setName]
    split_ifs with hp
    · have hne : (other == name) = false := by simpa using h
      rw [List.lookup_cons, List.lookup_cons, hp, hne]
    · rw [List.lookup_cons, List.lookup_cons, ih]

theorem shapes_setName {name : Name} {e e' : Entry} (h : e'.shape = e.shape) :
    ∀ {entries : List (Name × Entry)}, entries.lookup name = some e →
      shapes (setName name e' entries) = shapes entries
  | [], hlookup => by simp at hlookup
  | (other, d) :: entries, hlookup => by
    rw [setName]
    split_ifs with hname
    · obtain rfl : other = name := hname
      rw [List.lookup_cons_self] at hlookup
      obtain rfl := Option.some.inj hlookup
      rw [shapes, shapes, h]
    · have hne : (name == other) = false := by simpa using Ne.symm hname
      rw [List.lookup_cons, hne] at hlookup
      rw [shapes, shapes, shapes_setName h hlookup]

theorem exists_lookup_of_at? {name : Name} {rest : Location} {entries : List (Name × Entry)}
    {old : Entry} (h : (dir entries).at? (name :: rest) = some old) :
    ∃ e, entries.lookup name = some e ∧ e.at? rest = some old := by
  rw [at?] at h
  rcases hlookup : entries.lookup name with _ | e
  · simp [hlookup] at h
  · exact ⟨e, rfl, by simpa only [hlookup] using h⟩

theorem at?_put (new : Entry) : ∀ {location : Location} {e old : Entry},
    e.at? location = some old → (put new location e).at? location = some new
  | [], _, _, _ => rfl
  | _ :: _, file _, _, h => by simp [at?] at h
  | _ :: _, link _, _, h => by simp [at?] at h
  | name :: rest, dir entries, old, h => by
    obtain ⟨e, hlookup, h⟩ := exists_lookup_of_at? h
    simp only [put, hlookup, at?, lookup_setName]
    exact at?_put new h

theorem shape_put {new old : Entry} (hshape : new.shape = old.shape) :
    ∀ {location : Location} {e : Entry}, e.at? location = some old →
      (put new location e).shape = e.shape
  | [], e, h => by
    obtain rfl := Option.some.inj h
    exact hshape
  | _ :: _, file _, h => by simp [at?] at h
  | _ :: _, link _, h => by simp [at?] at h
  | name :: rest, dir entries, h => by
    obtain ⟨e, hlookup, h⟩ := exists_lookup_of_at? h
    simp only [put, hlookup, shape]
    rw [shapes_setName (shape_put hshape h) hlookup]

/-- Files at other locations stay. -/
theorem at?_put_of_ne {new : Entry} {f g : File} : ∀ {location other : Location} {e : Entry},
    e.at? location = some (file f) → e.at? other = some (file g) → other ≠ location →
      (put new location e).at? other = some (file g)
  | [], other, e, h, hother, hne => by
    obtain rfl := Option.some.inj h
    cases other with
    | nil => exact absurd rfl hne
    | cons => simp [at?] at hother
  | _ :: _, _, file _, h, _, _ => by simp [at?] at h
  | _ :: _, _, link _, h, _, _ => by simp [at?] at h
  | name :: rest, [], dir entries, _, hother, _ => by simp [at?] at hother
  | name :: rest, name' :: rest', dir entries, h, hother, hne => by
    obtain ⟨e, hlookup, hbelow⟩ := exists_lookup_of_at? h
    simp only [put, hlookup, at?]
    rw [at?] at hother
    by_cases hname : name' = name
    · subst hname
      simp only [hlookup] at hother
      rw [lookup_setName]
      exact at?_put_of_ne hbelow hother fun hrest => hne (hrest ▸ rfl)
    · rw [lookup_setName_of_ne hname]
      exact hother

end Entry

/-- What a way leads to, without the content of files. -/
def Arrival.shape : Arrival → Arrival
  | found location e => found location e.shape
  | vacant directory name => vacant directory name
  | link directory target rest => link directory target rest

namespace FileTree

variable {t t' : FileTree} {p q : Path} {location other : Location} {f g : File}

/-- A tree without the content of its files. -/
def shape (t : FileTree) : FileTree :=
  { t with root := t.root.shape }

/-! ## What a path leads to -/

theorem walk_shape (t : FileTree) : ∀ (names : List Name) (location : Location),
    t.shape.walk location names = (t.walk location names).map Arrival.shape
  | [], location => by
    rw [walk, walk, shape, Entry.at?_shape]
    rcases t.root.at? location with _ | e <;> rfl
  | name :: rest, location => by
    have hroot : t.shape.root.at? location = (t.root.at? location).map Entry.shape :=
      Entry.at?_shape location t.root
    rw [walk, walk, hroot]
    rcases t.root.at? location with _ | (f | target | entries)
    · rfl
    · rfl
    · rfl
    · simp only [Option.map_some, Entry.shape, Entry.lookup_shapes]
      by_cases hhere : name = Path.here
      · rw [if_pos hhere, if_pos hhere]
        exact walk_shape t rest location
      by_cases hup : name = Path.up
      · rw [if_neg hhere, if_neg hhere, if_pos hup, if_pos hup]
        exact walk_shape t rest location.dropLast
      by_cases hlong : name.length > maxNameLength
      · rw [if_neg hhere, if_neg hhere, if_neg hup, if_neg hup, if_pos hlong, if_pos hlong]
        rfl
      rw [if_neg hhere, if_neg hhere, if_neg hup, if_neg hup, if_neg hlong, if_neg hlong]
      rcases entries.lookup name with _ | (f | target | entries)
      · simp only [Option.map_none]
        split_ifs <;> rfl
      · exact walk_shape t rest (location ++ [name])
      · rfl
      · exact walk_shape t rest (location ++ [name])

theorem follow_shape (t : FileTree) : ∀ (links : Nat) (location : Location) (names : List Name),
    t.shape.follow links location names = (t.follow links location names).map Arrival.shape
  | links, location, names => by
    rw [follow.eq_def, follow.eq_def, walk_shape]
    rcases t.walk location names with e | (⟨d, e⟩ | ⟨d, n⟩ | ⟨d, target, rest⟩)
    · rfl
    · rfl
    · rfl
    · cases links with
      | zero => rfl
      | succ links => exact follow_shape t links (start d target) (target.steps ++ rest)

theorem resolve_shape (t : FileTree) (p : Path) :
    t.shape.resolve p = (t.resolve p).map Arrival.shape := by
  rw [resolve, resolve, resolveNames, resolveNames]
  rcases p.refusal? with _ | e
  · exact follow_shape t maxLinks (start t.workplace p) p.steps
  · rfl

/-- What is met below a path depends on the shape of the tree. -/
theorem visits_shape (t : FileTree) (p : Path) : t.shape.visits p = t.visits p := by
  rw [visits, visits, resolve_shape]
  rcases t.resolve p with e | (⟨d, f | target | entries⟩ | ⟨d, n⟩ | ⟨d, target, rest⟩)
  all_goals first | rfl | exact Entry.visits_shape p [] (.dir entries)

theorem present_shape (t : FileTree) (p : Path) : t.shape.present p = t.present p := by
  rw [present, present, resolve_shape]
  rcases t.resolve p with e | (⟨d, e⟩ | ⟨d, n⟩ | ⟨d, target, rest⟩) <;> rfl

/-- A name that an entry of a directory can have. -/
def IsEntryName (name : Name) : Prop :=
  name ≠ Path.here ∧ name ≠ Path.up ∧ name.length ≤ maxNameLength

/-- The names that are followed from a location, up to the first link, and what they lead to. -/
inductive Walks (t : FileTree) : Location → List Name → Arrival → Prop
  | found {location : Location} {e : Entry} (hat : t.root.at? location = some e) :
    Walks t location [] (.found location e)
  | here {location : Location} {entries : List (Name × Entry)} {rest : List Name} {a : Arrival}
    (hat : t.root.at? location = some (.dir entries)) (h : Walks t location rest a) :
    Walks t location (Path.here :: rest) a
  | up {location : Location} {entries : List (Name × Entry)} {rest : List Name} {a : Arrival}
    (hat : t.root.at? location = some (.dir entries)) (h : Walks t location.dropLast rest a) :
    Walks t location (Path.up :: rest) a
  | link {location : Location} {entries : List (Name × Entry)} {name : Name} {target : Path}
    {rest : List Name} (hat : t.root.at? location = some (.dir entries)) (hname : IsEntryName name)
    (hlookup : entries.lookup name = some (.link target)) :
    Walks t location (name :: rest) (.link location target rest)
  | down {location : Location} {entries : List (Name × Entry)} {name : Name} {e : Entry}
    {rest : List Name} {a : Arrival} (hat : t.root.at? location = some (.dir entries))
    (hname : IsEntryName name) (hlookup : entries.lookup name = some e)
    (hlink : ∀ target, e ≠ .link target)
    (h : Walks t (location ++ [name]) rest a) : Walks t location (name :: rest) a
  | vacant {location : Location} {entries : List (Name × Entry)} {name : Name}
    (hat : t.root.at? location = some (.dir entries)) (hname : IsEntryName name)
    (hlookup : entries.lookup name = none) : Walks t location [name] (.vacant location name)

theorem walk_here_cons {location : Location} {entries : List (Name × Entry)}
    (hat : t.root.at? location = some (.dir entries)) (rest : List Name) :
    t.walk location (Path.here :: rest) = t.walk location rest := by
  rw [walk, hat]
  exact if_pos rfl

theorem walk_up_cons {location : Location} {entries : List (Name × Entry)}
    (hat : t.root.at? location = some (.dir entries)) (rest : List Name) :
    t.walk location (Path.up :: rest) = t.walk location.dropLast rest := by
  rw [walk, hat]
  exact (if_neg (by decide)).trans (if_pos rfl)

theorem walk_entry_cons {location : Location} {entries : List (Name × Entry)} {name : Name}
    (hat : t.root.at? location = some (.dir entries)) (hname : IsEntryName name)
    (rest : List Name) :
    t.walk location (name :: rest) =
      match entries.lookup name with
      | some (.link target) => .ok (.link location target rest)
      | some _ => t.walk (location ++ [name]) rest
      | none => if rest = [] then .ok (.vacant location name) else .error .missing := by
  rw [walk, hat]
  exact (if_neg hname.1).trans ((if_neg hname.2.1).trans (if_neg (Nat.not_lt.2 hname.2.2)))

theorem Walks.walk_eq {location : Location} {names : List Name} {a : Arrival}
    (h : t.Walks location names a) : t.walk location names = .ok a := by
  induction h with
  | found hat => rw [walk, hat]
  | here hat _ ih => rw [walk_here_cons hat, ih]
  | up hat _ ih => rw [walk_up_cons hat, ih]
  | link hat hname hlookup => rw [walk_entry_cons hat hname, hlookup]
  | down hat hname hlookup hlink _ ih =>
    rw [walk_entry_cons hat hname, hlookup, ← ih]
    split
    · next heq => exact absurd (Option.some.inj heq) (hlink _)
    · rfl
    · next heq => simp at heq
  | vacant hat hname hlookup => rw [walk_entry_cons hat hname, hlookup, if_pos rfl]

theorem walks_of_walk : ∀ {names : List Name} {location : Location} {a : Arrival},
    t.walk location names = .ok a → t.Walks location names a
  | [], location, a, h => by
    rw [walk] at h
    split at h
    · next e hat =>
      obtain rfl := Except.ok.inj h
      exact .found hat
    · simp at h
  | name :: rest, location, a, h => by
    rcases hat : t.root.at? location with _ | (f | target | entries)
    · simp [walk, hat] at h
    · simp [walk, hat] at h
    · simp [walk, hat] at h
    by_cases hhere : name = Path.here
    · subst hhere
      rw [walk_here_cons hat] at h
      exact .here hat (walks_of_walk h)
    by_cases hup : name = Path.up
    · subst hup
      rw [walk_up_cons hat] at h
      exact .up hat (walks_of_walk h)
    by_cases hlong : name.length > maxNameLength
    · simp [walk, hat, hhere, hup, hlong] at h
    have hname : IsEntryName name := ⟨hhere, hup, Nat.not_lt.1 hlong⟩
    rw [walk_entry_cons hat hname] at h
    rcases hlookup : entries.lookup name with _ | (f | target | entries')
    all_goals simp only [hlookup] at h
    · split_ifs at h with hrest
      obtain rfl := Except.ok.inj h
      subst hrest
      exact .vacant hat hname hlookup
    · exact .down hat hname hlookup nofun (walks_of_walk h)
    · obtain rfl := Except.ok.inj h
      exact .link hat hname hlookup
    · exact .down hat hname hlookup nofun (walks_of_walk h)

theorem Walks.at? {location : Location} {names : List Name} {a : Arrival} {e : Entry}
    (h : t.Walks location names a) (ha : a = .found other e) : t.root.at? other = some e := by
  induction h with
  | found hat =>
    obtain ⟨rfl, rfl⟩ := Arrival.found.inj ha
    exact hat
  | here _ _ ih | up _ _ ih | down _ _ _ _ _ ih => exact ih ha
  | link | vacant => simp at ha

theorem walk_found {names : List Name} {location : Location} {e : Entry}
    (h : t.walk location names = .ok (.found other e)) : t.root.at? other = some e :=
  (walks_of_walk h).at? rfl

/-- What names lead to is what the last walk leads to, behind all links. -/
theorem exists_walk_of_follow {a : Arrival} :
    ∀ {links : Nat} {names : List Name} {location : Location},
    t.follow links location names = .ok a → ∃ directory rest, t.walk directory rest = .ok a
  | links, names, location, h => by
    rw [follow.eq_def] at h
    split at h
    · split at h
      · simp at h
      · exact exists_walk_of_follow h
    · exact ⟨location, names, h⟩

theorem follow_of_resolve {a : Arrival} (h : t.resolve p = .ok a) :
    p.refusal? = none ∧ t.follow maxLinks (start t.workplace p) p.steps = .ok a := by
  rw [resolve, resolveNames] at h
  split at h
  · simp at h
  · next hrefusal => exact ⟨hrefusal, h⟩

theorem at?_of_resolve {e : Entry} (h : t.resolve p = .ok (.found location e)) :
    t.root.at? location = some e := by
  obtain ⟨directory, rest, hwalk⟩ := exists_walk_of_follow (follow_of_resolve h).2
  exact walk_found hwalk

/-! ## Writing where a path leads to -/

/-- A way whose last name is a dot leads to a directory. -/
theorem Walks.of_here {names init : List Name} {location : Location} {a : Arrival}
    (h : t.Walks location names a) (hnames : names = init ++ [Path.here]) :
    (∀ other e, a = .found other e → ∃ entries, e = .dir entries) ∧
      ∀ d target rest, a = .link d target rest → ∃ rest', rest = rest' ++ [Path.here] := by
  induction h generalizing init with
  | found => simp at hnames
  | here hat h ih =>
    rcases List.cons_eq_append_iff.1 hnames with ⟨rfl, hnil⟩ | ⟨init, rfl, hrest⟩
    · obtain rfl := (List.cons.inj hnil).2.symm
      cases h with
      | found hat' =>
        refine ⟨?_, nofun⟩
        rintro other e ⟨⟩
        exact ⟨_, Option.some.inj (hat'.symm.trans hat)⟩
    · exact ih hrest
  | up hat _ ih =>
    rcases List.cons_eq_append_iff.1 hnames with ⟨rfl, hnil⟩ | ⟨init, rfl, hrest⟩
    · exact absurd (List.cons.inj hnil).1 (by decide)
    · exact ih hrest
  | link _ hname _ =>
    rcases List.cons_eq_append_iff.1 hnames with ⟨rfl, hnil⟩ | ⟨init, rfl, hrest⟩
    · exact absurd (List.cons.inj hnil).1.symm hname.1
    · refine ⟨nofun, ?_⟩
      rintro d target rest ⟨⟩
      exact ⟨init, hrest⟩
  | down _ hname _ _ _ ih =>
    rcases List.cons_eq_append_iff.1 hnames with ⟨rfl, hnil⟩ | ⟨init, rfl, hrest⟩
    · exact absurd (List.cons.inj hnil).1.symm hname.1
    · exact ih hrest
  | vacant => exact ⟨nofun, nofun⟩

theorem follow_here : ∀ {links : Nat} {names : List Name} {location : Location} {e : Entry},
    t.follow links location (names ++ [Path.here]) = .ok (.found other e) →
      ∃ entries, e = .dir entries
  | links, names, location, e, h => by
    rw [follow.eq_def] at h
    split at h
    · next d target rest hwalk =>
      split at h
      · simp at h
      · obtain ⟨rest', rfl⟩ := ((walks_of_walk hwalk).of_here rfl).2 d target rest rfl
        rw [← List.append_assoc] at h
        exact follow_here h
    · exact ((walks_of_walk h).of_here rfl).1 other e rfl

/-- A file that is found is written where it is found. -/
theorem followToWrite_eq : ∀ {links : Nat} {names : List Name} {location : Location},
    t.follow links location names = .ok (.found other (.file f)) →
      t.followToWrite links location names = .ok (.found other (.file f))
  | links, names, location, h => by
    rw [follow.eq_def] at h
    rw [followToWrite.eq_def]
    rcases hwalk : t.walk location names with e | (⟨d, e⟩ | ⟨d, n⟩ | ⟨d, target, rest⟩)
    all_goals rw [hwalk] at h
    · exact h
    · exact h
    · exact h
    · cases links with
      | zero => exact h
      | succ links =>
        change t.follow links (start d target) (target.steps ++ rest) = _ at h
        by_cases hslash : (rest = [] && target.endsInSlash) = true
        · rw [Bool.and_eq_true, decide_eq_true_eq] at hslash
          rw [hslash.1, List.append_nil, Path.steps, if_pos hslash.2] at h
          obtain ⟨entries, hdir⟩ := follow_here h
          simp at hdir
        · exact (if_neg hslash).trans (followToWrite_eq h)

theorem resolveToWrite_eq (h : t.resolve p = .ok (.found location (.file f))) :
    t.resolveToWrite p = .ok (.found location (.file f)) := by
  obtain ⟨hrefusal, h⟩ := follow_of_resolve h
  rw [resolveToWrite, hrefusal]
  by_cases hslash : p.endsInSlash = true
  · rw [Path.steps, if_pos hslash] at h
    obtain ⟨entries, hdir⟩ := follow_here h
    simp at hdir
  · exact (if_neg hslash).trans (followToWrite_eq h)

/-! ## Saving -/

/-- A path that leads to a file, and where the file is. -/
def HasFile (t : FileTree) (p : Path) (location : Location) (f : File) : Prop :=
  t.resolve p = .ok (.found location (.file f))

/-- A path whose file takes any content. -/
def Accepts (t : FileTree) (p : Path) : Prop :=
  ∀ content, (t.save p content).1 = .ok ()

theorem HasFile.at? (h : t.HasFile p location f) : t.root.at? location = some (.file f) :=
  at?_of_resolve h

theorem HasFile.opened (h : t.HasFile p location f) : t.opened p = .ok (.file f.content) := by
  rw [FileTree.opened, show t.resolve p = .ok (.found location (.file f)) from h]

theorem HasFile.of_shape (h : t.HasFile p location f) (hshape : t'.shape = t.shape)
    (hat : t'.root.at? location = some (.file g)) : t'.HasFile p location g := by
  have hresolve := t'.resolve_shape p
  rw [hshape, t.resolve_shape,
    show t.resolve p = .ok (.found location (.file f)) from h] at hresolve
  rcases hr : t'.resolve p with e | (⟨d, e⟩ | ⟨d, n⟩ | ⟨d, target, rest⟩)
  all_goals rw [hr] at hresolve; simp [Except.map, Arrival.shape] at hresolve
  obtain ⟨rfl, hfile⟩ := hresolve
  cases e with
  | file g' =>
    have hg : t'.HasFile p location g' := hr
    obtain rfl := Entry.file.inj (Option.some.inj (hg.at?.symm.trans hat))
    exact hg
  | _ => simp [Entry.shape] at hfile

/-- A path that leads to a file leads to one there in every tree of the same shape. -/
theorem HasFile.exists_of_shape (h : t.HasFile p location f) (hshape : t'.shape = t.shape) :
    ∃ f', t'.HasFile p location f' ∧ f'.shape = f.shape := by
  have hroot : t'.root.shape = t.root.shape := congrArg FileTree.root hshape
  have hat := Entry.at?_shape location t'.root
  rw [hroot, Entry.at?_shape, h.at?] at hat
  rcases hat' : t'.root.at? location with _ | (f' | target | entries)
  all_goals rw [hat'] at hat; simp [Entry.shape] at hat
  exact ⟨f', h.of_shape hshape hat', hat.symm⟩

/-- Both paths lead to one file, in one place or under two of its names. -/
def SameFile (t : FileTree) (p q : Path) : Prop :=
  ∃ location f other g, t.HasFile p location f ∧ t.HasFile q other g ∧
    (other = location ∨ g.isTwin f = true)

theorem HasFile.unique {location' : Location} {f' : File} (h : t.HasFile p location f)
    (h' : t.HasFile p location' f') : location' = location ∧ f' = f := by
  rw [HasFile] at h h'
  rw [h] at h'
  obtain ⟨hlocation, hfile⟩ := Arrival.found.inj (Except.ok.inj h')
  exact ⟨hlocation.symm, (Entry.file.inj hfile).symm⟩

theorem sameFile_iff (hp : t.HasFile p location f) (hq : t.HasFile q other g) :
    t.SameFile p q ↔ other = location ∨ g.isTwin f = true := by
  constructor
  · rintro ⟨_, _, _, _, hp', hq', hsame⟩
    obtain ⟨rfl, rfl⟩ := hp.unique hp'
    obtain ⟨rfl, rfl⟩ := hq.unique hq'
    exact hsame
  · exact fun hsame => ⟨_, _, _, _, hp, hq, hsame⟩

theorem SameFile.symm (h : t.SameFile p q) : t.SameFile q p := by
  obtain ⟨location, f, other, g, hp, hq, hsame⟩ := h
  exact ⟨other, g, location, f, hq, hp, hsame.imp Eq.symm fun htwin => f.isTwin_comm g ▸ htwin⟩

/-- Which paths lead to one file depends on the shape of the tree. -/
theorem SameFile.of_shape (h : t.SameFile p q) (hshape : t'.shape = t.shape) : t'.SameFile p q := by
  obtain ⟨location, f, other, g, hp, hq, hsame⟩ := h
  obtain ⟨f', hp', hf⟩ := hp.exists_of_shape hshape
  obtain ⟨g', hq', hg⟩ := hq.exists_of_shape hshape
  refine (sameFile_iff hp' hq').2 (hsame.imp_right fun htwin => ?_)
  rw [File.isTwin_of_shape hf, File.isTwin_comm, File.isTwin_of_shape hg, File.isTwin_comm]
  exact htwin

theorem sameFile_of_shape (hshape : t'.shape = t.shape) : t'.SameFile p q ↔ t.SameFile p q :=
  ⟨fun h => h.of_shape hshape.symm, fun h => h.of_shape hshape⟩

/-- A file with one name is put where it belongs, and that is all. -/
theorem store_of_inode (hinode : f.inode = none) (location : Location) :
    t.store location f = t.put location (.file f) := by
  rw [store, put, Entry.share_of_inode hinode]

theorem HasFile.at?_share (h : t.HasFile p location f) (f' : File) :
    (t.root.share f').at? location = some (.file (f.sharing f')) := by
  rw [Entry.at?_share, h.at?]
  rfl

section Store

variable {f' : File} (h : t.HasFile p location f) (hfile : f'.shape = f.shape)

include h hfile

theorem HasFile.shape_store : (t.store location f').shape = t.shape := by
  have hentry : (Entry.file f').shape = (Entry.file (f.sharing f')).shape :=
    congrArg Entry.file (hfile.trans (f.shape_sharing f').symm)
  rw [shape, shape, store, Entry.shape_put hentry (h.at?_share f'), Entry.shape_share]

theorem HasFile.hasFile_store : (t.store location f').HasFile p location f' := by
  refine h.of_shape (h.shape_store hfile) ?_
  exact Entry.at?_put _ (h.at?_share f')

/-- All names of a file get its content. -/
theorem HasFile.hasFile_store_same (hq : t.HasFile q other g) (hsame : t.SameFile p q) :
    (t.store location f').HasFile q other { g with content := f'.content } := by
  refine hq.of_shape (h.shape_store hfile) ?_
  by_cases hplace : other = location
  · subst hplace
    obtain rfl := Entry.file.inj (Option.some.inj (h.at?.symm.trans hq.at?))
    rw [File.eq_of_shape hfile]
    exact Entry.at?_put _ (h.at?_share f')
  · have htwin := ((sameFile_iff h hq).1 hsame).resolve_left hplace
    rw [← File.isTwin_of_shape hfile] at htwin
    rw [← File.sharing_of_twin htwin]
    exact Entry.at?_put_of_ne (h.at?_share f') (hq.at?_share f') hplace

/-- Other files stay. -/
theorem HasFile.hasFile_store_other (hq : t.HasFile q other g) (hne : ¬ t.SameFile p q) :
    (t.store location f').HasFile q other g := by
  refine hq.of_shape (h.shape_store hfile) ?_
  rw [sameFile_iff h hq, not_or, ← File.isTwin_of_shape hfile] at hne
  have hother := hq.at?_share f'
  rw [File.sharing_of_not_twin hne.2] at hother
  exact Entry.at?_put_of_ne (h.at?_share f') hother hne.1

end Store

theorem HasFile.save (h : t.HasFile p location f) (content : ByteArray) :
    t.save p content = if f.writable then
      (match f.writeFault? content with
        | none => .ok ()
        | some fault => .error fault, t.store location (f.write content))
      else (.error (.create .accessDenied), t) := by
  have hwritable : t.writable p =
      if f.writable then .ok (location, f) else .error .accessDenied := by
    simp only [writable, resolveToWrite_eq h]
  rw [FileTree.save, hwritable]
  cases f.writable <;> rfl

theorem HasFile.accepts_iff (h : t.HasFile p location f) :
    t.Accepts p ↔ f.writable = true ∧ f.room = none := by
  constructor
  · intro haccepts
    have hwritable : f.writable = true := by
      rw [← Bool.not_eq_false]
      intro hw
      have hempty := haccepts .empty
      rw [h.save, hw] at hempty
      simp at hempty
    refine ⟨hwritable, ?_⟩
    rcases hroom : f.room with _ | room
    · rfl
    · have hfull := haccepts ⟨Array.replicate (room + 1) 0⟩
      rw [h.save, if_pos hwritable, File.writeFault?, hroom] at hfull
      have hsize : ¬ (ByteArray.mk (Array.replicate (room + 1) 0)).size ≤ room := by
        simp [ByteArray.size]
      simp only [if_neg hsize] at hfull
      split_ifs at hfull
  · rintro ⟨hw, hroom⟩ content
    rw [h.save, if_pos hw, File.writeFault?, hroom]

/-- A file that takes some content gets it, under all its names. -/
theorem HasFile.save_eq (h : t.HasFile p location f) {content : ByteArray}
    (hsave : (t.save p content).1 = .ok ()) :
    t.save p content = (.ok (), t.store location { f with content }) := by
  rw [h.save] at hsave ⊢
  by_cases hw : f.writable = true
  · rw [if_pos hw] at hsave ⊢
    rcases hfault : f.writeFault? content with _ | fault
    · rw [f.write_eq hfault]
    · simp [hfault] at hsave
  · simp [hw] at hsave

section Save

variable {content : ByteArray} (h : t.HasFile p location f)
  (hsave : (t.save p content).1 = .ok ())

include h hsave

theorem HasFile.shape_save : (t.save p content).2.shape = t.shape := by
  rw [h.save_eq hsave]
  exact h.shape_store rfl

theorem HasFile.hasFile_save : (t.save p content).2.HasFile p location { f with content } := by
  rw [h.save_eq hsave]
  exact h.hasFile_store rfl

theorem HasFile.hasFile_save_same (hq : t.HasFile q other g) (hsame : t.SameFile p q) :
    (t.save p content).2.HasFile q other { g with content } := by
  rw [h.save_eq hsave]
  exact h.hasFile_store_same rfl hq hsame

theorem HasFile.hasFile_save_other (hq : t.HasFile q other g) (hne : ¬ t.SameFile p q) :
    (t.save p content).2.HasFile q other g := by
  rw [h.save_eq hsave]
  exact h.hasFile_store_other rfl hq hne

end Save

end FileTree

end ModelIR
