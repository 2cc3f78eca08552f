import ModelIR.Proofs.SavedFiles

/-!
# Opening what was saved

Whatever is saved is what is read when the path is opened again (`FileTree.opened_save`), whether a
file was there or not. A file that is made leaves all else in its place, so each way through the
tree goes on as before, and the one that found no file finds it now (`FileTree.Makes.follow_eq`).
-/

namespace ModelIR

namespace Entry

variable {e d new : Entry} {entries : List (Name × Entry)} {name : Name} {way location : Location}

theorem at?_append (way way' : Location) (e : Entry) :
    e.at? (way ++ way') = (e.at? way).bind (·.at? way') := by
  induction way generalizing e with
  | nil => rfl
  | cons name way ih =>
    cases e with
    | dir entries =>
      rw [List.cons_append, at?, at?]
      rcases entries.lookup name with _ | d
      · rfl
      · exact ih d
    | _ => rfl

theorem at?_singleton (entries : List (Name × Entry)) (name : Name) :
    (dir entries).at? [name] = entries.lookup name := by
  rw [at?]
  rcases entries.lookup name with _ | d <;> rfl

theorem lookup_eq_at? (h : e.at? way = some (dir entries)) (name : Name) :
    entries.lookup name = e.at? (way ++ [name]) := by
  rw [at?_append, h, Option.bind_some, at?_singleton]

/-- What becomes of an entry when files are made: a directory may have more entries, all else stays.
-/
inductive Grows : Entry → Entry → Prop
  | file (f : File) : Grows (file f) (file f)
  | link (target : Path) : Grows (link target) (link target)
  | dir (entries entries' : List (Name × Entry)) : Grows (dir entries) (dir entries')

theorem Grows.refl (e : Entry) : e.Grows e := by
  cases e with
  | file f => exact .file f
  | link target => exact .link target
  | dir entries => exact .dir entries entries

theorem at?_put_new : ∀ {way : Location} {e : Entry}, e.at? way = some (dir entries) →
    (put new (way ++ [name]) e).at? (way ++ [name]) = some new
  | [], e, h => by
    obtain rfl := Option.some.inj h
    rw [List.nil_append, put]
    rcases entries.lookup name with _ | d
    · rw [if_pos rfl, at?_singleton, lookup_setName]
    · simp only
      rw [at?_singleton, lookup_setName, put]
  | _ :: _, file _, h => by simp [at?] at h
  | _ :: _, link _, h => by simp [at?] at h
  | first :: way, dir entries', h => by
    rw [at?] at h
    rcases hlookup : entries'.lookup first with _ | d
    · simp [hlookup] at h
    · simp only [hlookup] at h
      simp only [List.cons_append, put, hlookup, at?, lookup_setName]
      exact at?_put_new h

theorem grows_put : ∀ {place : Location} {e : Entry}, e.at? place = none → e.Grows (put new place e)
  | [], _, hnone => by simp [at?] at hnone
  | _ :: _, file f, _ => .file f
  | _ :: _, link target, _ => .link target
  | name :: rest, dir entries, _ => by
    rw [put]
    split
    · exact .dir _ _
    · split_ifs <;> exact .dir _ _

/-- What is found in an entry is found when something is put where nothing was. -/
theorem at?_put_of_vacant : ∀ {place location : Location} {e d : Entry}, e.at? place = none →
    e.at? location = some d → ∃ d', (put new place e).at? location = some d' ∧ d.Grows d'
  | _, [], e, d, hnone, h => by
    obtain rfl := Option.some.inj h
    exact ⟨_, rfl, grows_put hnone⟩
  | _, _ :: _, file _, _, _, h => by simp [at?] at h
  | _, _ :: _, link _, _, _, h => by simp [at?] at h
  | [], _ :: _, dir _, _, hnone, _ => by simp [at?] at hnone
  | name :: rest, first :: location, dir entries, d, hnone, h => by
    obtain ⟨x, hx, hat⟩ := exists_lookup_of_at? h
    rw [at?] at hnone
    rcases hlookup : entries.lookup name with _ | e
    · have hne : first ≠ name := by
        rintro rfl
        simp [hx] at hlookup
      simp only [put, hlookup]
      split_ifs
      · exact ⟨d, by rw [at?, lookup_setName_of_ne hne, hx]; exact hat, .refl d⟩
      · exact ⟨d, by rw [at?, hx]; exact hat, .refl d⟩
    · simp only [hlookup] at hnone
      simp only [put, hlookup]
      by_cases hname : first = name
      · subst hname
        obtain rfl : x = e := Option.some.inj (hx.symm.trans hlookup)
        rw [at?, lookup_setName]
        exact at?_put_of_vacant hnone hat
      · exact ⟨d, by rw [at?, lookup_setName_of_ne hname, hx]; exact hat, .refl d⟩

end Entry

namespace FileTree

variable {t t' : FileTree} {p : Path} {directory location : Location} {name : Name} {f : File}

/-! ## Where nothing is found -/

theorem Walks.exists_vacant {names : List Name} {a : Arrival} (h : t.Walks location names a)
    (ha : a = .vacant directory name) :
    ∃ entries, t.root.at? directory = some (.dir entries) ∧ entries.lookup name = none := by
  induction h with
  | here _ _ ih | up _ _ ih | down _ _ _ _ _ ih => exact ih ha
  | vacant hat _ hlookup =>
    obtain ⟨rfl, rfl⟩ := Arrival.vacant.inj ha
    exact ⟨_, hat, hlookup⟩
  | found | link => simp at ha

theorem follow_vacant {links : Nat} {names : List Name}
    (h : t.follow links location names = .ok (.vacant directory name)) :
    ∃ entries, t.root.at? directory = some (.dir entries) ∧ entries.lookup name = none := by
  obtain ⟨last, rest, hwalk⟩ := exists_walk_of_follow h
  exact (walks_of_walk hwalk).exists_vacant rfl

/-- A tree in which a file is made where there was nothing. -/
structure Makes (t t' : FileTree) (directory : Location) (name : Name) (f : File) : Prop where
  grows : ∀ location e, t.root.at? location = some e →
    ∃ e', t'.root.at? location = some e' ∧ e.Grows e'
  new : t'.root.at? (directory ++ [name]) = some (.file f)

theorem makes_put {entries : List (Name × Entry)} (hat : t.root.at? directory = some (.dir entries))
    (hlookup : entries.lookup name = none) (f : File) :
    t.Makes (t.put (directory ++ [name]) (.file f)) directory name f where
  grows _ _ h := Entry.at?_put_of_vacant (by rw [← Entry.lookup_eq_at? hat, hlookup]) h
  new := Entry.at?_put_new hat

section Makes

variable (h : t.Makes t' directory name f)
include h

theorem Makes.dir {entries : List (Name × Entry)}
    (hat : t.root.at? location = some (.dir entries)) :
    ∃ entries', t'.root.at? location = some (.dir entries') ∧
      ∀ n e, entries.lookup n = some e → ∃ e', entries'.lookup n = some e' ∧ e.Grows e' := by
  obtain ⟨e', hat', hgrows⟩ := h.grows location _ hat
  cases hgrows with
  | dir entries entries' =>
    refine ⟨entries', hat', fun n e hlookup => ?_⟩
    rw [Entry.lookup_eq_at? hat] at hlookup
    rw [Entry.lookup_eq_at? hat']
    exact h.grows _ e hlookup

/-- A way that leads on to a link, or to where the file is made, leads to the same link, or to the
file: it ended before the new file, and goes one step further. -/
theorem Makes.walks {names : List Name} {a : Arrival} (hwalks : t.Walks location names a) :
    (∀ d target rest, a = .link d target rest → t'.Walks location names a) ∧
      (a = .vacant directory name →
        t'.Walks location names (.found (directory ++ [name]) (.file f))) := by
  induction hwalks with
  | found => exact ⟨nofun, nofun⟩
  | here hat _ ih =>
    obtain ⟨entries', hat', -⟩ := h.dir hat
    exact ⟨fun d target rest ha => .here hat' (ih.1 d target rest ha),
      fun ha => .here hat' (ih.2 ha)⟩
  | up hat _ ih =>
    obtain ⟨entries', hat', -⟩ := h.dir hat
    exact ⟨fun d target rest ha => .up hat' (ih.1 d target rest ha), fun ha => .up hat' (ih.2 ha)⟩
  | link hat hname hlookup =>
    obtain ⟨entries', hat', hentries⟩ := h.dir hat
    obtain ⟨e', hlookup', hgrows⟩ := hentries _ _ hlookup
    cases hgrows
    exact ⟨fun _ _ _ _ => .link hat' hname hlookup', nofun⟩
  | down hat hname hlookup hlink _ ih =>
    obtain ⟨entries', hat', hentries⟩ := h.dir hat
    obtain ⟨e', hlookup', hgrows⟩ := hentries _ _ hlookup
    have hlink' : ∀ target, e' ≠ .link target := by
      rintro target rfl
      cases hgrows
      exact hlink target rfl
    exact ⟨fun d target rest ha => .down hat' hname hlookup' hlink' (ih.1 d target rest ha),
      fun ha => .down hat' hname hlookup' hlink' (ih.2 ha)⟩
  | vacant hat hname hlookup =>
    refine ⟨nofun, fun ha => ?_⟩
    obtain ⟨rfl, rfl⟩ := Arrival.vacant.inj ha
    obtain ⟨entries', hat', -⟩ := h.dir hat
    have hlookup' := (Entry.lookup_eq_at? hat' _).trans h.new
    exact .down hat' hname hlookup' nofun (.found h.new)

/-- A path that led to nothing leads to the file that is made there. -/
theorem Makes.follow_eq : ∀ {links : Nat} {names : List Name} {location : Location},
    t.follow links location names = .ok (.vacant directory name) →
      t'.follow links location names = .ok (.found (directory ++ [name]) (.file f))
  | links, names, location, hvacant => by
    rw [follow.eq_def] at hvacant
    rw [follow.eq_def]
    rcases hwalk : t.walk location names with e | (⟨d, e⟩ | ⟨d, n⟩ | ⟨d, target, rest⟩)
    all_goals rw [hwalk] at hvacant
    · simp at hvacant
    · simp at hvacant
    · rw [((h.walks (walks_of_walk hwalk)).2 (Except.ok.inj hvacant)).walk_eq]
    · rw [((h.walks (walks_of_walk hwalk)).1 d target rest rfl).walk_eq]
      cases links with
      | zero => simp at hvacant
      | succ links => exact follow_eq hvacant

end Makes

/-! ## Where something is written -/

theorem refuseSlash_ne_ok {links : Nat} {a : Arrival} : t.refuseSlash links location p ≠ .ok a := by
  rw [refuseSlash]
  split <;> nofun

/-- What is written is where the names lead to. -/
theorem follow_of_followToWrite :
    ∀ {links : Nat} {names : List Name} {location : Location} {a : Arrival},
    t.followToWrite links location names = .ok a → t.follow links location names = .ok a
  | links, names, location, a, h => by
    rw [followToWrite.eq_def] at h
    rw [follow.eq_def]
    rcases hwalk : t.walk location names with e | (⟨d, e⟩ | ⟨d, n⟩ | ⟨d, target, rest⟩)
    all_goals rw [hwalk] at h
    · exact h
    · exact h
    · exact h
    · cases links with
      | zero => exact h
      | succ links =>
        simp only at h
        split_ifs at h
        · exact absurd h refuseSlash_ne_ok
        · exact follow_of_followToWrite h

theorem resolve_of_resolveToWrite {a : Arrival} (h : t.resolveToWrite p = .ok a) :
    t.resolve p = .ok a := by
  rw [resolveToWrite] at h
  rw [resolve, resolveNames]
  rcases hrefusal : p.refusal? with _ | e
  · simp only [hrefusal] at h ⊢
    split_ifs at h
    · exact absurd h refuseSlash_ne_ok
    · exact follow_of_followToWrite h
  · simp [hrefusal] at h

/-- A path that leads to nothing leads to the file that is saved there. -/
theorem opened_save_vacant (h : t.resolve p = .ok (.vacant directory name)) (f : File) :
    (t.put (directory ++ [name]) (.file f)).opened p = .ok (.file f.content) := by
  obtain ⟨hrefusal, h⟩ := follow_of_resolve h
  obtain ⟨entries, hat, hlookup⟩ := follow_vacant h
  have hfollow := (makes_put hat hlookup f).follow_eq h
  have hstart : start (t.put (directory ++ [name]) (.file f)).workplace p = start t.workplace p :=
    rfl
  simp only [opened, resolve, resolveNames, hrefusal, hstart, hfollow]

/-- What is saved is read when it is opened again. -/
theorem opened_save {content : ByteArray} (hsave : (t.save p content).1 = .ok ()) :
    (t.save p content).2.opened p = .ok (.file content) := by
  have hwritable := hsave
  rw [FileTree.save, writable] at hwritable
  rcases hresolve : t.resolveToWrite p
    with e | (⟨d, f | target | entries⟩ | ⟨d, n⟩ | ⟨d, target, rest⟩)
  all_goals simp [hresolve] at hwritable
  · have hfile : t.HasFile p d f := resolve_of_resolveToWrite hresolve
    rw [(hfile.hasFile_save hsave).opened]
  · have htree : (t.save p content).2 = t.put (d ++ [n]) (.file { content }) := by
      rw [FileTree.save, writable, hresolve]
      exact store_of_inode rfl _
    rw [htree, opened_save_vacant (resolve_of_resolveToWrite hresolve)]

end FileTree

end ModelIR
