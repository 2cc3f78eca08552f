import ModelIR.Proofs.GenerationRun
import ModelIR.Proofs.ReopenedFiles

/-!
# Names of one file

A tree is coherent if all names of a file stand for the same file. What is stored under one name is
stored under all (`Coherent.store`), and a file that is made has one name. So a tree stays coherent
when files are saved, and behind every generation (`Coherent.runOn`).
-/

namespace ModelIR

namespace File

theorem isTwin_sharing (f g h : File) : (f.sharing g).isTwin h = f.isTwin h := by
  have hinode : (f.sharing g).inode = f.inode := by
    rw [sharing]
    split_ifs <;> rfl
  rw [isTwin, isTwin, hinode]

theorem shape_write (f : File) (content : ByteArray) : (f.write content).shape = f.shape := by
  rw [write]
  split <;> rfl

end File

namespace Entry

mutual

/-- What stands for files in an entry. -/
def files : Entry → List File
  | file f => [f]
  | link _ => []
  | dir entries => filesIn entries

/-- What stands for files in some entries. -/
def filesIn : List (Name × Entry) → List File
  | [] => []
  | (_, e) :: entries => e.files ++ filesIn entries

end

variable {f g : File} {name : Name} {e : Entry}

theorem mem_filesIn_of_lookup : ∀ {entries : List (Name × Entry)},
    entries.lookup name = some e → g ∈ e.files → g ∈ filesIn entries
  | [], h, _ => by simp at h
  | (other, d) :: entries, h, hg => by
    rw [filesIn, List.mem_append]
    rw [List.lookup_cons] at h
    split at h
    · obtain rfl := Option.some.inj h
      exact .inl hg
    · exact .inr (mem_filesIn_of_lookup h hg)

theorem mem_files_of_at? : ∀ {location : Location} {e : Entry},
    e.at? location = some (file f) → f ∈ e.files
  | [], e, h => by
    obtain rfl := Option.some.inj h
    exact List.mem_cons_self
  | _ :: _, file _, h => by simp [at?] at h
  | _ :: _, link _, h => by simp [at?] at h
  | _ :: _, dir _, h => by
    obtain ⟨e, hlookup, h⟩ := exists_lookup_of_at? h
    exact mem_filesIn_of_lookup hlookup (mem_files_of_at? h)

theorem mem_filesIn_setName : ∀ {entries : List (Name × Entry)},
    g ∈ filesIn (setName name e entries) → g ∈ e.files ∨ g ∈ filesIn entries
  | [], h => by
    rw [setName, filesIn, List.mem_append] at h
    exact h
  | p :: entries, h => by
    rw [setName] at h
    rw [filesIn, List.mem_append]
    split_ifs at h
    · rw [filesIn, List.mem_append] at h
      exact h.imp_right .inr
    · rw [filesIn, List.mem_append] at h
      rcases h with h | h
      · exact .inr (.inl h)
      · exact (mem_filesIn_setName h).imp_right .inr

/-- Behind a file that is put somewhere, there is this file and what was there before. -/
theorem mem_files_put : ∀ {location : Location} {e : Entry},
    g ∈ (put (file f) location e).files → g = f ∨ g ∈ e.files
  | [], _, h => .inl (List.mem_singleton.1 h)
  | _ :: _, file _, h => .inr h
  | _ :: _, link _, h => .inr h
  | name :: rest, dir entries, h => by
    rw [put] at h
    split at h
    · next e hlookup =>
      rcases mem_filesIn_setName h with h | h
      · exact (mem_files_put h).imp_right (mem_filesIn_of_lookup hlookup)
      · exact .inr h
    · split_ifs at h
      · exact (mem_filesIn_setName h).imp_left List.mem_singleton.1
      · exact .inr h

mutual

theorem files_share (f : File) : ∀ e : Entry, (e.share f).files = e.files.map (·.sharing f)
  | file _ => rfl
  | link _ => rfl
  | dir entries => filesIn_shareAll f entries

theorem filesIn_shareAll (f : File) : ∀ entries : List (Name × Entry),
    filesIn (shareAll f entries) = (filesIn entries).map (·.sharing f)
  | [] => rfl
  | (_, e) :: entries => by
    rw [shareAll, filesIn, filesIn, List.map_append, files_share f e, filesIn_shareAll f entries]

end

end Entry

namespace FileTree

variable {t : FileTree} {location : Location} {f f' : File}

/-- All names of a file stand for the same file. -/
def Coherent (t : FileTree) : Prop :=
  ∀ f ∈ t.root.files, ∀ g ∈ t.root.files, g.isTwin f = true → g = f

/-- A file that is made has one name. -/
theorem Coherent.put (h : t.Coherent) (hinode : f.inode = none) (location : Location) :
    (t.put location (.file f)).Coherent := by
  have hsingle : ∀ g : File, ¬ g.isTwin f = true := by
    intro g htwin
    rw [File.isTwin_comm, File.isTwin, hinode] at htwin
    exact Bool.false_ne_true htwin
  intro f₁ h₁ f₂ h₂ htwin
  obtain rfl | hold₁ := Entry.mem_files_put h₁
  · exact absurd htwin (hsingle f₂)
  · obtain rfl | hold₂ := Entry.mem_files_put h₂
    · exact absurd (f₁.isTwin_comm f₂ ▸ htwin) (hsingle f₁)
    · exact h f₁ hold₁ f₂ hold₂ htwin

/-- A file that gets content has it under all its names. -/
theorem Coherent.store (h : t.Coherent) (hat : t.root.at? location = some (.file f))
    (hshape : f'.shape = f.shape) : (t.store location f').Coherent := by
  have hf := Entry.mem_files_of_at? hat
  have hshared : ∀ g ∈ t.root.files, g.isTwin f' = true → g.sharing f' = f' := by
    intro g hg htwin
    obtain rfl := h f hf g hg (File.isTwin_of_shape hshape g ▸ htwin)
    rw [File.sharing_of_twin htwin, File.eq_of_shape hshape]
  have hnew : ∀ g ∈ (t.store location f').root.files,
      g = f' ∨ ∃ old ∈ t.root.files, old.sharing f' = g := by
    intro g hg
    refine (Entry.mem_files_put hg).imp_right fun hg => ?_
    rwa [Entry.files_share, List.mem_map] at hg
  intro f₁ h₁ f₂ h₂ htwin
  obtain rfl | ⟨old₁, hold₁, rfl⟩ := hnew f₁ h₁ <;>
    obtain rfl | ⟨old₂, hold₂, rfl⟩ := hnew f₂ h₂
  · rfl
  · exact hshared old₂ hold₂ (by rwa [File.isTwin_sharing] at htwin)
  · rw [File.isTwin_comm, File.isTwin_sharing] at htwin
    exact (hshared old₁ hold₁ htwin).symm
  · rw [File.isTwin_sharing, File.isTwin_comm, File.isTwin_sharing, File.isTwin_comm] at htwin
    rw [h old₁ hold₁ old₂ hold₂ htwin]

theorem Coherent.save (h : t.Coherent) (p : Path) (content : ByteArray) :
    (t.save p content).2.Coherent := by
  rw [FileTree.save]
  rcases hwritable : t.writable p with e | ⟨location, f⟩
  · exact h
  · simp only
    rw [writable] at hwritable
    split at hwritable
    · next location' f' hresolve =>
      split_ifs at hwritable
      obtain ⟨rfl, rfl⟩ := Prod.mk.inj (Except.ok.inj hwritable)
      have hfile : t.HasFile p location' f' := resolve_of_resolveToWrite hresolve
      exact h.store hfile.at? (f'.shape_write content)
    · cases hwritable
    · obtain ⟨rfl, rfl⟩ := Prod.mk.inj (Except.ok.inj hwritable)
      have hinode : (File.write {} content).inode = none := rfl
      rw [store_of_inode hinode]
      exact h.put hinode _
    · cases hwritable
    · cases hwritable

theorem Coherent.saveDocument (h : t.Coherent) (d : Document) : (t.saveDocument d).2.Coherent :=
  h.save d.path d.bytes

/-- A generation leaves a coherent tree, whatever it comes to. -/
theorem Coherent.runOn (h : t.Coherent) (job : Job) (w : WordSource) :
    (job.runOn w t).2.Coherent := by
  rw [Job.runOn_eq]
  rcases t.document job.testConf .tests with e | tests
  · exact h
  rcases t.document job.refsConf .references with e | references
  · exact h
  rcases t.scan job.filter job.irCacheDir with e | scan
  · exact h
  simp only
  have h₁ := h.saveDocument ((Manifests.addModels { tests, references } scan.models).run w).1.tests
  rcases hsave : t.saveDocument _ with ⟨e | u, t₁⟩ <;> rw [hsave] at h₁
  · exact h₁
  simp only
  have h₂ := Coherent.saveDocument h₁
    ((Manifests.addModels { tests, references } scan.models).run w).1.references
  rcases hsave' : t₁.saveDocument _ with ⟨e | u, t₂⟩ <;> rw [hsave'] at h₂ <;> exact h₂

end FileTree

end ModelIR
