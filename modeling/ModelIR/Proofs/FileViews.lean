import ModelIR.Cache.Scan
import ModelIR.Files.Store
import ModelIR.Manifest.Document

/-!
# Looking at files

Loading a document and scanning a directory only look at files. What they come to is told by what
there is to see of the files (`Files.Shows.run_load`, `Files.Shows.run_scan`), and the files stay as
they are.
-/

namespace ModelIR

/-- What there is to see of files. -/
structure FilesView where
  opened : Path → Except FileError Opened
  present : Path → Bool
  visits : Path → List Visit

/-- The state tells what there is to see of the files, and looking at them does not change it. -/
structure Files.Shows {σ : Type} (files : Files (StateM σ)) (view : σ → FilesView) : Prop where
  opened : ∀ p s, (files.opened p).run s = ((view s).opened p, s)
  present : ∀ p s, (files.present p).run s = ((view s).present p, s)
  visits : ∀ p s, (files.visits p).run s = ((view s).visits p, s)

/-- What there is to see of a tree of files. -/
def FileTree.view (t : FileTree) : FilesView where
  opened := t.opened
  present := t.present
  visits := t.visits

theorem FileTree.shows_files : FileTree.files.Shows FileTree.view :=
  ⟨fun _ _ => rfl, fun _ _ => rfl, fun _ _ => rfl⟩

/-- What a scan of files comes to, by what there is to see of them. -/
def Scan.ofView (view : FilesView) (f : Filter) (dir : Path) : Except ScanError Scan :=
  if view.present dir then ofVisits f (view.visits dir) else .error (.missing dir)

section Shows

variable {σ : Type} {files : Files (StateM σ)} {view : σ → FilesView}

theorem Files.Shows.run_load (h : files.Shows view) (p : Path) (kind : DocumentKind) (s : σ) :
    (Document.load files p kind).run s = (Document.ofOpened p kind ((view s).opened p), s) := by
  rw [Document.load, StateT.run_bind, h.opened]
  rfl

theorem Files.Shows.run_scan (h : files.Shows view) (f : Filter) (dir : Path) (s : σ) :
    (Scan.run files f dir).run s = (Scan.ofView (view s) f dir, s) := by
  rw [Scan.run, StateT.run_bind, h.present, Scan.ofView]
  cases hpresent : (view s).present dir
  · rfl
  · change (do return Scan.ofVisits f (← files.visits dir) : StateM σ _).run s = _
    rw [StateT.run_bind, h.visits]
    rfl

theorem Files.Shows.run_mapError_scan (h : files.Shows view) (f : Filter) (dir : Path) (s : σ) :
    (do return (← Scan.run files f dir).mapError ManifestError.scan : StateM σ _).run s =
      ((Scan.ofView (view s) f dir).mapError .scan, s) := by
  rw [StateT.run_bind, h.run_scan]
  rfl

end Shows

end ModelIR
