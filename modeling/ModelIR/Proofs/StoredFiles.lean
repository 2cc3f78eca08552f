import ModelIR.Proofs.FileViews
import ModelIR.Proofs.SavedFiles

/-!
# Stored files

Saving may fail at any point. If the file cannot be made, nothing changes; if its content does not
get to the end, a first part of it is there (`FilesView.Saved`). In a tree of files the fault
depends on the file, and every path that leads to another file opens as before
(`FileTree.stores_files`).
-/

namespace ModelIR

namespace FilesView

/-- A path opens as content, and any other path as before or, where it leads to the same file, as
this content. -/
structure Rewritten (v : FilesView) (p : Path) (content : ByteArray) (v' : FilesView) : Prop where
  opened : v'.opened p = .ok (.file content)
  others : ∀ q, v'.opened q = v.opened q ∨ v'.opened q = .ok (.file content)

/-- What saving comes to, and what there is to see of the files then. -/
inductive Saved (v : FilesView) (p : Path) (content : ByteArray) :
    Except SaveFault Unit → FilesView → Prop
  | refused (e : FileError) : Saved v p content (.error (.create e)) v
  | cut {fault : SaveFault} {n : Nat} {v' : FilesView} (hfault : ∀ e, fault ≠ .create e)
    (h : v.Rewritten p (content.extract 0 n) v') : Saved v p content (.error fault) v'
  | done {v' : FilesView} (h : v.Rewritten p content v') : Saved v p content (.ok ()) v'

end FilesView

/-- Where a path opens as a file, content can be saved, unless there is a fault; when there is one
may depend on the state. -/
def Files.Stores {σ : Type} (files : Files (StateM σ)) (view : σ → FilesView) : Prop :=
  ∀ p content s bytes, (view s).opened p = .ok (.file bytes) →
    (view s).Saved p content ((files.saved p content).run s).1
      (view ((files.saved p content).run s).2)

namespace FileTree

variable {t t' : FileTree} {p q : Path} {location : Location} {f g : File}

theorem hasFile_of_opened {bytes : ByteArray} (h : t.opened p = .ok (.file bytes)) :
    ∃ location f, t.HasFile p location f ∧ f.content = bytes := by
  rw [opened] at h
  split at h
  · next location f hresolve =>
    exact ⟨location, f, hresolve, Opened.file.inj (Except.ok.inj h)⟩
  all_goals simp at h

/-- What does not open as a file opens the same in a tree of the same shape. -/
theorem opened_of_shape (hshape : t'.shape = t.shape) (h : ∀ location f, ¬ t.HasFile q location f) :
    t'.opened q = t.opened q := by
  have hresolve := t'.resolve_shape q
  rw [hshape, t.resolve_shape] at hresolve
  rw [opened, opened]
  rcases hr : t.resolve q with e | (⟨d, e⟩ | ⟨d, n⟩ | ⟨d, target, rest⟩) <;>
    rcases hr' : t'.resolve q with e' | (⟨d', e'⟩ | ⟨d', n'⟩ | ⟨d', target', rest'⟩) <;>
    rw [hr, hr'] at hresolve <;> simp only [Except.map, Arrival.shape] at hresolve
  case error.error => rw [Except.error.inj hresolve]
  case ok.found.ok.found =>
    obtain ⟨rfl, he⟩ := Arrival.found.inj (Except.ok.inj hresolve)
    cases e with
    | file f => exact absurd hr (h d f)
    | link | dir => cases e' <;> simp_all [Entry.shape]
  all_goals simp at hresolve

theorem HasFile.rewritten (h : t.HasFile p location f) (hshape : g.shape = f.shape) :
    t.view.Rewritten p g.content (t.store location g).view := by
  refine ⟨(h.hasFile_store hshape).opened, fun q => ?_⟩
  by_cases hq : ∃ other f', t.HasFile q other f'
  · obtain ⟨other, f', hq⟩ := hq
    by_cases hsame : t.SameFile p q
    · exact .inr (h.hasFile_store_same hshape hq hsame).opened
    · exact .inl ((h.hasFile_store_other hshape hq hsame).opened.trans hq.opened.symm)
  · exact .inl (opened_of_shape (h.shape_store hshape) fun other f' hfile => hq ⟨other, f', hfile⟩)

theorem HasFile.saved (h : t.HasFile p location f) (content : ByteArray) :
    t.view.Saved p content (t.save p content).1 (t.save p content).2.view := by
  rw [h.save]
  by_cases hw : f.writable = true
  · rw [if_pos hw]
    rcases hfault : f.writeFault? content with _ | fault
    · rw [f.write_eq hfault]
      exact .done (h.rewritten (g := { f with content }) rfl)
    · rw [File.writeFault?] at hfault
      rcases hroom : f.room with _ | room <;> rw [hroom] at hfault
      · simp at hfault
      have hwrite : f.write content = { f with content := content.extract 0 room } := by
        rw [File.write, hroom]
      rw [hwrite]
      refine .cut (n := room) ?_
        (h.rewritten (g := { f with content := content.extract 0 room }) rfl)
      simp only at hfault
      split_ifs at hfault <;> (obtain rfl := Option.some.inj hfault; simp)
  · rw [if_neg hw]
    exact .refused _

theorem stores_files : FileTree.files.Stores FileTree.view := by
  intro p content t bytes h
  obtain ⟨location, f, hfile, -⟩ := hasFile_of_opened h
  exact hfile.saved content

end FileTree

end ModelIR
