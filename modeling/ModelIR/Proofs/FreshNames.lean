import Mathlib.Data.List.Nodup
import Mathlib.Data.List.Perm.Subperm
import ModelIR.Graph.Basic

/-!
# Fresh names

`uniqueName` gives a name that no node has (`isFree_uniqueName`): with a number behind it a base
makes one more name than there are entries in the index. A name is never shorter than
its base (`length_le_uniqueName`), so names that are derived from each other differ.
-/

namespace ModelIR.Graph

variable {g : Graph}

theorem isFree_eq_false_iff {name : String} :
    g.isFree name = false ↔ name ∈ g.names.map Prod.fst := by
  rw [isFree, find?, Option.isNone_eq_false_iff, List.lookup_isSome_iff]
  simp

theorem numbered_injective (base : String) : Function.Injective (numbered base) := by
  intro m n h
  have h' := congrArg String.toList h
  simp only [numbered, toString, String.toList_append, List.append_assoc] at h'
  have e := List.append_cancel_left (List.append_cancel_left h')
  have := congrArg (fun digits => Nat.ofDigitChars 10 digits 0) e
  simpa using this

theorem length_lt_numbered (base : String) (n : Nat) : base.length < (numbered base n).length := by
  simp only [numbered, toString, String.length_append]
  have : "_".length = 1 := rfl
  omega

/-- Of a base and as many numbered names as the index has entries, one is free. -/
theorem exists_isFree_numbered {base : String} (taken : g.isFree base = false) :
    ∃ n < g.names.length, g.isFree (numbered base n) := by
  by_contra! h
  set tried := base :: (List.range g.names.length).map (numbered base) with htried
  have hsub : tried ⊆ g.names.map Prod.fst := by
    intro name hname
    rcases List.mem_cons.1 hname with rfl | hname
    · exact isFree_eq_false_iff.1 taken
    · obtain ⟨n, hn, rfl⟩ := List.mem_map.1 hname
      exact isFree_eq_false_iff.1 (by simpa using h n (List.mem_range.1 hn))
  have hnodup : tried.Nodup := by
    refine List.nodup_cons.2 ⟨?_, List.nodup_range.map (numbered_injective base)⟩
    intro hbase
    obtain ⟨n, -, hn⟩ := List.mem_map.1 hbase
    have := length_lt_numbered base n
    rw [hn] at this
    omega
  have := (hnodup.subperm hsub).length_le
  simp only [htried, List.length_cons, List.length_map, List.length_range] at this
  omega

theorem isFree_uniqueName (g : Graph) (base : String) : g.isFree (g.uniqueName base) := by
  unfold uniqueName
  split_ifs with hbase
  · exact hbase
  obtain ⟨n, hn, hfree⟩ := exists_isFree_numbered (by simpa using hbase)
  have hsome : (((List.range g.names.length).map (numbered base)).find? g.isFree).isSome := by
    rw [List.find?_isSome]
    exact ⟨_, List.mem_map.2 ⟨n, List.mem_range.2 hn, rfl⟩, hfree⟩
  obtain ⟨name, hname⟩ := Option.isSome_iff_exists.1 hsome
  rw [hname]
  exact List.find?_some hname

theorem uniqueName_eq_or (g : Graph) (base : String) :
    g.uniqueName base = base ∨ ∃ n, g.uniqueName base = numbered base n := by
  unfold uniqueName
  split_ifs with hbase
  · exact .inl rfl
  rcases hfind : ((List.range g.names.length).map (numbered base)).find? g.isFree with _ | name
  · exact .inl rfl
  · obtain ⟨n, -, rfl⟩ := List.mem_map.1 (List.mem_of_find?_eq_some hfind)
    exact .inr ⟨n, rfl⟩

theorem length_le_uniqueName (g : Graph) (base : String) :
    base.length ≤ (g.uniqueName base).length := by
  rcases uniqueName_eq_or g base with h | ⟨n, h⟩
  · exact Nat.le_of_eq (congrArg String.length h.symm)
  · rw [h]
    exact Nat.le_of_lt (length_lt_numbered base n)

end ModelIR.Graph
