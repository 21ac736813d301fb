import ClientRegistry.FileTree.Writing
import ClientRegistry.Proofs.FileTree.Walk
import ClientRegistry.Proofs.Path.Names

/-!
# What edits leave

An edit that removes leaves a part of the tree. An edit that makes something makes it where nothing
was, in a directory and under a name, so that all else stays and no place gets a name that no
path could lead through.
-/

set_option autoImplicit false

namespace ClientRegistry.FileTree

variable {s t u : FileTree} {dir loc : Location} {p : Path}

def WellNamed (t : FileTree) : Prop := ∀ loc node, t.node? loc = some node → ∀ name ∈ loc, IsName name

theorem wellNamed_empty : empty.WellNamed := by
  intro loc node hNode
  by_cases hRoot : loc = []
  · simp [hRoot]
  · simp [node?, hRoot, empty] at hNode

theorem Within.wellNamed (h : s.Within t) (hNames : t.WellNamed) : s.WellNamed :=
  fun loc node hNode => hNames loc node (h loc node hNode)

theorem WellNamed.put (h : t.WellNamed) (hLoc : ∀ name ∈ loc, IsName name) (node : Node) :
    (t.put loc node).WellNamed := by
  intro other found hFound
  by_cases hRoot : other = []
  · simp [hRoot]
  rw [node?_put t loc other node hRoot] at hFound
  split at hFound
  · rename_i hSame
    exact hSame ▸ hLoc
  · exact h other found hFound

theorem WellNamed.isName_of_isDirectory (h : t.WellNamed) (hDir : t.isDirectory loc = true) :
    ∀ name ∈ loc, IsName name := by
  obtain ⟨node, hNode, -⟩ := isDirectory_iff.mp hDir
  exact h loc node hNode

/-! ### Removing -/

theorem within_remove (t : FileTree) (loc : Location) : (t.remove loc).Within t := by
  intro other node hNode
  by_cases hRoot : other = []
  · simpa [node?, hRoot] using hNode
  rw [node?_remove t loc other hRoot] at hNode
  split at hNode
  · cases hNode
  · exact hNode

theorem within_removeBelow (t : FileTree) (loc : Location) : (t.removeBelow loc).Within t := by
  intro other node hNode
  by_cases hRoot : other = []
  · simpa [node?, hRoot] using hNode
  rw [node?, if_neg hRoot, removeBelow, Std.ExtTreeMap.getElem?_filter'] at hNode
  rw [node?, if_neg hRoot]
  exact (Option.filter_eq_some_iff.mp hNode).1

theorem within_of_removeEntry (h : t.removeEntry dir p = .ok s) : s.Within t := by
  obtain ⟨⟨parent, ending⟩, -, hRest⟩ := bind_eq_ok_iff.mp h
  dsimp only at hRest
  split at hRest
  · obtain ⟨⟨⟩, -, hRest⟩ := bind_eq_ok_iff.mp hRest
    split at hRest
    · cases hRest
    · split at hRest
      · cases hRest
      split at hRest
      · cases hRest
      · cases hRest
        exact within_remove t _
  · cases hRest

theorem within_of_removeDirectory (h : t.removeDirectory dir p = .ok s) : s.Within t := by
  obtain ⟨⟨parent, ending⟩, -, hRest⟩ := bind_eq_ok_iff.mp h
  dsimp only at hRest
  split at hRest
  · obtain ⟨⟨⟩, -, hRest⟩ := bind_eq_ok_iff.mp hRest
    split at hRest
    · cases hRest
    · split at hRest
      · cases hRest
      split at hRest
      · cases hRest
      · cases hRest
        exact within_remove t _
  all_goals cases hRest

theorem within_removeTree (t : FileTree) (dir : Location) (p : Path) : (t.removeTree dir p).1.Within t := by
  unfold removeTree
  split
  · exact Within.refl t
  · rename_i loc hLoc
    split
    · split
      · rename_i rest hRemoved
        exact within_of_removeEntry hRemoved
      · exact Within.refl t
    · split
      · split
        · rename_i rest hRemoved
          exact (within_of_removeDirectory hRemoved).trans (t.within_removeBelow loc)
        · exact t.within_removeBelow loc
        · exact t.within_removeBelow loc
      · exact Within.refl t
    · exact Within.refl t

/-! ### Making -/

inductive Adds (t : FileTree) : FileTree → Prop
  | entry {dir : Location} {name : String} (node : Node) (hDir : t.isDirectory dir = true) (hName : IsName name)
    (hFree : t.node? (dir ++ [name]) = none) : Adds t (t.put (dir ++ [name]) node)

structure Grows (s t : FileTree) : Prop where
  within : s.Within t
  wellNamed : s.WellNamed → t.WellNamed

theorem Grows.refl (t : FileTree) : t.Grows t := ⟨Within.refl t, id⟩

theorem Grows.trans (h : s.Grows t) (h' : t.Grows u) : s.Grows u :=
  ⟨h.within.trans h'.within, h'.wellNamed ∘ h.wellNamed⟩

theorem Adds.grows (h : t.Adds s) : t.Grows s := by
  obtain ⟨node, hDir, hName, hFree⟩ := h
  constructor
  · intro loc found hFound
    by_cases hRoot : loc = []
    · simpa [node?, hRoot] using hFound
    rw [node?_put _ _ _ _ hRoot, if_neg]
    · exact hFound
    · rintro rfl
      rw [hFree] at hFound
      cases hFound
  · intro hNames
    refine hNames.put ?_ node
    intro name hMem
    rcases List.mem_append.mp hMem with hUp | hLast
    · exact hNames.isName_of_isDirectory hDir name hUp
    · exact List.mem_singleton.mp hLast ▸ hName

/-- A path that names a free entry of a directory, and what is put there. -/
theorem adds_of_entryOf {parent : Location} {name : String} {slash : Bool}
    (hEntry : t.entryOf dir p = .ok (parent, .name name slash)) (hFree : ¬(t.node? (parent ++ [name])).isSome = true)
    (node : Node) : t.Adds (t.put (parent ++ [name]) node) :=
  .entry node (entryOf_eq_ok_iff.mp hEntry).2.2.1 (isName_of_entryOf hEntry) (by simpa using hFree)

theorem adds_of_addFile {content : ByteArray} (h : t.addFile dir p content = .ok s) : t.Adds s := by
  obtain ⟨⟨parent, ending⟩, hEntry, hRest⟩ := bind_eq_ok_iff.mp h
  dsimp only at hRest
  split at hRest
  · obtain ⟨⟨⟩, -, hRest⟩ := bind_eq_ok_iff.mp hRest
    split at hRest
    · cases hRest
    · rename_i hFree
      obtain ⟨⟨⟩, -, ⟨⟩⟩ := bind_eq_ok_iff.mp hRest
      exact adds_of_entryOf hEntry hFree _
  · cases hRest

theorem adds_of_makeDirectory (h : t.makeDirectory dir p = .ok s) : t.Adds s := by
  obtain ⟨⟨parent, ending⟩, hEntry, hRest⟩ := bind_eq_ok_iff.mp h
  dsimp only at hRest
  split at hRest
  · obtain ⟨⟨⟩, -, hRest⟩ := bind_eq_ok_iff.mp hRest
    split at hRest
    · cases hRest
    · rename_i hFree
      obtain ⟨⟨⟩, -, ⟨⟩⟩ := bind_eq_ok_iff.mp hRest
      exact adds_of_entryOf hEntry hFree _
  · cases hRest

theorem grows_makeDirectoryChain (t : FileTree) (dir : Location) (ps : List Path) :
    t.Grows (t.makeDirectoryChain dir ps).1 := by
  induction ps with
  | nil => exact Grows.refl t
  | cons p up ih =>
    rw [makeDirectoryChain]
    split
    · exact Grows.refl t
    split
    · rename_i made hMade
      exact (adds_of_makeDirectory hMade).grows
    · split
      · rename_i made e hChain
        simpa [hChain] using ih
      · rename_i made hChain
        have hMade : t.Grows made := by simpa [hChain] using ih
        split
        · rename_i done hDone
          exact hMade.trans (adds_of_makeDirectory hDone).grows
        · exact hMade
    · exact Grows.refl t

theorem grows_makeDirectories (t : FileTree) (dir : Location) (p : Path) : t.Grows (t.makeDirectories dir p).1 :=
  t.grows_makeDirectoryChain dir p.ancestors

theorem grows_makeParents (t : FileTree) (dir : Location) (p : Path) : t.Grows (t.makeParents dir p).1 := by
  unfold makeParents
  split
  · exact Grows.refl t
  · rename_i up hUp
    have hGrows := t.grows_makeDirectories dir up
    split
    all_goals
      rename_i hMade
      rwa [hMade] at hGrows

end ClientRegistry.FileTree
