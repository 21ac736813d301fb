import ClientRegistry.Proofs.FileTree.Directories

/-!
# What cleaning leaves

A directory that is cleaned away is gone with everything in it, and so is a link, which is not followed.
Where the path leads back up from inside of the directory, only what is in it goes; and what a path does
not lead to is not touched.
-/

set_option autoImplicit false

namespace ClientRegistry.FileTree

variable {s t cleaned : FileTree} {dir loc other parent : Location} {p : Path} {name : String} {slash : Bool}

/-! ### Everything at a place -/

theorem node?_removeBelow (t : FileTree) (loc other : Location) :
    (t.removeBelow loc).node? other = if loc <+: other ∧ other ≠ loc then none else t.node? other := by
  by_cases hRoot : other = []
  · subst hRoot
    rw [node?, node?, if_pos rfl, if_pos rfl, if_neg]
    rintro ⟨hPrefix, hOther⟩
    exact hOther (List.prefix_nil.mp hPrefix).symm
  · rw [node?, node?, if_neg hRoot, if_neg hRoot, removeBelow, Std.ExtTreeMap.getElem?_filter']
    split
    · rename_i hBelow
      have hGone : (loc.isPrefixOf other && other != loc) = true := by
        simpa [List.isPrefixOf_iff_prefix] using hBelow
      simp [hGone]
    · rename_i hElsewhere
      have hKept : (loc.isPrefixOf other && other != loc) = false := by
        simpa [← Bool.not_eq_true, List.isPrefixOf_iff_prefix] using hElsewhere
      simp only [hKept, Bool.not_false]
      cases t.entries[other]? <;> rfl

theorem below_removeBelow (t : FileTree) (loc : Location) : (t.removeBelow loc).below loc = [] := by
  refine List.filter_eq_nil_iff.mpr ?_
  rintro ⟨place, node⟩ hEntry hBelow
  have hFound := Std.ExtTreeMap.mem_toList_iff_getElem?_eq_some.mp hEntry
  rw [removeBelow, Std.ExtTreeMap.getElem?_filter'] at hFound
  simp only [hBelow, Bool.not_true] at hFound
  cases hOld : t.entries[place]? with
  | none => simp [hOld] at hFound
  | some old => simp [hOld] at hFound

def without (t : FileTree) (loc : Location) : FileTree := (t.removeBelow loc).remove loc

theorem getElem?_without (t : FileTree) (loc other : Location) :
    (t.without loc).entries[other]? = if loc <+: other then none else t.entries[other]? := by
  by_cases hSame : other = loc
  · subst hSame
    rw [without, getElem?_remove_self, if_pos List.prefix_rfl]
  · rw [without, getElem?_remove_of_ne _ hSame, removeBelow, Std.ExtTreeMap.getElem?_filter']
    split
    · rename_i hBelow
      have hGone : (loc.isPrefixOf other && other != loc) = true := by
        simpa [List.isPrefixOf_iff_prefix, hSame] using hBelow
      simp [hGone]
    · rename_i hElsewhere
      have hKept : (loc.isPrefixOf other && other != loc) = false := by
        simp [← Bool.not_eq_true, List.isPrefixOf_iff_prefix, hElsewhere]
      simp only [hKept, Bool.not_false]
      cases t.entries[other]? <;> rfl

theorem node?_without (t : FileTree) (h : loc ≠ []) (other : Location) :
    (t.without loc).node? other = if loc <+: other then none else t.node? other := by
  by_cases hRoot : other = []
  · subst hRoot
    rw [node?, node?, if_pos rfl, if_pos rfl, if_neg fun hPrefix => h (List.prefix_nil.mp hPrefix)]
  · rw [node?, node?, if_neg hRoot, if_neg hRoot, getElem?_without]

theorem within_without (t : FileTree) (loc : Location) : (t.without loc).Within t :=
  (within_remove _ loc).trans (within_removeBelow t loc)

/-! ### Cleaning -/

inductive Cleaned (t : FileTree) (dir : Location) (p : Path) : FileTree → Prop
  | missing (hPath : t.pathExists dir p = false) : Cleaned t dir p t
  | link {loc : Location} {target : String} (hEntry : t.resolveEntry dir p = .ok loc)
    (hNode : t.node? loc = some (.link target)) : Cleaned t dir p (t.remove loc)
  | directory {loc : Location} (hEntry : t.resolveEntry dir p = .ok loc) (hDir : t.isDirectory loc = true) :
    Cleaned t dir p (t.without loc)
  | contents {loc : Location} (hEntry : t.resolveEntry dir p = .ok loc) (hDir : t.isDirectory loc = true)
    (hPath : (t.removeBelow loc).removeDirectory dir p = .error .notFound) : Cleaned t dir p (t.removeBelow loc)

theorem Cleaned.within (h : Cleaned t dir p cleaned) : cleaned.Within t := by
  cases h with
  | missing => exact Within.refl _
  | link => exact within_remove t _
  | directory => exact within_without t _
  | contents => exact within_removeBelow t _

theorem exists_of_removeEntry (h : t.removeEntry dir p = .ok s) :
    ∃ parent name, t.entryOf dir p = .ok (parent, .name name false) ∧ requireName name = .ok () ∧
      (∃ node, t.node? (parent ++ [name]) = some node) ∧ s = t.remove (parent ++ [name]) := by
  obtain ⟨⟨parent, ending⟩, hEntry, hRest⟩ := bind_eq_ok_iff.mp h
  dsimp only at hRest
  split at hRest
  · rename_i name slash
    obtain ⟨⟨⟩, hName, hRest⟩ := bind_eq_ok_iff.mp hRest
    split at hRest
    · cases hRest
    · rename_i node hNode
      split at hRest
      · cases hRest
      split at hRest
      · cases hRest
      · rename_i hSlash
        cases hRest
        obtain rfl : slash = false := by simpa using hSlash
        exact ⟨parent, name, hEntry, hName, ⟨node, hNode⟩, rfl⟩
  · cases hRest

theorem exists_of_removeDirectory (h : t.removeDirectory dir p = .ok s) :
    ∃ parent name slash, t.entryOf dir p = .ok (parent, .name name slash) ∧ requireName name = .ok () ∧
      t.isDirectory (parent ++ [name]) = true ∧ s = t.remove (parent ++ [name]) := by
  obtain ⟨⟨parent, ending⟩, hEntry, hRest⟩ := bind_eq_ok_iff.mp h
  dsimp only at hRest
  split at hRest
  · rename_i name slash
    obtain ⟨⟨⟩, hName, hRest⟩ := bind_eq_ok_iff.mp hRest
    split at hRest
    · cases hRest
    · rename_i node hNode
      split at hRest
      · cases hRest
      rename_i hDir
      split at hRest
      · cases hRest
      · cases hRest
        exact ⟨parent, name, slash, hEntry, hName, isDirectory_iff.mpr ⟨node, hNode, by simpa using hDir⟩, rfl⟩
  all_goals cases hRest

theorem removeDirectory_of_entryOf (hEntry : t.entryOf dir p = .ok (parent, .name name slash))
    (hName : requireName name = .ok ()) (hDir : t.isDirectory (parent ++ [name]) = true)
    (hEmpty : t.below (parent ++ [name]) = []) : t.removeDirectory dir p = .ok (t.remove (parent ++ [name])) := by
  obtain ⟨node, hNode, hNodeDir⟩ := isDirectory_iff.mp hDir
  refine bind_eq_ok_iff.mpr ⟨_, hEntry, bind_eq_ok_iff.mpr ⟨(), hName, ?_⟩⟩
  simp only [hNode, hNodeDir, hEmpty]
  rfl

theorem resolveEntry_of_entryOf (hEntry : t.entryOf dir p = .ok (parent, .name name false))
    (hName : requireName name = .ok ()) (hNode : t.node? (parent ++ [name]) ≠ none) :
    t.resolveEntry dir p = .ok (parent ++ [name]) := by
  have hEnds := (ending_of_entryOf hEntry).symm
  exact (resolveEntry_eq_ok_iff hEnds).mpr ⟨parent, hEntry, hName, rfl, Option.isSome_iff_ne_none.mpr hNode⟩

/-- A directory is emptied before it is removed itself; not to be found any more is as good as removed. -/
theorem removeTree_of_directory (hEntry : t.resolveEntry dir p = .ok loc) (hDir : t.isDirectory loc = true) :
    t.removeTree dir p =
      match (t.removeBelow loc).removeDirectory dir p with
      | .ok rest => (rest, .ok ())
      | .error .notFound => (t.removeBelow loc, .ok ())
      | .error e => (t.removeBelow loc, .error e) := by
  obtain ⟨node, hNode, hNodeDir⟩ := isDirectory_iff.mp hDir
  unfold removeTree
  rw [hEntry]
  dsimp only
  rw [hNode]
  cases node with
  | directory | systemDirectory => rfl
  | file content => cases hNodeDir
  | link target => cases hNodeDir
  | sink => cases hNodeDir

/-- What is removed when a tree is: a link, a directory with all that is in it, or only what is in it, where the
path does not lead to it any more then. -/
theorem exists_of_removeTree (h : t.removeTree dir p = (cleaned, .ok ())) : ∃ loc, t.resolveEntry dir p = .ok loc ∧
    ((∃ target, t.node? loc = some (.link target)) ∧ cleaned = t.remove loc ∨
      t.isDirectory loc = true ∧ loc ≠ [] ∧ cleaned = t.without loc ∨
      t.isDirectory loc = true ∧ (t.removeBelow loc).removeDirectory dir p = .error .notFound ∧
        cleaned = t.removeBelow loc) := by
  unfold removeTree at h
  split at h
  · cases h
  rename_i loc hEntry
  refine ⟨loc, hEntry, ?_⟩
  split at h
  · rename_i target hNode
    split at h
    · rename_i rest hRemoved
      cases h
      obtain ⟨parent, name, hParent, hName, ⟨node, hFound⟩, rfl⟩ := exists_of_removeEntry hRemoved
      have hSame := resolveEntry_of_entryOf hParent hName (hFound ▸ Option.some_ne_none node)
      obtain rfl := Except.ok.inj (hEntry.symm.trans hSame)
      exact .inl ⟨⟨target, hNode⟩, rfl⟩
    · cases h
  · rename_i node hLink hNode
    split at h
    · rename_i hNodeDir
      have hDir : t.isDirectory loc = true := isDirectory_iff.mpr ⟨node, hNode, hNodeDir⟩
      split at h
      · rename_i rest hRemoved
        cases h
        obtain ⟨parent, name, slash, hParent, hName, hParentDir, rfl⟩ := exists_of_removeDirectory hRemoved
        have hAfter := (within_removeBelow t loc).resolve (resolve_of_entryOf_directory hParent hName hParentDir)
        have hBefore := resolve_of_resolveEntry hEntry fun target hTarget => by
          rw [hNode] at hTarget
          exact hLink target (Option.some.inj hTarget)
        obtain rfl := Except.ok.inj (hBefore.symm.trans hAfter)
        exact .inr (.inl ⟨hDir, List.concat_ne_nil _ _, rfl⟩)
      · rename_i hLost
        cases h
        exact .inr (.inr ⟨hDir, hLost, rfl⟩)
      · cases h
    · cases h
  · cases h

theorem cleaned_of_removeTree (h : t.removeTree dir p = (cleaned, .ok ())) : Cleaned t dir p cleaned := by
  obtain ⟨loc, hEntry, ⟨⟨target, hNode⟩, rfl⟩ | ⟨hDir, -, rfl⟩ | ⟨hDir, hLost, rfl⟩⟩ := exists_of_removeTree h
  · exact .link hEntry hNode
  · exact .directory hEntry hDir
  · exact .contents hEntry hDir hLost

end ClientRegistry.FileTree
