import ClientRegistry.Proofs.FileTree.Edit
import ClientRegistry.Proofs.FileTree.Ways

/-!
# Entries that paths name

A path that ends in a name names an entry of a directory, which may be there or not. What is made by
such a path is made at that place, and what is removed by it is removed from there; everything else
stays as it is.
-/

set_option autoImplicit false

namespace ClientRegistry.FileTree

variable {s t made : FileTree} {dir loc place parent : Location} {p : Path} {name : String} {content : ByteArray}

/-! ### One place more or less -/

theorem node?_ne_none_root (t : FileTree) : t.node? [] ≠ none := by
  rw [node?, if_pos rfl]
  exact Option.some_ne_none _

theorem node?_put_of_ne (t : FileTree) (node : Node) {other : Location} (h : other ≠ loc) :
    (t.put loc node).node? other = t.node? other := by
  by_cases hRoot : other = []
  · rw [node?, node?, if_pos hRoot, if_pos hRoot]
  · rw [node?_put t loc other node hRoot, if_neg (Ne.symm h)]

theorem node?_put_self (t : FileTree) (node : Node) (h : loc ≠ []) : (t.put loc node).node? loc = some node := by
  rw [node?_put t loc loc node h, if_pos rfl]

theorem node?_remove_of_ne (t : FileTree) {other : Location} (h : other ≠ loc) :
    (t.remove loc).node? other = t.node? other := by
  by_cases hRoot : other = []
  · rw [node?, node?, if_pos hRoot, if_pos hRoot]
  · rw [node?_remove t loc other hRoot, if_neg (Ne.symm h)]

theorem node?_remove_self (t : FileTree) (h : loc ≠ []) : (t.remove loc).node? loc = none := by
  rw [node?_remove t loc loc h, if_pos rfl]

theorem compare_ne_eq {other : Location} (h : other ≠ loc) : compare loc other ≠ .eq :=
  fun hSame => h (Std.LawfulEqCmp.eq_of_compare hSame).symm

theorem getElem?_put_self (t : FileTree) (loc : Location) (node : Node) : (t.put loc node).entries[loc]? = some node :=
  Std.ExtTreeMap.getElem?_insert_self

theorem getElem?_remove_self (t : FileTree) (loc : Location) : (t.remove loc).entries[loc]? = none :=
  Std.ExtTreeMap.getElem?_erase_self

theorem getElem?_put_of_ne (t : FileTree) (node : Node) {other : Location} (h : other ≠ loc) :
    (t.put loc node).entries[other]? = t.entries[other]? := by
  rw [put, Std.ExtTreeMap.getElem?_insert, if_neg (compare_ne_eq h)]

theorem getElem?_remove_of_ne (t : FileTree) {other : Location} (h : other ≠ loc) :
    (t.remove loc).entries[other]? = t.entries[other]? := by
  rw [remove, Std.ExtTreeMap.getElem?_erase, if_neg (compare_ne_eq h)]

theorem put_comm (t : FileTree) (h : loc ≠ place) (node node' : Node) :
    (t.put loc node).put place node' = (t.put place node').put loc node := by
  ext other : 1
  by_cases hLoc : other = loc
  · subst hLoc
    rw [getElem?_put_of_ne _ _ h, getElem?_put_self, getElem?_put_self]
  · rw [getElem?_put_of_ne _ _ hLoc]
    by_cases hPlace : other = place
    · subst hPlace
      rw [getElem?_put_self, getElem?_put_self]
    · rw [getElem?_put_of_ne _ _ hPlace, getElem?_put_of_ne _ _ hPlace, getElem?_put_of_ne _ _ hLoc]

theorem remove_put (h : t.node? loc = none) (node : Node) : (t.put loc node).remove loc = t := by
  have hRoot : loc ≠ [] := fun hRoot => node?_ne_none_root t (hRoot ▸ h)
  rw [node?, if_neg hRoot] at h
  ext other : 1
  by_cases hSame : other = loc
  · subst hSame
    rw [getElem?_remove_self, h]
  · rw [getElem?_remove_of_ne _ hSame, getElem?_put_of_ne _ _ hSame]

theorem put_remove {node : Node} (h : t.node? loc = some node) (hRoot : loc ≠ []) :
    (t.remove loc).put loc node = t := by
  rw [node?, if_neg hRoot] at h
  ext other : 1
  by_cases hSame : other = loc
  · subst hSame
    rw [getElem?_put_self, h]
  · rw [getElem?_put_of_ne _ _ hSame, getElem?_remove_of_ne _ hSame]

/-! ### Naming an entry -/

theorem ending_of_entryOf {ending : Ending} (h : t.entryOf dir p = .ok (parent, ending)) :
    ending = (Ending.ofSegments p.segments).2 := (entryOf_eq_ok_iff.mp h).2.2.2

/-- A path that ends in a name leads to the entry of that name, if it is there. -/
theorem resolveEntry_eq_ok_iff (hEnds : (Ending.ofSegments p.segments).2 = .name name false) :
    t.resolveEntry dir p = .ok place ↔ ∃ parent, t.entryOf dir p = .ok (parent, .name name false) ∧
      requireName name = .ok () ∧ place = parent ++ [name] ∧ (t.node? place).isSome = true := by
  unfold resolveEntry
  rw [bind_eq_ok_iff]
  constructor
  · rintro ⟨⟨parent, ending⟩, hEntry, hRest⟩
    obtain rfl := (ending_of_entryOf hEntry).trans hEnds
    obtain ⟨⟨⟩, hName, hFound⟩ := bind_eq_ok_iff.mp hRest
    split at hFound
    · rename_i hSome
      cases hFound
      exact ⟨parent, hEntry, hName, rfl, hSome⟩
    · cases hFound
  · rintro ⟨parent, hEntry, hName, rfl, hSome⟩
    exact ⟨_, hEntry, bind_eq_ok_iff.mpr ⟨(), hName, if_pos hSome⟩⟩

theorem KeepsWays.resolveEntry (h : s.KeepsWays t) (hEnds : (Ending.ofSegments p.segments).2 = .name name false)
    (hEntry : s.resolveEntry dir p = .ok place) (hNode : (t.node? place).isSome = true) :
    t.resolveEntry dir p = .ok place := by
  obtain ⟨parent, hParent, hName, hPlace, -⟩ := (resolveEntry_eq_ok_iff hEnds).mp hEntry
  exact (resolveEntry_eq_ok_iff hEnds).mpr ⟨parent, h.entryOf hParent, hName, hPlace, hNode⟩

/-- The place that a path names in a part of a tree is the one that it names in the whole tree. -/
theorem Within.resolveEntry (h : s.Within t) (hEnds : (Ending.ofSegments p.segments).2 = .name name false)
    (hEntry : s.resolveEntry dir p = .ok place) : t.resolveEntry dir p = .ok place := by
  obtain ⟨-, -, -, -, hSome⟩ := (resolveEntry_eq_ok_iff hEnds).mp hEntry
  obtain ⟨node, hNode⟩ := Option.isSome_iff_exists.mp hSome
  exact h.keepsWays.resolveEntry hEnds hEntry (Option.isSome_iff_exists.mpr ⟨node, h place node hNode⟩)

/-! ### Making -/

theorem requireRoom_eq_ok_iff : t.requireRoom loc name = .ok () ↔
    requireName name = .ok () ∧ t.node? loc ≠ some .systemDirectory := by
  unfold requireRoom
  rw [bind_eq_ok_iff]
  constructor
  · rintro ⟨⟨⟩, hName, hRest⟩
    refine ⟨hName, fun hSystem => ?_⟩
    rw [hSystem] at hRest
    cases hRest
  · rintro ⟨hName, hSystem⟩
    refine ⟨(), hName, ?_⟩
    split
    · contradiction
    · rfl

theorem addFile_eq_ok_iff : t.addFile dir p content = .ok made ↔
    ∃ parent name, t.entryOf dir p = .ok (parent, .name name false) ∧ t.node? (parent ++ [name]) = none ∧
      t.requireRoom parent name = .ok () ∧ made = t.put (parent ++ [name]) (.file content) := by
  unfold addFile
  rw [bind_eq_ok_iff]
  constructor
  · rintro ⟨⟨parent, ending⟩, hEntry, hRest⟩
    dsimp only at hRest
    split at hRest
    · rename_i name
      obtain ⟨⟨⟩, -, hRest⟩ := bind_eq_ok_iff.mp hRest
      split at hRest
      · cases hRest
      · rename_i hFree
        obtain ⟨⟨⟩, hRoom, ⟨⟩⟩ := bind_eq_ok_iff.mp hRest
        exact ⟨parent, name, hEntry, by simpa using hFree, hRoom, rfl⟩
    · cases hRest
  · rintro ⟨parent, name, hEntry, hFree, hRoom, rfl⟩
    refine ⟨_, hEntry, bind_eq_ok_iff.mpr ⟨(), (requireRoom_eq_ok_iff.mp hRoom).1, ?_⟩⟩
    rw [if_neg (by simp [hFree])]
    exact bind_eq_ok_iff.mpr ⟨(), hRoom, rfl⟩

theorem makeDirectory_eq_ok_iff : t.makeDirectory dir p = .ok made ↔
    ∃ parent name slash, t.entryOf dir p = .ok (parent, .name name slash) ∧ t.node? (parent ++ [name]) = none ∧
      t.requireRoom parent name = .ok () ∧ made = t.put (parent ++ [name]) .directory := by
  unfold makeDirectory
  rw [bind_eq_ok_iff]
  constructor
  · rintro ⟨⟨parent, ending⟩, hEntry, hRest⟩
    dsimp only at hRest
    split at hRest
    · rename_i name slash
      obtain ⟨⟨⟩, -, hRest⟩ := bind_eq_ok_iff.mp hRest
      split at hRest
      · cases hRest
      · rename_i hFree
        obtain ⟨⟨⟩, hRoom, ⟨⟩⟩ := bind_eq_ok_iff.mp hRest
        exact ⟨parent, name, slash, hEntry, by simpa using hFree, hRoom, rfl⟩
    · cases hRest
  · rintro ⟨parent, name, slash, hEntry, hFree, hRoom, rfl⟩
    refine ⟨_, hEntry, bind_eq_ok_iff.mpr ⟨(), (requireRoom_eq_ok_iff.mp hRoom).1, ?_⟩⟩
    rw [if_neg (by simp [hFree])]
    exact bind_eq_ok_iff.mpr ⟨(), hRoom, rfl⟩

/-! ### Removing -/

theorem removeEntry_of_resolveEntry (hEnds : (Ending.ofSegments p.segments).2 = .name name false)
    (hEntry : t.resolveEntry dir p = .ok place) (hDir : t.isDirectory place = false) :
    t.removeEntry dir p = .ok (t.remove place) := by
  obtain ⟨parent, hParent, hName, rfl, hSome⟩ := (resolveEntry_eq_ok_iff hEnds).mp hEntry
  obtain ⟨node, hNode⟩ := Option.isSome_iff_exists.mp hSome
  have hNodeDir : node.isDirectory = false := by simpa [isDirectory, hNode] using hDir
  unfold removeEntry
  refine bind_eq_ok_iff.mpr ⟨_, hParent, bind_eq_ok_iff.mpr ⟨(), hName, ?_⟩⟩
  simp only [hNode, hNodeDir]
  rfl

theorem resolveEntry_of_removeEntry (hEnds : (Ending.ofSegments p.segments).2 = .name name false)
    (h : t.removeEntry dir p = .ok made) : ∃ place, t.resolveEntry dir p = .ok place ∧ t.isDirectory place = false := by
  obtain ⟨⟨parent, ending⟩, hParent, hRest⟩ := bind_eq_ok_iff.mp h
  obtain rfl := (ending_of_entryOf hParent).trans hEnds
  obtain ⟨⟨⟩, hName, hRest⟩ := bind_eq_ok_iff.mp hRest
  split at hRest
  · cases hRest
  · rename_i node hNode
    split at hRest
    · cases hRest
    · rename_i hNodeDir
      have hSome := Option.isSome_iff_exists.mpr ⟨node, hNode⟩
      refine ⟨_, (resolveEntry_eq_ok_iff hEnds).mpr ⟨parent, hParent, hName, rfl, hSome⟩, ?_⟩
      simpa [isDirectory, hNode] using hNodeDir

end ClientRegistry.FileTree
