import ClientRegistry.Proofs.FileTree.Cleaning

/-!
# A directory taken away and made again

Where the way to an entry does not lead through the entry itself, it is there in every tree that holds the
rest. A directory that is cleaned away leaves the same tree whatever was in it, and made again it is
empty, and all that is new.
-/

set_option autoImplicit false

namespace ClientRegistry.FileTree

variable {s t u ready : FileTree} {dir parent loc found : Location} {p : Path} {name : String} {links left : Nat}

/-! ### Nothing at a place -/

def Vacant (t : FileTree) (loc : Location) : Prop := ∀ below, loc <+: below → t.node? below = none

theorem vacant_without (t : FileTree) (h : loc ≠ []) : (t.without loc).Vacant loc := by
  intro below hBelow
  rw [node?_without t h, if_pos hBelow]

theorem Vacant.ne_nil (h : t.Vacant loc) : loc ≠ [] := by
  rintro rfl
  exact node?_ne_none_root t (h [] List.prefix_rfl)

theorem Vacant.without_eq (h : t.Vacant loc) : t.without loc = t := by
  ext other : 1
  rw [getElem?_without]
  split
  · rename_i hBelow
    have hOther : other ≠ [] := fun hRoot => h.ne_nil (List.prefix_nil.mp (hRoot ▸ hBelow))
    have hNone := h other hBelow
    rw [node?, if_neg hOther] at hNone
    exact hNone.symm
  · rfl

theorem Vacant.within_without (h : t.Vacant loc) (hWithin : t.Within u) : t.Within (u.without loc) := by
  intro other node hNode
  rw [node?_without u h.ne_nil, if_neg]
  · exact hWithin other node hNode
  · intro hBelow
    cases (h other hBelow).symm.trans hNode

theorem Vacant.ne_link_of_makesWay (h : t.Vacant loc) {paths : List Path} (hWay : MakesWay dir paths t ready)
    (target : String) : ready.node? loc ≠ some (.link target) := by
  intro hTarget
  rcases hWay.added _ _ hTarget with hOld | ⟨-, hNew, -⟩
  · cases (h loc List.prefix_rfl).symm.trans hOld
  · cases hNew

theorem without_eq_remove (h : ∀ below, loc <+: below → below ≠ loc → t.node? below = none) :
    t.without loc = t.remove loc := by
  ext other : 1
  rw [getElem?_without]
  by_cases hSame : other = loc
  · subst hSame
    rw [if_pos List.prefix_rfl, getElem?_remove_self]
  · rw [getElem?_remove_of_ne t hSame]
    split
    · rename_i hBelow
      have hRoot : other ≠ [] := by
        rintro rfl
        exact hSame (List.prefix_nil.mp hBelow).symm
      have hNone := h other hBelow hSame
      rw [node?, if_neg hRoot] at hNone
      exact hNone.symm
    · rfl

/-! ### The entry that a path names -/

def NamesEntry (t : FileTree) (dir : Location) (p : Path) (parent : Location) (name : String) : Prop :=
  ∃ slash, t.entryOf dir p = .ok (parent, .name name slash)

namespace NamesEntry

theorem mono (h : s.NamesEntry dir p parent name) (hWithin : s.Within t) : t.NamesEntry dir p parent name := by
  obtain ⟨slash, hEntry⟩ := h
  exact ⟨slash, hWithin.keepsWays.entryOf hEntry⟩

theorem isDirectory (h : t.NamesEntry dir p parent name) : t.isDirectory parent = true := by
  obtain ⟨_, hEntry⟩ := h
  exact (entryOf_eq_ok_iff.mp hEntry).2.2.1

theorem isName (h : t.NamesEntry dir p parent name) : IsName name := by
  obtain ⟨_, hEntry⟩ := h
  exact isName_of_entryOf hEntry

theorem text_ne (h : t.NamesEntry dir p parent name) : p.text ≠ "" := by
  obtain ⟨_, hEntry⟩ := h
  exact (start_eq_ok (entryOf_eq_ok_iff.mp hEntry).1).1

theorem moves_eq (h : t.NamesEntry dir p parent name) :
    moves p.segments = moves (Ending.ofSegments p.segments).1 ++ [name] := by
  obtain ⟨_, hEntry⟩ := h
  have hMoves := moves_ofSegments p.segments
  rwa [← ending_of_entryOf hEntry] at hMoves

theorem leads (h : t.NamesEntry dir p parent name) : start dir p = .ok (linkStart dir p.text) ∧
    ∃ left, t.Leads maxLinks (linkStart dir p.text).1 (moves (Ending.ofSegments p.segments).1) parent left := by
  have hDir := h.isDirectory
  obtain ⟨_, hEntry⟩ := h
  obtain ⟨hStart, ⟨left, hLeads⟩, -, -⟩ := entryOf_eq_ok_iff.mp hEntry
  exact ⟨hStart, left, (leads_moves_iff hDir).mpr hLeads⟩

/-- What the path leads to is the entry, if that is no link. -/
theorem found_eq (h : t.NamesEntry dir p parent name)
    (hLink : ∀ target, t.node? (parent ++ [name]) ≠ some (.link target))
    (hMoves : t.Leads links (linkStart dir p.text).1 (moves p.segments) found left) :
    requireName name = .ok () ∧ found = parent ++ [name] ∧ t.node? found ≠ none := by
  rw [h.moves_eq] at hMoves
  obtain ⟨halfway, middle, hFirst, hLast⟩ := Leads.split _ _ hMoves
  obtain ⟨-, _, hParent⟩ := h.leads
  obtain rfl := hFirst.found_unique hParent
  exact hLast.of_name h.isName hLink

theorem pathExists_of_vacant (h : t.NamesEntry dir p parent name) (hVacant : t.Vacant (parent ++ [name])) :
    t.pathExists dir p = false := by
  have hNone := hVacant _ List.prefix_rfl
  unfold pathExists
  cases hResolve : t.resolve dir p with
  | error e => rfl
  | ok found =>
    obtain ⟨-, left, hLeads⟩ := resolve_eq_ok_iff.mp hResolve
    obtain ⟨-, rfl, hSome⟩ := h.found_eq (fun target hTarget => by cases hNone.symm.trans hTarget) hLeads.moves
    exact absurd hNone hSome

/-- A directory that is cleaned away leaves the tree without it. -/
theorem removeTree_eq (h : (t.without (parent ++ [name])).NamesEntry dir p parent name)
    (hFound : t.resolve dir p = .ok (parent ++ [name])) (hDir : t.isDirectory (parent ++ [name]) = true) :
    t.removeTree dir p = (t.without (parent ++ [name]), .ok ()) := by
  obtain ⟨-, left, hLeads⟩ := resolve_eq_ok_iff.mp hFound
  have hBefore := h.mono (within_without t _)
  obtain ⟨hName, -, hNode⟩ := hBefore.found_eq (node?_ne_link_of_isDirectory hDir) hLeads.moves
  obtain ⟨slash, hEntry⟩ := hBefore
  have hResolve : t.resolveEntry dir p = .ok (parent ++ [name]) := by
    refine bind_eq_ok_iff.mpr ⟨_, hEntry, ?_⟩
    cases slash with
    | true => exact hFound
    | false => exact bind_eq_ok_iff.mpr ⟨(), hName, if_pos (Option.isSome_iff_ne_none.mpr hNode)⟩
  obtain ⟨slash', hAfter⟩ := h.mono (within_remove (t.removeBelow (parent ++ [name])) _)
  have hAfterDir : (t.removeBelow (parent ++ [name])).isDirectory (parent ++ [name]) = true := by
    rw [FileTree.isDirectory, node?_removeBelow, if_neg (by simp)]
    exact hDir
  have hEmptied := removeDirectory_of_entryOf hAfter hName hAfterDir (below_removeBelow t _)
  rw [removeTree_of_directory hResolve hDir, hEmptied]
  rfl

end NamesEntry

/-! ### Made again -/

/-- A directory that has just been made: it is empty, and the way to it does not lead through it. -/
structure NewDirectory (dir : Location) (p : Path) (parent : Location) (name : String) (ready : FileTree) : Prop where
  names : (ready.without (parent ++ [name])).NamesEntry dir p parent name
  node : ready.node? (parent ++ [name]) = some .directory
  ordinary : ready.node? parent = some .directory
  room : requireName name = .ok ()
  empty : ∀ below, parent ++ [name] <+: below → below ≠ parent ++ [name] → ready.node? below = none

namespace NewDirectory

/-- Taken away alone, the directory is made again, and nothing else. -/
theorem makeDirectories_without (h : NewDirectory dir p parent name ready) :
    (ready.without (parent ++ [name])).makeDirectories dir p = (ready, .ok ()) := by
  obtain ⟨slash, hEntry⟩ := h.names
  have hMade : (ready.without (parent ++ [name])).makeDirectory dir p = .ok ready := by
    refine makeDirectory_eq_ok_iff.mpr ⟨_, _, slash, hEntry, ?_, requireRoom_eq_ok_iff.mpr ⟨h.room, ?_⟩, ?_⟩
    · exact vacant_without ready (by simp) _ List.prefix_rfl
    · have hAbove : ¬parent ++ [name] <+: parent := by
        intro hBelow
        have hLength := hBelow.length_le
        rw [List.length_append, List.length_singleton] at hLength
        omega
      rw [node?_without ready (by simp), if_neg hAbove, h.ordinary]
      exact nofun
    · rw [without_eq_remove h.empty, put_remove h.node (by simp)]
  obtain ⟨above, hAbove⟩ := Path.exists_ancestors_eq_cons p
  rw [makeDirectories, hAbove, makeDirectoryChain, if_neg (by simpa using h.names.text_ne), hMade]

end NewDirectory

theorem leads_of_mem_ancestors {q : Path} (hq : q ∈ p.ancestors) (hFound : t.resolve dir q = .ok found)
    (hDir : t.isDirectory found = true) : moves q.segments <+: moves p.segments ∧
      ∃ left, t.Leads maxLinks (linkStart dir p.text).1 (moves q.segments) found left := by
  obtain ⟨hSteps, hAbsolute⟩ := Path.steps_of_mem_ancestors hq
  obtain ⟨-, left, hLeads⟩ := resolve_eq_ok_iff.mp hFound
  have hBase := linkStart_fst_eq dir hAbsolute
  constructor
  · rw [moves_segments, moves_segments]
    exact hSteps.map _
  · rw [← hBase]
    exact ⟨left, (leads_moves_iff hDir).mpr hLeads⟩

/-- What is new is the entry alone, if the path names it already. -/
theorem NamesEntry.node?_eq_none (h : t.NamesEntry dir p parent name) (hVacant : t.Vacant (parent ++ [name]))
    (hWay : MakesWay dir p.ancestors t ready) (below : Location) (hBelow : parent ++ [name] <+: below)
    (hStrict : below ≠ parent ++ [name]) : ready.node? below = none := by
  by_contra hSome
  obtain ⟨node, hNode⟩ := Option.ne_none_iff_exists'.mp hSome
  rcases hWay.added _ _ hNode with hOld | ⟨-, rfl, -, q, hq, hFound⟩
  · cases (hVacant below hBelow).symm.trans hOld
  obtain ⟨hPrefix, left, hMoves⟩ := leads_of_mem_ancestors hq hFound (isDirectory_iff.mpr ⟨_, hNode, rfl⟩)
  rw [h.moves_eq] at hPrefix
  rcases List.prefix_concat_iff.mp hPrefix with hWhole | ⟨more, hMore⟩
  · rw [hWhole, ← h.moves_eq] at hMoves
    exact hStrict ((h.mono hWay.within).found_eq (hVacant.ne_link_of_makesWay hWay) hMoves).2.1
  · obtain ⟨-, _, hParent⟩ := h.leads
    rw [← hMore] at hParent
    obtain ⟨halfway, _, hFirst, hRest⟩ := Leads.split _ _ hParent
    obtain rfl := (hWay.within.leads hFirst).found_unique hMoves
    obtain ⟨node, hOld, -⟩ := isDirectory_iff.mp (hRest.isDirectory_start h.isDirectory)
    cases (hVacant _ hBelow).symm.trans hOld

/-- What has been made where nothing was is a new directory, if it is at the place that is meant. -/
theorem NewDirectory.of_namesEntry (h : (ready.without (parent ++ [name])).NamesEntry dir p parent name)
    (hVacant : t.Vacant (parent ++ [name])) (hWay : MakesWay dir p.ancestors t ready)
    (hFound : ready.resolve dir p = .ok (parent ++ [name])) (hDir : ready.isDirectory (parent ++ [name]) = true)
    (hEmpty : ∀ below, parent ++ [name] <+: below → below ≠ parent ++ [name] → ready.node? below = none) :
    NewDirectory dir p parent name ready := by
  have hLink : ∀ target, ready.node? (parent ++ [name]) ≠ some (.link target) := hVacant.ne_link_of_makesWay hWay
  obtain ⟨-, left, hLeads⟩ := resolve_eq_ok_iff.mp hFound
  obtain ⟨hName, -, -⟩ := (h.mono (within_without ready _)).found_eq hLink hLeads.moves
  obtain ⟨node, hNode, -⟩ := isDirectory_iff.mp hDir
  rcases hWay.added _ _ hNode with hOld | ⟨-, rfl, hParent, -⟩
  · cases (hVacant _ List.prefix_rfl).symm.trans hOld
  · rw [List.dropLast_concat] at hParent
    exact ⟨h, hNode, hParent, hName, hEmpty⟩

theorem NamesEntry.newDirectory (h : t.NamesEntry dir p parent name) (hVacant : t.Vacant (parent ++ [name]))
    (hReady : t.makeDirectories dir p = (ready, .ok ())) : NewDirectory dir p parent name ready := by
  have hWay := makesWay_of_makeDirectories hReady
  obtain ⟨found, hFound, hDir⟩ := isDirectoryAt_iff.mp (isDirectoryAt_of_makeDirectories h.text_ne hReady)
  obtain ⟨-, left, hLeads⟩ := resolve_eq_ok_iff.mp hFound
  obtain ⟨-, rfl, -⟩ := (h.mono hWay.within).found_eq (hVacant.ne_link_of_makesWay hWay) hLeads.moves
  exact .of_namesEntry (h.mono (hVacant.within_without hWay.within)) hVacant hWay hFound hDir
    (h.node?_eq_none hVacant hWay)

end ClientRegistry.FileTree
