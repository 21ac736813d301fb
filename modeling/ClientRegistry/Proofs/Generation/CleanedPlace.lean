import ClientRegistry.Proofs.FileTree.NamedEntry
import ClientRegistry.Proofs.FileTree.RealWay
import ClientRegistry.Proofs.Generation.Stages

/-!
# Cleaning a place

What is cleaned is what stands at the place that the path of the output directory spells, where all directories
on the way are real ones: it is gone then with all that was in it, nothing else is touched, and when nothing is
reported to be there, nothing is. Only two things stand against this: something that is there although its path
leads nowhere, such as a link to nothing, is not seen; and a directory through whose inside the path leads
back to it can be emptied but not removed.
-/

set_option autoImplicit false

namespace ClientRegistry

open FileTree Work

variable {h : Host} {t left : FileTree} {dir loc parent : Location} {p : Path} {ending : Ending}

def Path.WayOutside (dir : Location) (p : Path) : Prop :=
  ∀ before, before <+: p.steps → before ≠ p.steps →
    p.locate dir <+: before.foldl Component.follow (linkStart dir p.text).1 →
    before.foldl Component.follow (linkStart dir p.text).1 = p.locate dir

theorem Path.wayOutside_of_name {name : String} (hName : IsName name) (dir : Location) :
    (Path.mk name).WayOutside dir := by
  intro before hBefore hOther hBelow
  have hLength := hBelow.length_le
  rw [eq_nil_of_prefix_name hName hBefore hOther, locate_eq_foldl_steps, hName.steps_eq, List.foldl_nil,
    linkStart_name hName, List.foldl_cons, List.foldl_nil, Component.follow, List.length_append,
    List.length_singleton] at hLength
  omega

namespace FileTree

/-! ### Directories emptied -/

theorem isDirectory_removeBelow (t : FileTree) (loc : Location) :
    (t.removeBelow loc).isDirectory loc = t.isDirectory loc := by
  rw [isDirectory, node?_removeBelow, if_neg fun hBelow => hBelow.2 rfl]
  rfl

theorem removeDirectory_ne_notFound (hEntry : t.entryOf dir p = .ok (parent, ending))
    (hNode : ∀ name slash, ending = .name name slash → t.node? (parent ++ [name]) ≠ none) :
    t.removeDirectory dir p ≠ .error .notFound := by
  intro hFails
  rw [removeDirectory, hEntry] at hFails
  cases ending with
  | root | dot | dotDot => cases hFails
  | name name slash =>
    obtain ⟨node, hThere⟩ := Option.ne_none_iff_exists'.mp (hNode name slash rfl)
    simp only [bind, Except.bind, requireName, hThere] at hFails
    split at hFails
    · rename_i hLong
      cases hFails
      split at hLong
      all_goals cases hLong
    · split at hFails
      · cases hFails
      · split at hFails
        all_goals cases hFails

/-- A way that does not lead through a directory's inside leads to it also when it is empty. -/
theorem RealWay.entryOf_removeBelow (hWay : t.RealWay dir p) (hOutside : p.WayOutside dir)
    (hEntry : t.entryOf dir p = .ok (parent, ending)) :
    (t.removeBelow (p.locate dir)).entryOf dir p = .ok (parent, ending) := by
  have hSame : ∀ before, before <+: (Ending.ofSegments p.segments).1.filterMap Path.stepOf? →
      (t.removeBelow (p.locate dir)).node? (before.foldl Component.follow (linkStart dir p.text).1) =
        t.node? (before.foldl Component.follow (linkStart dir p.text).1) := by
    intro before hBefore
    rw [node?_removeBelow, if_neg]
    rintro ⟨hBelow, hOther⟩
    by_cases hWhole : before = p.steps
    · rw [hWhole, ← locate_eq_foldl_steps] at hOther
      exact hOther rfl
    · exact hOther (hOutside before (hBefore.trans (RealWay.steps_eq p ▸ List.prefix_append _ _)) hWhole hBelow)
  obtain ⟨hStart, ⟨left, hLeads⟩, hDir, hEnding⟩ := entryOf_eq_ok_iff.mp hEntry
  refine entryOf_eq_ok_iff.mpr ⟨hStart, ⟨left, hLeads.congr hWay.plain_before_ending hSame⟩, ?_, hEnding⟩
  rw [hWay.parent_eq hEntry] at hDir ⊢
  rwa [isDirectory, hSame _ List.prefix_rfl]

/-- A way that leads through a directory's inside is lost when the directory is emptied. -/
theorem RealWay.removeDirectory_removeBelow (hWay : t.RealWay dir p) (hInside : ¬ p.WayOutside dir)
    (hEntry : t.entryOf dir p = .ok (parent, ending)) :
    (t.removeBelow (p.locate dir)).removeDirectory dir p = .error .notFound := by
  rcases (within_removeBelow t (p.locate dir)).entryOf_or hEntry with hThere | hLost
  · obtain ⟨before, hBefore, hOther, hBelow, hStrict⟩ : ∃ before, before <+: p.steps ∧ before ≠ p.steps ∧
        p.locate dir <+: before.foldl Component.follow (linkStart dir p.text).1 ∧
        before.foldl Component.follow (linkStart dir p.text).1 ≠ p.locate dir := by
      unfold Path.WayOutside at hInside
      push Not at hInside
      exact hInside
    obtain ⟨-, ⟨left, hLeads⟩, hDir, -⟩ := entryOf_eq_ok_iff.mp hThere
    have hKept := hLeads.isDirectory_before hDir (hWay.plain_before_ending.mono (within_removeBelow t _))
      (prefix_before_ending hBefore hOther)
    rw [isDirectory, node?_removeBelow, if_pos ⟨hBelow, hStrict⟩] at hKept
    cases hKept
  · rw [removeDirectory, hLost]
    rfl

end FileTree

/-! ### Cleaning -/

/-- The second tree is the first one without the entry at a place, and without all that is in it. -/
structure Removed (t : FileTree) (loc : Location) (left : FileTree) : Prop where
  found : t.node? loc ≠ none
  gone : left.node? loc = none
  emptied : t.isDirectory loc = true → left.Vacant loc
  elsewhere : ∀ other, ¬ loc <+: other → left.node? other = t.node? other

/-- Cleaning says whether something was at the place of a path, and removes that and nothing else; so the place is
free after it. -/
structure CleansExactly (h : Host) (t : FileTree) (p : Path) : Prop where
  removed : ∀ left, (cleanOutDir h p).Ends t left true → Removed t (p.locate h.dir) left
  missing : ∀ left, (cleanOutDir h p).Ends t left false → t.node? (p.locate h.dir) = none ∧ left = t
  free : ∀ left found, (cleanOutDir h p).Ends t left found → left.node? (p.locate h.dir) = none

theorem removed_of_removeTree (hWay : t.RealWay h.dir p)
    (hOutside : t.isDirectory (p.locate h.dir) = true → p.WayOutside h.dir)
    (hRemoved : t.removeTree h.dir p = (left, .ok ())) : Removed t (p.locate h.dir) left := by
  obtain ⟨loc, hEntry, hCases⟩ := exists_of_removeTree hRemoved
  obtain rfl := hWay.resolveEntry_eq hEntry
  rcases hCases with ⟨⟨target, hNode⟩, rfl⟩ | ⟨hDir, hRoot, rfl⟩ | ⟨hDir, hLost, -⟩
  · have hRoot : p.locate h.dir ≠ [] := by
      intro hRoot
      rw [hRoot, node?, if_pos rfl] at hNode
      cases hNode
    refine ⟨hNode ▸ Option.some_ne_none _, node?_remove_self t hRoot, fun hDir => ?_, fun other hOther => ?_⟩
    · exact absurd hNode (node?_ne_link_of_isDirectory hDir target)
    · exact node?_remove_of_ne t fun hSame => hOther (hSame ▸ List.prefix_rfl)
  · have hVacant := vacant_without t hRoot
    refine ⟨node?_ne_none_of_isDirectory hDir, hVacant _ List.prefix_rfl, fun _ => hVacant, fun other hOther => ?_⟩
    rw [node?_without t hRoot, if_neg hOther]
  · obtain ⟨⟨parent, ending⟩, hParent, -⟩ := bind_eq_ok_iff.mp hEntry
    refine absurd hLost (removeDirectory_ne_notFound (hWay.entryOf_removeBelow (hOutside hDir) hParent) ?_)
    rintro name slash rfl
    rw [hWay.entry_eq hParent]
    exact node?_ne_none_of_isDirectory ((isDirectory_removeBelow t (p.locate h.dir)).trans hDir)

/-- Along real directories, cleaning is exact just where what is at the place is seen by its path, and where no
directory there has the way to it inside. -/
theorem cleansExactly_iff (hWay : t.RealWay h.dir p) : CleansExactly h t p ↔
    (t.node? (p.locate h.dir) ≠ none → t.pathExists h.dir p = true) ∧
      (t.isDirectory (p.locate h.dir) = true → p.WayOutside h.dir) := by
  constructor
  · intro hExact
    have hSeen : t.node? (p.locate h.dir) ≠ none → t.pathExists h.dir p = true := by
      intro hNode
      by_contra hUnseen
      rw [Bool.not_eq_true] at hUnseen
      exact hNode (hExact.missing t (Generator.ends_cleanOutDir_false_iff.mpr ⟨hUnseen, rfl⟩)).1
    refine ⟨hSeen, fun hDir => ?_⟩
    by_contra hInside
    have hNode := node?_ne_none_of_isDirectory hDir
    have hExists := hSeen hNode
    have hEntry := hWay.resolveEntry_of_isDirectory hExists hDir
    obtain ⟨⟨parent, ending⟩, hParent, -⟩ := bind_eq_ok_iff.mp hEntry
    have hLost := hWay.removeDirectory_removeBelow hInside hParent
    have hEmptied : t.removeTree h.dir p = (t.removeBelow (p.locate h.dir), .ok ()) := by
      rw [removeTree_of_directory hEntry hDir, hLost]
    have hGone := (hExact.removed _ (Generator.ends_cleanOutDir_true_iff.mpr ⟨hExists, hEmptied⟩)).gone
    rw [node?_removeBelow, if_neg fun hBelow => hBelow.2 rfl] at hGone
    exact hNode hGone
  · rintro ⟨hSeen, hOutside⟩
    have hRemoved : ∀ left, (cleanOutDir h p).Ends t left true → Removed t (p.locate h.dir) left := by
      intro left hEnds
      exact removed_of_removeTree hWay hOutside (Generator.ends_cleanOutDir_true_iff.mp hEnds).2
    have hMissing : ∀ left, (cleanOutDir h p).Ends t left false → t.node? (p.locate h.dir) = none ∧ left = t := by
      intro left hEnds
      obtain ⟨hUnseen, rfl⟩ := Generator.ends_cleanOutDir_false_iff.mp hEnds
      refine ⟨?_, rfl⟩
      by_contra hNode
      rw [hSeen hNode] at hUnseen
      cases hUnseen
    refine ⟨hRemoved, hMissing, fun left found hEnds => ?_⟩
    cases found with
    | true => exact (hRemoved left hEnds).gone
    | false =>
      obtain ⟨hNone, rfl⟩ := hMissing left hEnds
      exact hNone

def idleHost : Host where
  dir := ["app"]
  start _ t := .ok ⟨t, .code 0, .empty, .empty⟩
  token _ := "000000"

def linkingTree : FileTree :=
  (((empty.put ["app"] .directory).put ["app", "gen"] .directory).put ["app", "gen", "up"] (.link "../keep.txt")).put
    ["app", "keep.txt"] (.file .empty)

/-- The link is removed with the directory, and what it leads to is not. -/
theorem cleansExactly_linkingTree :
    ((cleanOutDir idleHost "gen").run linkingTree).result.toOption = some true ∧
      linkingTree.RealWay idleHost.dir "gen" ∧ CleansExactly idleHost linkingTree "gen" := by
  have hName : IsName "gen" := by decide
  have hWay : linkingTree.RealWay idleHost.dir "gen" := .of_name hName (by decide +kernel)
  refine ⟨by decide +kernel, hWay, (cleansExactly_iff hWay).mpr ⟨fun _ => by decide +kernel, fun _ => ?_⟩⟩
  exact Path.wayOutside_of_name hName idleHost.dir

def danglingOutput : FileTree := (empty.put ["app"] .directory).put ["app", "gen"] (.link "nowhere")

/-- A link to nothing is not seen, and stands in the way of the directory to be made. -/
theorem not_cleansExactly_danglingOutput :
    danglingOutput.RealWay idleHost.dir "gen" ∧ ¬CleansExactly idleHost danglingOutput "gen" ∧
      (danglingOutput.makeDirectories idleHost.dir "gen").2 = .error .alreadyExists := by
  refine ⟨.of_name (by decide) (by decide +kernel), fun hExact => ?_, by decide +kernel⟩
  have hEnds : (cleanOutDir idleHost "gen").Ends danglingOutput danglingOutput false :=
    Generator.ends_cleanOutDir_false_iff.mpr ⟨by decide +kernel, rfl⟩
  have hNode : danglingOutput.node? ((Path.mk "gen").locate idleHost.dir) ≠ none := by decide +kernel
  exact hNode (hExact.missing _ hEnds).1

end ClientRegistry
