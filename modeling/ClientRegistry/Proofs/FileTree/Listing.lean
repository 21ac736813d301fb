import Mathlib.Data.List.Nodup
import ClientRegistry.FileTree.Listing
import ClientRegistry.Proofs.FileTree.Directories

/-!
# What a listing finds

A listing gives regular files that stand at or below its place, and each of them once. The place
itself is given only if it is a file.
-/

set_option autoImplicit false

namespace ClientRegistry.FileTree

variable {t : FileTree} {dir loc place : Location} {p : Path} {entriesOf : Location → List String}

theorem filesWithin_cases (t : FileTree) (entriesOf : Location → List String) (depth : Nat) (loc : Location) :
    t.filesWithin entriesOf (depth + 1) loc = [] ∨
      ((∃ content, t.node? loc = some (.file content)) ∧ t.filesWithin entriesOf (depth + 1) loc = [loc]) ∨
      t.filesWithin entriesOf (depth + 1) loc =
        ((entriesOf loc).mergeSort fun a b => decide (a ≤ b)).flatMap fun name =>
          t.filesWithin entriesOf depth (loc ++ [name]) := by
  rw [filesWithin]
  cases t.node? loc with
  | none => exact .inl rfl
  | some node =>
    cases node with
    | directory | systemDirectory => exact .inr (.inr rfl)
    | file content => exact .inr (.inl ⟨⟨content, rfl⟩, rfl⟩)
    | link target => exact .inl rfl
    | sink => exact .inl rfl

theorem mem_filesWithin {depth : Nat} (h : place ∈ t.filesWithin entriesOf depth loc) :
    loc <+: place ∧ ∃ content, t.node? place = some (.file content) := by
  induction depth generalizing loc with
  | zero => cases h
  | succ depth ih =>
    rcases t.filesWithin_cases entriesOf depth loc with hNone | ⟨hFile, hSelf⟩ | hBelow
    · rw [hNone] at h
      cases h
    · rw [hSelf, List.mem_singleton] at h
      subst h
      exact ⟨List.prefix_rfl, hFile⟩
    · rw [hBelow] at h
      obtain ⟨name, -, hName⟩ := List.mem_flatMap.mp h
      obtain ⟨hPrefix, hFile⟩ := ih hName
      exact ⟨(List.prefix_append loc [name]).trans hPrefix, hFile⟩

theorem mem_files (h : place ∈ t.files loc) :
    ∃ names content, place = loc ++ names ∧ t.node? place = some (.file content) := by
  obtain ⟨⟨names, rfl⟩, content, hFile⟩ := mem_filesWithin h
  exact ⟨names, content, rfl, hFile⟩

/-! ### Nothing twice -/

theorem prefix_of_mem_below {entry : Location × Node} (h : entry ∈ t.below loc) : loc <+: entry.1 := by
  have hBelow := (List.mem_filter.mp h).2
  simp only [Bool.and_eq_true] at hBelow
  exact List.isPrefixOf_iff_prefix.mp hBelow.1

/-- The names in a directory are the last names of different places. -/
theorem nodup_names (t : FileTree) (loc : Location) : (t.names loc).Nodup := by
  have hKeys : (t.below loc).Pairwise fun a b => a.1 ≠ b.1 := by
    refine List.Pairwise.filter _ (t.entries.distinct_keys_toList.imp ?_)
    rintro ⟨a, _⟩ ⟨b, _⟩ hKey rfl
    exact hKey Std.ReflCmp.compare_self
  have hDrops : (t.below loc).Pairwise fun a b => a.1.drop loc.length ≠ b.1.drop loc.length := by
    refine hKeys.imp_of_mem ?_
    intro a b hA hB hKey hDrop
    obtain ⟨restA, hPlaceA⟩ := prefix_of_mem_below hA
    obtain ⟨restB, hPlaceB⟩ := prefix_of_mem_below hB
    rw [← hPlaceA, ← hPlaceB, List.drop_left, List.drop_left] at hDrop
    exact hKey (by rw [← hPlaceA, ← hPlaceB, hDrop])
  refine hDrops.filterMap _ ?_
  rintro ⟨a, _⟩ ⟨b, _⟩ hDrop name hA _ hB rfl
  dsimp only at hDrop hA hB
  split at hA
  · rename_i hNameA
    cases hA
    split at hB
    · rename_i hNameB
      cases hB
      exact hDrop (hNameA.trans hNameB.symm)
    · cases hB
  · cases hA

/-! ### Nothing left out -/

/-- A regular file stands at the place, and all that is between it and `loc`, itself included, are directories. -/
def Listed (t : FileTree) (loc place : Location) : Prop :=
  ∃ names content, place = loc ++ names ∧ t.node? place = some (.file content) ∧
    ∀ above, above <+: names → above ≠ names → t.isDirectory (loc ++ above) = true

theorem le_foldl_max (entries : List (Location × Node)) (n : Nat) :
    n ≤ entries.foldl (fun n (at', _) => max n at'.length) n ∧
      ∀ entry ∈ entries, entry.1.length ≤ entries.foldl (fun n (at', _) => max n at'.length) n := by
  induction entries generalizing n with
  | nil => exact ⟨Nat.le_refl n, fun entry hEntry => absurd hEntry List.not_mem_nil⟩
  | cons first rest ih =>
    obtain ⟨hStart, hRest⟩ := ih (max n first.1.length)
    rw [List.foldl_cons]
    refine ⟨(Nat.le_max_left _ _).trans hStart, ?_⟩
    intro entry hEntry
    rcases List.mem_cons.mp hEntry with rfl | hLater
    · exact (Nat.le_max_right _ _).trans hStart
    · exact hRest entry hLater

theorem length_le_height {node : Node} (h : t.node? loc = some node) : loc.length ≤ t.height := by
  by_cases hRoot : loc = []
  · simp [hRoot]
  rw [node?, if_neg hRoot] at h
  exact (le_foldl_max t.entries.toList 0).2 _ (Std.ExtTreeMap.mem_toList_iff_getElem?_eq_some.mpr h)

theorem mem_names_iff {name : String} : name ∈ t.names loc ↔ t.node? (loc ++ [name]) ≠ none := by
  have hRoot : loc ++ [name] ≠ [] := by simp
  rw [names, List.mem_filterMap, node?, if_neg hRoot]
  constructor
  · rintro ⟨⟨place, node⟩, hBelow, hName⟩
    obtain ⟨rest, rfl⟩ := prefix_of_mem_below hBelow
    dsimp only at hName
    rw [List.drop_left] at hName
    split at hName
    · cases hName
      have hEntry := Std.ExtTreeMap.mem_toList_iff_getElem?_eq_some.mp (List.mem_filter.mp hBelow).1
      rw [hEntry]
      exact Option.some_ne_none node
    · cases hName
  · intro hSome
    obtain ⟨node, hNode⟩ := Option.ne_none_iff_exists'.mp hSome
    have hMem := Std.ExtTreeMap.mem_toList_iff_getElem?_eq_some.mpr hNode
    refine ⟨(loc ++ [name], node), List.mem_filter.mpr ⟨hMem, ?_⟩, ?_⟩
    · simp [List.isPrefixOf_iff_prefix]
    · dsimp only
      rw [List.drop_left]

theorem Listed.of_name {name : String} (hDir : t.isDirectory loc = true) (h : t.Listed (loc ++ [name]) place) :
    t.Listed loc place := by
  obtain ⟨names, content, rfl, hFile, hAbove⟩ := h
  refine ⟨name :: names, content, by simp, hFile, ?_⟩
  intro above hPrefix hOther
  cases above with
  | nil => rwa [List.append_nil]
  | cons first above =>
    obtain ⟨rfl, hRest⟩ := List.cons_prefix_cons.mp hPrefix
    have hDirBelow := hAbove above hRest fun hSame => hOther (by rw [hSame])
    rwa [List.append_assoc, List.singleton_append] at hDirBelow

/-- A listed file is the place itself or is listed from one of the names there. -/
theorem Listed.cases (h : t.Listed loc place) : place = loc ∨
    t.isDirectory loc = true ∧ ∃ name ∈ t.names loc, t.Listed (loc ++ [name]) place := by
  obtain ⟨names, content, rfl, hFile, hAbove⟩ := h
  cases names with
  | nil => exact .inl (List.append_nil loc)
  | cons name rest =>
    have hDir := hAbove [] List.nil_prefix (List.cons_ne_nil name rest).symm
    rw [List.append_nil] at hDir
    have hBelow : ∀ above, above <+: rest → above ≠ rest → t.isDirectory (loc ++ [name] ++ above) = true := by
      intro above hPrefix hOther
      rw [List.append_assoc]
      refine hAbove _ (List.cons_prefix_cons.mpr ⟨rfl, hPrefix⟩) ?_
      exact fun hSame => hOther (List.cons.inj hSame).2
    refine .inr ⟨hDir, name, mem_names_iff.mpr ?_, rest, content, by simp, hFile, hBelow⟩
    cases rest with
    | nil => exact hFile ▸ Option.some_ne_none _
    | cons next rest =>
      have hNext := hBelow [] List.nil_prefix (List.cons_ne_nil next rest).symm
      rw [List.append_nil] at hNext
      obtain ⟨node, hNode, -⟩ := isDirectory_iff.mp hNext
      exact hNode ▸ Option.some_ne_none node

/-- Deep enough, a listing finds every file that can be reached through directories. -/
theorem mem_filesWithin_names_iff {depth : Nat} (hDepth : place.length < loc.length + depth) :
    place ∈ t.filesWithin t.names depth loc ↔ t.Listed loc place := by
  induction depth generalizing loc with
  | zero =>
    refine iff_of_false List.not_mem_nil ?_
    rintro ⟨names, content, rfl, -⟩
    rw [List.length_append] at hDepth
    omega
  | succ depth ih =>
    have hStep (name : String) :
        place ∈ t.filesWithin t.names depth (loc ++ [name]) ↔ t.Listed (loc ++ [name]) place := by
      refine ih ?_
      rw [List.length_append, List.length_singleton]
      omega
    have hNone (hDir : t.isDirectory loc = false) (hFile : ∀ content, t.node? loc ≠ some (.file content)) :
        ¬t.Listed loc place := by
      intro hListed
      rcases hListed.cases with rfl | ⟨hLoc, -⟩
      · obtain ⟨-, content, -, hContent, -⟩ := hListed
        exact hFile content hContent
      · cases hDir.symm.trans hLoc
    have hBelow (hDir : t.isDirectory loc = true) (hFile : ∀ content, t.node? loc ≠ some (.file content)) :
        (place ∈ ((t.names loc).mergeSort fun a b => decide (a ≤ b)).flatMap fun name =>
          t.filesWithin t.names depth (loc ++ [name])) ↔ t.Listed loc place := by
      simp only [List.mem_flatMap, List.mem_mergeSort, hStep]
      constructor
      · rintro ⟨name, -, hListed⟩
        exact hListed.of_name hDir
      · intro hListed
        rcases hListed.cases with rfl | ⟨-, hName⟩
        · obtain ⟨-, content, -, hContent, -⟩ := hListed
          exact absurd hContent (hFile content)
        · exact hName
    rw [filesWithin]
    cases hNode : t.node? loc with
    | none => exact iff_of_false List.not_mem_nil (hNone (by simp [isDirectory, hNode]) (by simp [hNode]))
    | some node =>
      cases node with
      | directory =>
        exact hBelow (by simp [isDirectory, hNode, Node.isDirectory]) (by simp [hNode])
      | systemDirectory =>
        exact hBelow (by simp [isDirectory, hNode, Node.isDirectory]) (by simp [hNode])
      | file content =>
        rw [List.mem_singleton]
        constructor
        · rintro rfl
          exact ⟨[], content, (List.append_nil _).symm, hNode, fun above hPrefix hOther =>
            absurd (List.prefix_nil.mp hPrefix) hOther⟩
        · intro hListed
          rcases hListed.cases with hSame | ⟨hDir, -⟩
          · exact hSame
          · simp [isDirectory, hNode, Node.isDirectory] at hDir
      | link target =>
        exact iff_of_false List.not_mem_nil (hNone (by simp [isDirectory, hNode, Node.isDirectory]) (by simp [hNode]))
      | sink =>
        exact iff_of_false List.not_mem_nil (hNone (by simp [isDirectory, hNode, Node.isDirectory]) (by simp [hNode]))

theorem mem_files_iff : place ∈ t.files loc ↔ t.Listed loc place := by
  by_cases hDepth : place.length < loc.length + (t.height + 1)
  · exact mem_filesWithin_names_iff hDepth
  · constructor
    · intro hMem
      obtain ⟨-, content, -, hFile⟩ := mem_files hMem
      have hLength := length_le_height hFile
      omega
    · rintro ⟨-, content, -, hFile, -⟩
      have hLength := length_le_height hFile
      omega

/-! ### In order -/

theorem pairwise_le_mergeSort (names : List String) :
    (names.mergeSort fun a b => decide (a ≤ b)).Pairwise (· ≤ ·) := by
  have hSorted : (names.mergeSort fun a b => decide (a ≤ b)).Pairwise fun a b => decide (a ≤ b) = true := by
    refine List.pairwise_mergeSort ?_ ?_ names
    · intro a b c hab hbc
      rw [decide_eq_true_eq] at hab hbc ⊢
      exact String.le_trans hab hbc
    · intro a b
      simpa using String.le_total a b
  exact hSorted.imp of_decide_eq_true

theorem mergeSort_eq_of_perm {names names' : List String} (h : names.Perm names') :
    (names.mergeSort fun a b => decide (a ≤ b)) = names'.mergeSort fun a b => decide (a ≤ b) := by
  refine List.Perm.eq_of_pairwise ?_ (pairwise_le_mergeSort names) (pairwise_le_mergeSort names') ?_
  · exact fun a b _ _ hab hba => String.le_antisymm hab hba
  · exact ((List.mergeSort_perm names _).trans h).trans (List.mergeSort_perm names' _).symm

theorem pairwise_lt_mergeSort {names : List String} (h : names.Nodup) :
    (names.mergeSort fun a b => decide (a ≤ b)).Pairwise (· < ·) := by
  have hNodup : (names.mergeSort fun a b => decide (a ≤ b)).Nodup := (List.mergeSort_perm names _).nodup_iff.mpr h
  refine ((pairwise_le_mergeSort names).and hNodup).imp ?_
  rintro a b ⟨hle, hne⟩
  exact Std.lt_of_le_of_ne hle hne

/-- The order in which the entries of a directory are handed out does not matter. -/
theorem filesWithin_eq_of_perm {order : Location → List String} (h : ∀ loc, (order loc).Perm (entriesOf loc))
    (depth : Nat) (loc : Location) : t.filesWithin order depth loc = t.filesWithin entriesOf depth loc := by
  induction depth generalizing loc with
  | zero => rfl
  | succ depth ih =>
    have hBelow (name : String) : t.filesWithin order depth (loc ++ [name]) =
        t.filesWithin entriesOf depth (loc ++ [name]) := ih (loc ++ [name])
    rw [filesWithin, filesWithin, mergeSort_eq_of_perm (h loc)]
    simp only [hBelow]

theorem pairwise_lt_filesWithin (hEntries : ∀ loc, (entriesOf loc).Nodup) (depth : Nat) (loc : Location) :
    (t.filesWithin entriesOf depth loc).Pairwise (· < ·) := by
  induction depth generalizing loc with
  | zero => exact List.Pairwise.nil
  | succ depth ih =>
    rcases t.filesWithin_cases entriesOf depth loc with hNone | ⟨-, hSelf⟩ | hBelow
    · exact hNone ▸ List.Pairwise.nil
    · exact hSelf ▸ List.pairwise_singleton _ loc
    · rw [hBelow, List.pairwise_flatMap]
      refine ⟨fun name _ => ih (loc ++ [name]), (pairwise_lt_mergeSort (hEntries loc)).imp ?_⟩
      intro a b hLess first hFirst second hSecond
      obtain ⟨⟨restA, rfl⟩, -⟩ := mem_filesWithin hFirst
      obtain ⟨⟨restB, rfl⟩, -⟩ := mem_filesWithin hSecond
      rw [List.append_assoc, List.append_assoc]
      exact List.append_left_lt (List.cons_lt_cons_iff.mpr (.inl hLess))

theorem pairwise_lt_files (t : FileTree) (loc : Location) : (t.files loc).Pairwise (· < ·) :=
  pairwise_lt_filesWithin t.nodup_names _ loc

theorem lt_of_append_left {names names' : List String} (h : loc ++ names < loc ++ names') : names < names' := by
  induction loc with
  | nil => exact h
  | cons name rest ih => exact ih ((List.cons_lt_cons_iff.mp h).resolve_left (String.lt_irrefl name)).2

theorem nodup_files (t : FileTree) (loc : Location) : (t.files loc).Nodup := by
  refine (t.pairwise_lt_files loc).imp ?_
  rintro place _ hLess rfl
  exact List.lt_irrefl place hLess

/-! ### Where a listing starts -/

theorem resolve_of_listingRoot (h : t.listingRoot dir p = .ok (some loc)) : t.resolve dir p = .ok loc := by
  obtain ⟨entry, hEntry, hRest⟩ := bind_eq_ok_iff.mp h
  split at hRest
  · obtain ⟨found, hFound, hSome⟩ := bind_eq_ok_iff.mp hRest
    split at hSome
    · cases hSome
      exact hFound
    · cases hSome
  · rename_i hLink
    cases hRest
    exact resolve_of_resolveEntry hEntry fun target hTarget => hLink target hTarget

/-- A path to a directory names that directory, or a link to it. -/
theorem resolveEntry_of_resolve (h : t.resolve dir p = .ok loc) (hDir : t.isDirectory loc = true) :
    ∃ entry, t.resolveEntry dir p = .ok entry ∧ (entry = loc ∨ ∃ target, t.node? entry = some (.link target)) := by
  obtain ⟨hStart, left, hLeads⟩ := resolve_eq_ok_iff.mp h
  by_cases hName : ∃ name, (Ending.ofSegments p.segments).2 = .name name false
  · obtain ⟨name, hEnds⟩ := hName
    obtain ⟨hIsName, hSegments⟩ := name_of_ofSegments (fun _ => Path.slash_not_mem_of_mem_segments) hEnds
    rw [hSegments rfl] at hLeads
    obtain ⟨parent, middle, hBefore, hEnding⟩ := Leads.split _ _ hLeads
    have hParent := hEnding.isDirectory_start hDir
    have hEntry : t.entryOf dir p = .ok (parent, .name name false) :=
      entryOf_eq_ok_iff.mpr ⟨hStart, ⟨middle, hBefore⟩, hParent, hEnds.symm⟩
    have hNamed {node : Node} (hRequire : requireName name = .ok ()) (hNode : t.node? (parent ++ [name]) = some node) :
        t.resolveEntry dir p = .ok (parent ++ [name]) :=
      (resolveEntry_eq_ok_iff hEnds).mpr ⟨parent, hEntry, hRequire, rfl, Option.isSome_of_eq_some hNode⟩
    cases hEnding with
    | stay _ hTrivial _ =>
      rw [(stepOf?_eq_name_iff.mp hIsName.stepOf?_eq).1] at hTrivial
      cases hTrivial
    | up _ _ => exact absurd rfl hIsName.not_parent
    | down _ _ hRequire hNode _ hRest =>
      cases hRest
      exact ⟨_, hNamed hRequire hNode, .inl rfl⟩
    | link _ _ hRequire hNode _ => exact ⟨_, hNamed hRequire hNode, .inr ⟨_, hNode⟩⟩
  · obtain ⟨parent, ending, hEntry, -⟩ := entryOf_of_leads hStart hLeads hDir
    refine ⟨loc, bind_eq_ok_iff.mpr ⟨_, hEntry, ?_⟩, .inl rfl⟩
    dsimp only
    split
    · exact absurd ⟨_, (ending_of_entryOf hEntry).symm⟩ hName
    · exact h

theorem listingRoot_of_resolve (h : t.resolve dir p = .ok loc) (hDir : t.isDirectory loc = true) :
    t.listingRoot dir p = .ok (some loc) := by
  obtain ⟨entry, hEntry, hCases⟩ := resolveEntry_of_resolve h hDir
  refine bind_eq_ok_iff.mpr ⟨entry, hEntry, ?_⟩
  split
  · exact bind_eq_ok_iff.mpr ⟨loc, h, by rw [if_pos hDir]⟩
  · rename_i hLink
    rcases hCases with rfl | ⟨target, hTarget⟩
    · rfl
    · exact absurd hTarget (hLink target)

theorem pathBelow_append (p : Path) (loc : Location) (names : List String) :
    pathBelow p loc (loc ++ names) = p.joinNames names := by
  rw [pathBelow, List.drop_left, Path.joinNames]

end ClientRegistry.FileTree
