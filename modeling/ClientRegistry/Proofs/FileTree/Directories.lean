import ClientRegistry.Proofs.FileTree.Entries
import ClientRegistry.Proofs.Path.Ancestors

/-!
# Directories made on the way

Making a directory with all that are missing above it adds ordinary directories, each where one of the
paths above leads, and nothing else. If it fails, one of these paths is no directory and cannot be
made one, for the cause that is given.
-/

set_option autoImplicit false

namespace ClientRegistry

/-! ### Endings as segments -/

def Ending.moves : Ending → List String
  | root | dot => []
  | dotDot => [".."]
  | name text _ => [text]

def Component.spelling : Component → String
  | root => ""
  | current => "."
  | parent => ".."
  | name text => text

namespace FileTree

variable {s t made : FileTree} {dir loc parent : Location} {p q : Path} {segments : List String} {name : String}
  {slash : Bool} {paths more : List Path} {cause : FileFailure}

theorem moves_dropWhile_reverse (segments : List String) :
    moves segments = moves (segments.reverse.dropWhile (· == "")).reverse := by
  induction segments using List.reverseRecOn with
  | nil => rfl
  | append_singleton init last ih =>
    rw [List.reverse_append, List.reverse_singleton, List.singleton_append, List.dropWhile_cons]
    split
    · rename_i hEmpty
      have hTrivial : Path.isTrivial last = true := by simp [Path.isTrivial, hEmpty]
      rw [moves_append, moves_cons_trivial hTrivial, ih]
      exact List.append_nil _
    · rw [List.reverse_cons, List.reverse_reverse]

/-- The steps of a path are those before its ending, and the ending's own. -/
theorem moves_ofSegments (segments : List String) :
    moves segments = moves (Ending.ofSegments segments).1 ++ (Ending.ofSegments segments).2.moves := by
  rw [moves_dropWhile_reverse]
  have hLast := List.rdropWhile_last_not (· == "") segments
  unfold List.rdropWhile at hLast
  unfold Ending.ofSegments
  dsimp only
  generalize (segments.reverse.dropWhile (· == "")).reverse = core at hLast ⊢
  rcases List.eq_nil_or_concat core with rfl | ⟨init, last, rfl⟩
  · rfl
  · rw [List.concat_eq_append] at hLast ⊢
    have hEmpty : last ≠ "" := by simpa using hLast (by simp)
    rw [List.getLast?_concat, List.dropLast_concat, moves_append]
    split
    · rename_i hNone
      cases hNone
    · rename_i hDot
      cases hDot
      rfl
    · rename_i hDotDot
      cases hDotDot
      rfl
    · rename_i hCurrent hParent hName
      cases hName
      have hTrivial : Path.isTrivial last = false := by
        simpa [Path.isTrivial, hEmpty] using hCurrent
      rw [moves_cons_step hTrivial]
      rfl

theorem moves_segments (p : Path) : moves p.segments = p.steps.map Component.spelling := by
  rw [Path.steps]
  induction p.segments with
  | nil => rfl
  | cons segment rest ih =>
    cases hStep : Path.stepOf? segment with
    | none => rw [moves_cons_trivial (Path.stepOf?_eq_none_iff.mp hStep), ih, List.filterMap_cons_none hStep]
    | some c =>
      have hTrivial : Path.isTrivial segment = false := by
        rw [← Bool.not_eq_true, ← Path.stepOf?_eq_none_iff, hStep]
        exact Option.some_ne_none c
      have hSpelling : c.spelling = segment := by
        unfold Path.stepOf? at hStep
        rw [if_neg (by simp [hTrivial])] at hStep
        split at hStep
        · rename_i hParent
          cases hStep
          exact (beq_iff_eq.mp hParent).symm
        · cases hStep
          rfl
      rw [moves_cons_step hTrivial, ih, List.filterMap_cons_some hStep, List.map_cons, hSpelling]

/-! ### Paths to directories -/

theorem resolve_of_entryOf_directory (hEntry : t.entryOf dir p = .ok (parent, .name name slash))
    (hName : requireName name = .ok ()) (hFound : t.isDirectory (parent ++ [name]) = true) :
    t.resolve dir p = .ok (parent ++ [name]) := by
  obtain ⟨hStart, ⟨left, hLeads⟩, hDir, hEnding⟩ := entryOf_eq_ok_iff.mp hEntry
  have hIsName := isName_of_entryOf hEntry
  obtain ⟨node, hNode, hNodeDir⟩ := isDirectory_iff.mp hFound
  have hLink : ∀ target, node ≠ .link target := by
    rintro target rfl
    cases hNodeDir
  refine resolve_eq_ok_iff.mpr ⟨hStart, left, (leads_moves_iff hFound).mp ?_⟩
  rw [moves_ofSegments, ← hEnding]
  exact ((leads_moves_iff hDir).mpr hLeads).append (.down hDir hIsName.stepOf?_eq hName hNode hLink .here)

/-- A path to a directory names something that is there. -/
theorem entryOf_of_leads {left : Nat} (hStart : start dir p = .ok (linkStart dir p.text))
    (hLeads : t.Leads maxLinks (linkStart dir p.text).1 p.segments loc left) (hDir : t.isDirectory loc = true) :
    ∃ parent ending, t.entryOf dir p = .ok (parent, ending) ∧
      ∀ name slash, ending = .name name slash → t.node? (parent ++ [name]) ≠ none := by
  have hMoves := (leads_moves_iff hDir).mpr hLeads
  rw [moves_ofSegments] at hMoves
  obtain ⟨parent, middle, hBefore, hEnding⟩ := Leads.split _ _ hMoves
  have hParent := hEnding.isDirectory_start hDir
  refine ⟨parent, _, entryOf_eq_ok_iff.mpr ⟨hStart, ⟨middle, (leads_moves_iff hParent).mp hBefore⟩, hParent, rfl⟩, ?_⟩
  intro name slash hName
  have hIsName := (name_of_ofSegments (fun _ => Path.slash_not_mem_of_mem_segments) hName).1
  rw [hName] at hEnding
  cases hEnding with
  | stay _ hTrivial _ =>
    rw [(stepOf?_eq_name_iff.mp hIsName.stepOf?_eq).1] at hTrivial
    cases hTrivial
  | up _ _ => exact absurd rfl hIsName.not_parent
  | down _ _ _ hNode _ _ => exact hNode ▸ Option.some_ne_none _
  | link _ _ _ hNode _ => exact hNode ▸ Option.some_ne_none _

/-! ### What is made -/

/-- What stands in the second tree and not in the first one are directories, each in an ordinary one,
where the paths lead. -/
structure MakesWay (dir : Location) (paths : List Path) (t made : FileTree) : Prop where
  within : t.Within made
  added : ∀ loc node, made.node? loc = some node → t.node? loc = some node ∨
    t.node? loc = none ∧ node = .directory ∧ made.node? loc.dropLast = some .directory ∧
      ∃ q ∈ paths, made.resolve dir q = .ok loc

theorem MakesWay.refl (dir : Location) (paths : List Path) (t : FileTree) : MakesWay dir paths t t :=
  ⟨Within.refl t, fun _ _ => .inl⟩

theorem MakesWay.trans (h : MakesWay dir paths s t) (h' : MakesWay dir paths t made) : MakesWay dir paths s made where
  within := h.within.trans h'.within
  added := by
    intro loc node hNode
    rcases h'.added loc node hNode with hBefore | ⟨hFree, hNew⟩
    · rcases h.added loc node hBefore with hFirst | ⟨hFree, hDirectory, hParent, q, hq, hLoc⟩
      · exact .inl hFirst
      · exact .inr ⟨hFree, hDirectory, h'.within _ _ hParent, q, hq, h'.within.resolve hLoc⟩
    · refine .inr ⟨?_, hNew⟩
      cases hOld : s.node? loc with
      | none => rfl
      | some old => cases hFree.symm.trans (h.within loc old hOld)

theorem MakesWay.mono (h : MakesWay dir paths t made) (hPaths : paths ⊆ more) : MakesWay dir more t made where
  within := h.within
  added := by
    intro loc node hNode
    rcases h.added loc node hNode with hOld | ⟨hFree, hDirectory, hParent, q, hq, hLoc⟩
    · exact .inl hOld
    · exact .inr ⟨hFree, hDirectory, hParent, q, hPaths hq, hLoc⟩

theorem node?_eq_directory (h : t.isDirectory loc = true) (hOrdinary : t.node? loc ≠ some .systemDirectory) :
    t.node? loc = some .directory := by
  obtain ⟨node, hNode, hIsDir⟩ := isDirectory_iff.mp h
  cases node with
  | directory => exact hNode
  | systemDirectory => exact absurd hNode hOrdinary
  | file content | link target | sink => cases hIsDir

theorem makesWay_of_makeDirectory (h : t.makeDirectory dir p = .ok made) :
    MakesWay dir [p] t made ∧ ∃ loc, made.resolve dir p = .ok loc ∧ made.isDirectory loc = true := by
  have hWithin := (adds_of_makeDirectory h).grows.within
  obtain ⟨parent, name, slash, hEntry, hFree, hRoom, rfl⟩ := makeDirectory_eq_ok_iff.mp h
  obtain ⟨hName, hOrdinary⟩ := requireRoom_eq_ok_iff.mp hRoom
  have hNew := t.node?_put_self .directory (show parent ++ [name] ≠ [] by simp)
  have hDir : (t.put (parent ++ [name]) .directory).isDirectory (parent ++ [name]) = true :=
    isDirectory_iff.mpr ⟨_, hNew, rfl⟩
  have hResolve := resolve_of_entryOf_directory (hWithin.keepsWays.entryOf hEntry) hName hDir
  refine ⟨⟨hWithin, fun loc node hNode => ?_⟩, parent ++ [name], hResolve, hDir⟩
  by_cases hLoc : loc = parent ++ [name]
  · subst hLoc
    obtain rfl := Option.some.inj (hNew.symm.trans hNode)
    refine .inr ⟨hFree, rfl, ?_, p, List.mem_singleton_self p, hResolve⟩
    rw [List.dropLast_concat]
    exact hWithin _ _ (node?_eq_directory (entryOf_eq_ok_iff.mp hEntry).2.2.1 hOrdinary)
  · exact .inl (by rwa [node?_put_of_ne t _ hLoc] at hNode)

theorem makesWay_makeDirectoryChain (t : FileTree) (dir : Location) (paths : List Path) :
    MakesWay dir paths t (t.makeDirectoryChain dir paths).1 := by
  induction paths with
  | nil => exact MakesWay.refl dir [] t
  | cons p up ih =>
    have hFirst : [p] ⊆ p :: up := by simp
    rw [makeDirectoryChain]
    split
    · exact MakesWay.refl dir _ t
    split
    · rename_i made hMade
      exact (makesWay_of_makeDirectory hMade).1.mono hFirst
    · split
      · rename_i made e hChain
        rw [hChain] at ih
        exact ih.mono (List.subset_cons_self p up)
      · rename_i made hChain
        rw [hChain] at ih
        have hAbove := ih.mono (List.subset_cons_self p up)
        split
        · rename_i done hDone
          exact hAbove.trans ((makesWay_of_makeDirectory hDone).1.mono hFirst)
        · exact hAbove
    · exact MakesWay.refl dir _ t

theorem makesWay_makeDirectories (t : FileTree) (dir : Location) (p : Path) :
    MakesWay dir p.ancestors t (t.makeDirectories dir p).1 :=
  t.makesWay_makeDirectoryChain dir p.ancestors

theorem isDirectoryAt_iff : t.isDirectoryAt dir p = true ↔
    ∃ loc, t.resolve dir p = .ok loc ∧ t.isDirectory loc = true := by
  unfold isDirectoryAt
  split
  · rename_i loc hLoc
    constructor
    · exact fun hDir => ⟨loc, hLoc, hDir⟩
    · rintro ⟨other, hOther, hDir⟩
      obtain rfl := Except.ok.inj (hLoc.symm.trans hOther)
      exact hDir
  · rename_i e hError
    constructor
    · exact fun hDir => absurd hDir Bool.false_ne_true
    · rintro ⟨other, hOther, -⟩
      cases hError.symm.trans hOther

theorem isDirectoryAt_of_makeDirectoryChain {up : List Path} (hText : p.text ≠ "")
    (h : t.makeDirectoryChain dir (p :: up) = (made, .ok ())) : made.isDirectoryAt dir p = true := by
  rw [makeDirectoryChain, if_neg (by simpa using hText)] at h
  split at h
  · rename_i hMade
    cases h
    exact isDirectoryAt_iff.mpr (makesWay_of_makeDirectory hMade).2
  · split at h
    · cases h
    · split at h
      · rename_i hDone
        cases h
        exact isDirectoryAt_iff.mpr (makesWay_of_makeDirectory hDone).2
      · split at h
        · rename_i hDir
          cases h
          exact hDir
        · cases h
  · split at h
    · rename_i hDir
      cases h
      exact hDir
    · cases h

theorem makesWay_of_makeDirectories {result : Except FileFailure Unit} (h : t.makeDirectories dir p = (made, result)) :
    MakesWay dir p.ancestors t made := by
  have hWay := t.makesWay_makeDirectories dir p
  rwa [h] at hWay

theorem isDirectoryAt_of_makeDirectories (hText : p.text ≠ "") (h : t.makeDirectories dir p = (made, .ok ())) :
    made.isDirectoryAt dir p = true := by
  obtain ⟨above, hAbove⟩ := Path.exists_ancestors_eq_cons p
  rw [makeDirectories, hAbove] at h
  exact isDirectoryAt_of_makeDirectoryChain hText h

/-- What has not been made is the fault of one of the paths, which then is no directory. -/
theorem blocked_of_makeDirectoryChain (h : t.makeDirectoryChain dir paths = (made, .error cause)) :
    ∃ q ∈ paths, q.text ≠ "" ∧ made.isDirectoryAt dir q = false ∧ made.makeDirectory dir q = .error cause := by
  induction paths with
  | nil => cases h
  | cons p up ih =>
    rw [makeDirectoryChain] at h
    split at h
    · cases h
    rename_i hText
    have hText : p.text ≠ "" := by simpa using hText
    split at h
    · cases h
    · split at h
      · rename_i hChain
        cases h
        obtain ⟨q, hq, hBlocked⟩ := ih hChain
        exact ⟨q, List.mem_cons_of_mem p hq, hBlocked⟩
      · split at h
        · cases h
        · rename_i hFails
          split at h
          · cases h
          · rename_i hDir
            cases h
            exact ⟨p, List.mem_cons_self, hText, by simpa using hDir, hFails⟩
    · rename_i hFails
      split at h
      · cases h
      · rename_i hDir
        cases h
        exact ⟨p, List.mem_cons_self, hText, by simpa using hDir, hFails⟩

theorem start_cases (dir : Location) (hText : p.text ≠ "") :
    start dir p = .ok (linkStart dir p.text) ∨ ∃ e, start dir p = .error e ∧ e ≠ .notFound := by
  unfold start
  split
  · exact .inr ⟨_, rfl, by decide⟩
  rw [if_neg (by simpa using hText)]
  split
  · exact .inr ⟨_, rfl, by decide⟩
  · exact .inl rfl

theorem makeDirectory_of_leads {left : Nat} (hText : p.text ≠ "")
    (hLeads : t.Leads maxLinks (linkStart dir p.text).1 p.segments loc left) (hDir : t.isDirectory loc = true) :
    ∃ e, t.makeDirectory dir p = .error e ∧ e ≠ .notFound := by
  rcases start_cases dir hText with hStart | ⟨e, hStart, hKnown⟩
  · obtain ⟨parent, ending, hEntry, hNode⟩ := entryOf_of_leads hStart hLeads hDir
    unfold makeDirectory
    rw [hEntry]
    cases ending with
    | name text slash =>
      have hTaken : (t.node? (parent ++ [text])).isSome = true := Option.isSome_iff_ne_none.mpr (hNode text slash rfl)
      cases hName : requireName text with
      | error e =>
        refine ⟨e, by simp only [Bind.bind, Except.bind, hName], ?_⟩
        rintro rfl
        unfold requireName at hName
        split at hName
        all_goals cases hName
      | ok _ =>
        refine ⟨.alreadyExists, ?_, by decide⟩
        simp only [Bind.bind, Except.bind, hName, if_pos hTaken]
    | root | dot | dotDot => exact ⟨.alreadyExists, rfl, by decide⟩
  · refine ⟨e, ?_, hKnown⟩
    unfold makeDirectory entryOf
    rw [hStart]
    rfl

theorem makeDirectories_of_leads {left : Nat}
    (hLeads : t.Leads maxLinks (linkStart dir p.text).1 p.segments loc left) (hDir : t.isDirectory loc = true) :
    (t.makeDirectories dir p).1 = t := by
  obtain ⟨up, hUp⟩ := Path.exists_ancestors_eq_cons p
  rw [makeDirectories, hUp, makeDirectoryChain]
  split
  · rfl
  rename_i hText
  obtain ⟨e, hError, hKnown⟩ := makeDirectory_of_leads (by simpa using hText) hLeads hDir
  rw [hError]
  split
  · rename_i hMade
    cases hMade
  · rename_i hNotFound
    cases hNotFound
    exact absurd rfl hKnown
  · rfl

end FileTree

end ClientRegistry
