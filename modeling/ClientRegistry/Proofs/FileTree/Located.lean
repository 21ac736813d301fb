import ClientRegistry.Proofs.FileTree.NamedEntry

/-!
# A directory at the end of names

A directory that is reached from the root's one down names, with no link on the way, has its place before it
is there, and even before the directories above it are: they can be made, and nothing else is on the way.
-/

set_option autoImplicit false

namespace ClientRegistry.FileTree

variable {s t v ready : FileTree} {dir loc base found : Location} {root outDir : Path} {names up : List String}
  {name : String} {links left : Nat}

/-! ### Names without links -/

/-- Names lead where they lead in every tree with the same nodes on the way, and use no links up. -/
theorem Leads.along_congr (h : t.Leads links loc names found left) (hNames : ∀ name ∈ names, IsName name)
    (hLink : ∀ below, below ≠ [] → below <+: names → ∀ target, t.node? (loc ++ below) ≠ some (.link target))
    (hSame : ∀ above, above <+: names → v.node? (loc ++ above) = t.node? (loc ++ above)) (spare : Nat) :
    v.Leads spare loc names found spare := by
  induction names generalizing loc links with
  | nil =>
    cases h
    exact .here
  | cons name rest ih =>
    have hIsName := hNames name List.mem_cons_self
    have hLocSame := hSame [] List.nil_prefix
    rw [List.append_nil] at hLocSame
    cases h with
    | stay _ hTrivial _ =>
      rw [(stepOf?_eq_name_iff.mp hIsName.stepOf?_eq).1] at hTrivial
      cases hTrivial
    | up _ _ => exact absurd rfl hIsName.not_parent
    | link _ _ _ hNode _ => exact absurd hNode (hLink [name] (by simp) (List.prefix_append [name] rest) _)
    | @down _ _ _ _ _ _ node hDir hStep hName hNode hNoLink hRest =>
      have hDirThere : v.isDirectory loc = true := by rwa [isDirectory, hLocSame]
      have hNodeThere : v.node? (loc ++ [name]) = some node :=
        (hSame [name] (List.prefix_append [name] rest)).trans hNode
      refine .down hDirThere hStep hName hNodeThere hNoLink (ih hRest ?_ ?_ ?_)
      · exact fun n hn => hNames n (List.mem_cons_of_mem _ hn)
      · intro below hBelow hPrefix
        rw [List.append_assoc]
        exact hLink _ (by simp) (List.cons_prefix_cons.mpr ⟨rfl, hPrefix⟩)
      · intro above hPrefix
        rw [List.append_assoc]
        exact hSame _ (List.cons_prefix_cons.mpr ⟨rfl, hPrefix⟩)

/-! ### The place of a directory -/

/-- The output directory lies under the root's directory, down some names, the last of which its path ends in,
and no link is on the way. -/
structure Located (t : FileTree) (dir : Location) (root outDir : Path) (base up : Location) (name : String) : Prop where
  relative : outDir.isAbsolute = false
  steps : outDir.steps = (up ++ [name]).map .name
  ending : ∃ slash, (Ending.ofSegments (root.join outDir).segments).2 = .name name slash
  root : t.resolve dir root = .ok base
  isDirectory : t.isDirectory base = true
  plain : ∀ below, below ≠ [] → below <+: up → ∀ target, t.node? (base ++ below) ≠ some (.link target)

namespace Located

theorem isName (h : Located t dir root outDir base up name) : ∀ n ∈ up ++ [name], IsName n := by
  intro n hn
  have hStep : Component.name n ∈ outDir.steps := h.steps ▸ List.mem_map_of_mem hn
  rcases Path.step_of_mem_steps hStep with hParent | ⟨other, hOther, hIsName⟩
  · cases hParent
  · cases hOther
    exact hIsName

theorem isAbsolute_join (h : Located t dir root outDir base up name) :
    (root.join outDir).isAbsolute = root.isAbsolute :=
  Path.isAbsolute_join_of_relative root h.relative

theorem start_eq (h : Located t dir root outDir base up name) (dir : Location) :
    (linkStart dir (root.join outDir).text).1 = (linkStart dir root.text).1 :=
  linkStart_fst_eq dir (Bool.eq_iff_iff.mp h.isAbsolute_join)

theorem moves_eq (h : Located t dir root outDir base up name) :
    moves (root.join outDir).segments = moves root.segments ++ (up ++ [name]) := by
  rw [moves_segments, moves_segments, Path.steps_join root h.relative, h.steps, List.map_append, List.map_map]
  congr 1
  exact List.map_id _

theorem split (h : Located t dir root outDir base up name) {rest : List String} {middle : Nat}
    (hLeads : t.Leads links (linkStart dir root.text).1 (moves root.segments ++ rest) found middle)
    (hDir : t.isDirectory found = true) : ∃ left, t.Leads left base rest found middle := by
  obtain ⟨halfway, left, hRoot, hRest⟩ := Leads.split _ _ hLeads
  obtain ⟨-, _, hBase⟩ := resolve_eq_ok_iff.mp h.root
  obtain rfl := ((leads_moves_iff (hRest.isDirectory_start hDir)).mp hRoot).found_unique hBase
  exact ⟨left, hRest⟩

theorem plain_concat (h : Located t dir root outDir base up name)
    (hLink : ∀ target, t.node? (base ++ up ++ [name]) ≠ some (.link target)) :
    ∀ below, below ≠ [] → below <+: up ++ [name] → ∀ target, t.node? (base ++ below) ≠ some (.link target) := by
  intro below hBelow hPrefix
  rcases List.prefix_concat_iff.mp hPrefix with rfl | hUp
  · rwa [← List.append_assoc]
  · exact h.plain below hBelow hUp

/-- What the path of the directory leads to, if anything. -/
theorem found_eq (h : Located t dir root outDir base up name)
    (hLink : ∀ target, t.node? (base ++ up ++ [name]) ≠ some (.link target))
    (hMoves : t.Leads links (linkStart dir root.text).1 (moves (root.join outDir).segments) found left) :
    found = base ++ up ++ [name] ∧ t.node? found ≠ none ∧
      ∃ middle, t.Leads middle base up (base ++ up) middle ∧ t.isDirectory (base ++ up) = true := by
  rw [h.moves_eq, ← List.append_assoc] at hMoves
  obtain ⟨halfway, middle, hAbove, hLast⟩ := Leads.split _ _ hMoves
  have hDir := hLast.isDirectory_of_cons
  obtain ⟨before, hUp⟩ := h.split hAbove hDir
  have hUpName : ∀ n ∈ up, IsName n := fun n hn => h.isName n (List.mem_append_left _ hn)
  obtain ⟨rfl, -⟩ := hUp.along_names hUpName h.plain
  have hIsName := h.isName name (List.mem_append_right _ (List.mem_singleton_self name))
  obtain ⟨-, hFound, hSome⟩ := hLast.of_name hIsName hLink
  exact ⟨hFound, hSome, before, hUp.along_congr hUpName h.plain (fun _ _ => rfl) before, hDir⟩

theorem moves_ofSegments_eq (h : Located t dir root outDir base up name) :
    moves (Ending.ofSegments (root.join outDir).segments).1 = moves root.segments ++ up := by
  obtain ⟨slash, hEnding⟩ := h.ending
  have hMoves := moves_ofSegments (root.join outDir).segments
  rw [h.moves_eq, hEnding, ← List.append_assoc] at hMoves
  exact (List.append_cancel_right hMoves).symm

/-- The path names its entry where the names above it lead in a tree that has the same on the way. -/
theorem namesEntry (h : Located v dir root outDir base up name)
    (hStart : start dir (root.join outDir) = .ok (linkStart dir (root.join outDir).text))
    (hUp : t.Leads links base up (base ++ up) left) (hDir : t.isDirectory (base ++ up) = true)
    (hSame : ∀ above, above <+: up → v.node? (base ++ above) = t.node? (base ++ above)) :
    v.NamesEntry dir (root.join outDir) (base ++ up) name := by
  obtain ⟨slash, hEnding⟩ := h.ending
  obtain ⟨-, middle, hRoot⟩ := resolve_eq_ok_iff.mp h.root
  have hUpDir : v.isDirectory (base ++ up) = true := by rwa [FileTree.isDirectory, hSame up List.prefix_rfl]
  have hDown := hUp.along_congr (fun n hn => h.isName n (List.mem_append_left _ hn))
    (fun below hBelow hPrefix target => hSame below hPrefix ▸ h.plain below hBelow hPrefix target) hSame middle
  have hAll := ((leads_moves_iff h.isDirectory).mpr hRoot).append hDown
  rw [← h.moves_ofSegments_eq, ← h.start_eq dir, leads_moves_iff hUpDir] at hAll
  exact ⟨slash, entryOf_eq_ok_iff.mpr ⟨hStart, ⟨_, hAll⟩, hUpDir, hEnding.symm⟩⟩

/-! ### Missing -/

theorem mono (h : Located s dir root outDir base up name) (hWithin : s.Within t)
    (hPlain : ∀ below, below ≠ [] → below <+: up → ∀ target, t.node? (base ++ below) ≠ some (.link target)) :
    Located t dir root outDir base up name where
  relative := h.relative
  steps := h.steps
  ending := h.ending
  root := hWithin.resolve h.root
  isDirectory := hWithin.isDirectory h.isDirectory
  plain := hPlain

theorem node?_without_above (t : FileTree) {above : Location} (hAbove : above <+: up) :
    (t.without (base ++ up ++ [name])).node? (base ++ above) = t.node? (base ++ above) := by
  rw [node?_without t (by simp), if_neg]
  intro hPrefix
  have hLonger := hPrefix.length_le
  have hShorter := hAbove.length_le
  simp only [List.length_append, List.length_singleton] at hLonger
  omega

theorem pathExists_of_vacant (h : Located t dir root outDir base up name) (hVacant : t.Vacant (base ++ up ++ [name])) :
    t.pathExists dir (root.join outDir) = false := by
  have hNone := hVacant _ List.prefix_rfl
  unfold pathExists
  cases hResolve : t.resolve dir (root.join outDir) with
  | error e => rfl
  | ok found =>
    obtain ⟨-, left, hLeads⟩ := resolve_eq_ok_iff.mp hResolve
    rw [h.start_eq] at hLeads
    obtain ⟨rfl, hSome, -⟩ := h.found_eq (fun target hTarget => by cases hNone.symm.trans hTarget) hLeads.moves
    exact absurd hNone hSome

/-- Where the path leads to its directory, it names an entry also when the directory is gone. -/
theorem namesEntry_without (h : Located (t.without (base ++ up ++ [name])) dir root outDir base up name)
    (hFound : t.resolve dir (root.join outDir) = .ok (base ++ up ++ [name]))
    (hDir : t.isDirectory (base ++ up ++ [name]) = true) :
    (t.without (base ++ up ++ [name])).NamesEntry dir (root.join outDir) (base ++ up) name := by
  obtain ⟨hStart, left, hLeads⟩ := resolve_eq_ok_iff.mp hFound
  rw [h.start_eq] at hLeads
  have hWhole : Located t dir root outDir base up name := by
    refine h.mono (within_without t _) fun below hBelow hPrefix target => ?_
    rw [← node?_without_above t hPrefix]
    exact h.plain below hBelow hPrefix target
  obtain ⟨-, -, middle, hUp, hUpDir⟩ := hWhole.found_eq (node?_ne_link_of_isDirectory hDir) hLeads.moves
  exact h.namesEntry hStart hUp hUpDir fun above hAbove => node?_without_above t hAbove

/-! ### Made -/

theorem makesWay (h : Located t dir root outDir base up name) {paths : List Path} (hWay : MakesWay dir paths t ready) :
    Located ready dir root outDir base up name := by
  refine h.mono hWay.within fun below hBelow hPrefix target hTarget => ?_
  rcases hWay.added _ _ hTarget with hOld | ⟨-, hNew, -⟩
  · exact h.plain below hBelow hPrefix target hOld
  · cases hNew

/-- Nothing is made below the directory. -/
theorem node?_eq_none (h : Located t dir root outDir base up name) (hVacant : t.Vacant (base ++ up ++ [name]))
    (hWay : MakesWay dir (root.join outDir).ancestors t ready) (below : Location)
    (hBelow : base ++ up ++ [name] <+: below) (hStrict : below ≠ base ++ up ++ [name]) : ready.node? below = none := by
  by_contra hSome
  obtain ⟨node, hNode⟩ := Option.ne_none_iff_exists'.mp hSome
  rcases hWay.added _ _ hNode with hOld | ⟨-, rfl, -, q, hq, hFound⟩
  · cases (hVacant below hBelow).symm.trans hOld
  have hBelowDir : ready.isDirectory below = true := isDirectory_iff.mpr ⟨_, hNode, rfl⟩
  obtain ⟨hPrefix, left, hMoves⟩ := leads_of_mem_ancestors hq hFound hBelowDir
  rw [h.start_eq] at hMoves
  rw [h.moves_eq] at hPrefix
  rcases List.prefix_or_prefix_of_prefix hPrefix (List.prefix_append (moves root.segments) (up ++ [name])) with
    ⟨more, hMore⟩ | ⟨names, hNames⟩
  · obtain ⟨-, _, hRoot⟩ := resolve_eq_ok_iff.mp h.root
    have hRoot := (leads_moves_iff h.isDirectory).mpr hRoot
    rw [← hMore] at hRoot
    obtain ⟨halfway, _, hFirst, hRest⟩ := Leads.split _ _ hRoot
    obtain rfl := (hWay.within.leads hFirst).found_unique hMoves
    obtain ⟨node, hOld, -⟩ := isDirectory_iff.mp (hRest.isDirectory_start h.isDirectory)
    cases (hVacant _ hBelow).symm.trans hOld
  · rw [← hNames] at hMoves hPrefix
    have hPrefix := (List.prefix_append_right_inj _).mp hPrefix
    obtain ⟨middle, hDown⟩ := (h.makesWay hWay).split hMoves hBelowDir
    obtain ⟨rfl, -⟩ := hDown.along_names (fun n hn => h.isName n (hPrefix.subset hn)) fun below hBelow hNames =>
      (h.makesWay hWay).plain_concat (hVacant.ne_link_of_makesWay hWay) below hBelow (hNames.trans hPrefix)
    refine hStrict (hBelow.eq_of_length_le ?_).symm
    simpa [Nat.add_assoc] using hPrefix.length_le

theorem text_ne (h : Located t dir root outDir base up name) : (root.join outDir).text ≠ "" := by
  intro hText
  obtain ⟨slash, hEnding⟩ := h.ending
  have hEmpty : root.join outDir = ⟨""⟩ := congrArg Path.mk hText
  rw [hEmpty] at hEnding
  cases hEnding

theorem newDirectory (h : Located t dir root outDir base up name) (hVacant : t.Vacant (base ++ up ++ [name]))
    (hReady : t.makeDirectories dir (root.join outDir) = (ready, .ok ())) :
    NewDirectory dir (root.join outDir) (base ++ up) name ready := by
  have hWay := makesWay_of_makeDirectories hReady
  obtain ⟨found, hFound, hDir⟩ := isDirectoryAt_iff.mp (isDirectoryAt_of_makeDirectories h.text_ne hReady)
  obtain ⟨-, left, hLeads⟩ := resolve_eq_ok_iff.mp hFound
  rw [h.start_eq] at hLeads
  obtain ⟨rfl, -, -⟩ := (h.makesWay hWay).found_eq (hVacant.ne_link_of_makesWay hWay) hLeads.moves
  have hWithout : Located (ready.without (base ++ up ++ [name])) dir root outDir base up name := by
    refine h.mono (hVacant.within_without hWay.within) fun below hBelow hPrefix target => ?_
    rw [node?_without_above ready hPrefix]
    exact (h.makesWay hWay).plain below hBelow hPrefix target
  exact .of_namesEntry (hWithout.namesEntry_without hFound hDir) hVacant hWay hFound hDir (h.node?_eq_none hVacant hWay)

end Located

end ClientRegistry.FileTree
