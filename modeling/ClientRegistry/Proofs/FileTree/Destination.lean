import ClientRegistry.Proofs.FileTree.Directories

/-!
# Where a file or a directory can be made

Segments end at the place of a file if they lead to a directory and then name an entry of it: a file, or one
that is not there and can be made, or a link whose target ends at the place. These are the places that can be
filled, and the segments lead there once that is done.

A directory can be made where a name is free in an ordinary directory. When a directory has been made with all
that are missing above it, or as many of them as can be, none is left that can be made.
-/

set_option autoImplicit false

namespace ClientRegistry.FileTree

variable {t : FileTree} {dir place base parent : Location} {p q : Path} {name : String} {segments : List String}
  {links left hops : Nat}

/-- A file can be written at the place: nothing is there, or something that is no way to anywhere. -/
structure Fillable (t : FileTree) (place : Location) : Prop where
  not_root : place ≠ []
  no_way : ∀ node, t.node? place = some node → node.isWay = false

/-- The segments lead to the place in every tree that keeps the ways of this one and has a file there. -/
def LeadsOnceFilled (t : FileTree) (links : Nat) (base : Location) (segments : List String) (place : Location) : Prop :=
  ∀ u : FileTree, t.KeepsWays u → ∀ node, u.node? place = some node → node.isWay = false →
    ∃ left, u.Leads links base segments place left

theorem ne_link_of_not_way {node : Node} (h : node.isWay = false) (target : String) : node ≠ .link target := by
  rintro rfl
  cases h

/-! ### The place of a file -/

structure NamesIn (t : FileTree) (links : Nat) (base : Location) (segments : List String) (parent : Location)
    (name : String) (slash : Bool) (left : Nat) : Prop where
  leads : t.Leads links base (Ending.ofSegments segments).1 parent left
  directory : t.isDirectory parent = true
  ending : (Ending.ofSegments segments).2 = .name name slash
  length : requireName name = .ok ()

inductive EndsAt (t : FileTree) : Nat → Location → List String → Location → Prop
  | entry {links left : Nat} {base parent : Location} {segments : List String} {name : String}
    (hNames : t.NamesIn links base segments parent name false left)
    (hFile : ∀ node, t.node? (parent ++ [name]) = some node → node.isWay = false)
    (hRoom : t.node? (parent ++ [name]) = none → t.node? parent ≠ some .systemDirectory) :
    EndsAt t links base segments (parent ++ [name])
  | link {links left : Nat} {base parent place : Location} {segments : List String} {name target : String}
    (hNames : t.NamesIn links base segments parent name false (left + 1))
    (hNode : t.node? (parent ++ [name]) = some (.link target))
    (hRest : EndsAt t left (linkStart parent target).1 (linkStart parent target).2 place) :
    EndsAt t links base segments place

section

variable {follow : Nat → Location → List String → Except FileFailure Location}

theorem exists_namesIn_of_destinationWith (h : t.destinationWith follow links base segments = .ok place) :
    ∃ parent name left, t.NamesIn links base segments parent name false left := by
  obtain ⟨⟨parent, ending, left⟩, hApproach, hRest⟩ := bind_eq_ok_iff.mp h
  obtain ⟨hLeads, hDir, hEnding⟩ := approach_eq_ok_iff.mp hApproach
  dsimp only at hRest
  split at hRest
  · rename_i name
    obtain ⟨⟨⟩, hName, -⟩ := bind_eq_ok_iff.mp hRest
    exact ⟨parent, name, left, hLeads, hDir, hEnding.symm, hName⟩
  · cases hRest

/-- A name at the end of segments is the file's own, or it is that of a link, which is followed. -/
theorem destinationWith_eq_ok_iff (h : t.NamesIn links base segments parent name false left) :
    t.destinationWith follow links base segments = .ok place ↔
      ((∀ node, t.node? (parent ++ [name]) = some node → node.isWay = false) ∧
        (t.node? (parent ++ [name]) = none → t.node? parent ≠ some .systemDirectory) ∧ parent ++ [name] = place) ∨
      ∃ target fewer, t.node? (parent ++ [name]) = some (.link target) ∧ left = fewer + 1 ∧
        follow fewer (linkStart parent target).1 (linkStart parent target).2 = .ok place := by
  have hApproach := approach_eq_ok_iff.mpr ⟨h.leads, h.directory, h.ending.symm⟩
  rw [destinationWith, hApproach]
  simp only [bind, Except.bind, h.length]
  split
  · rename_i hFree
    simp only [hFree]
    cases hRoom : t.requireRoom parent name with
    | error e =>
      have hSystem : t.node? parent = some .systemDirectory := by
        refine Classical.byContradiction fun hOther => ?_
        cases hRoom.symm.trans (requireRoom_eq_ok_iff.mpr ⟨h.length, hOther⟩)
      simp [hSystem]
    | ok _ => simp [(requireRoom_eq_ok_iff.mp hRoom).2]
  · rename_i target hLink
    simp only [hLink]
    cases left with
    | zero => simp [Node.isWay]
    | succ fewer => simp [Node.isWay]
  · rename_i node hLink hNode
    simp only [hNode]
    cases node with
    | link target => exact absurd rfl (hLink target)
    | directory | systemDirectory | file content | sink => simp [Node.isWay, Node.isDirectory]

theorem endsAt_of_destinationWith
    (hFollow : ∀ links base segments, follow links base segments = .ok place → t.EndsAt links base segments place)
    (h : t.destinationWith follow links base segments = .ok place) : t.EndsAt links base segments place := by
  obtain ⟨parent, name, left, hNames⟩ := exists_namesIn_of_destinationWith h
  rcases (destinationWith_eq_ok_iff hNames).mp h with ⟨hFile, hRoom, rfl⟩ | ⟨target, fewer, hLink, rfl, hRest⟩
  · exact .entry hNames hFile hRoom
  · exact .link hNames hLink (hFollow _ _ _ hRest)

end

theorem endsAt_of_destinationFrom (h : t.destinationFrom hops links base segments = .ok place) :
    t.EndsAt links base segments place := by
  induction hops generalizing links base segments with
  | zero =>
    refine endsAt_of_destinationWith ?_ h
    intro _ _ _ hFollow
    cases hFollow
  | succ hops ih => exact endsAt_of_destinationWith (fun _ _ _ => ih) h

theorem Leads.left_le (h : t.Leads links base segments place left) : left ≤ links := by
  induction h with
  | here => exact Nat.le_refl _
  | stay _ _ _ ih | up _ _ ih | down _ _ _ _ _ _ ih => exact ih
  | link _ _ _ _ _ ih => exact Nat.le_succ_of_le ih

theorem destinationFrom_of_endsAt (h : t.EndsAt links base segments place) (hHops : links ≤ hops) :
    t.destinationFrom hops links base segments = .ok place := by
  induction h generalizing hops with
  | @entry links left base parent segments name hNames hFile hRoom =>
    obtain ⟨follow, hFollow⟩ : ∃ follow, t.destinationFrom hops = t.destinationWith follow := by
      cases hops with
      | zero => exact ⟨_, rfl⟩
      | succ hops => exact ⟨_, rfl⟩
    rw [hFollow]
    exact (destinationWith_eq_ok_iff hNames).mpr (.inl ⟨hFile, hRoom, rfl⟩)
  | @link links left base parent place segments name target hNames hNode _ ih =>
    have hLeft := hNames.leads.left_le
    obtain ⟨fewer, rfl⟩ : ∃ fewer, hops = fewer + 1 := ⟨hops - 1, by omega⟩
    exact (destinationWith_eq_ok_iff hNames).mpr (.inr ⟨target, left, hNode, rfl, ih (by omega)⟩)

def TakesFile (t : FileTree) (dir : Location) (p : Path) (place : Location) : Prop :=
  start dir p = .ok (linkStart dir p.text) ∧ t.EndsAt maxLinks (linkStart dir p.text).1 p.segments place

theorem destination_eq_ok_iff : t.destination dir p = .ok place ↔ t.TakesFile dir p place := by
  unfold destination
  rw [bind_eq_ok_iff]
  constructor
  · rintro ⟨⟨base, segments⟩, hStart, hDestination⟩
    obtain ⟨-, rfl, rfl⟩ := start_eq_ok hStart
    exact ⟨hStart, endsAt_of_destinationFrom hDestination⟩
  · rintro ⟨hStart, hEnds⟩
    exact ⟨_, hStart, destinationFrom_of_endsAt hEnds (Nat.le_refl maxLinks)⟩

/-! ### What the place is -/

theorem EndsAt.exists_namesIn (h : t.EndsAt links base segments place) :
    ∃ parent name left, t.NamesIn links base segments parent name false left := by
  cases h with
  | entry hNames _ _ => exact ⟨_, _, _, hNames⟩
  | link hNames _ _ => exact ⟨_, _, _, hNames⟩

theorem EndsAt.fillable (h : t.EndsAt links base segments place) : t.Fillable place := by
  induction h with
  | entry _ hFile _ => exact ⟨by simp, hFile⟩
  | link _ _ _ ih => exact ih

theorem EndsAt.leadsOnceFilled (h : t.EndsAt links base segments place)
    (hSlash : ∀ segment ∈ segments, '/' ∉ segment.toList) : t.LeadsOnceFilled links base segments place := by
  induction h with
  | @entry _ left _ _ _ _ hNames _ _ =>
    intro u hWays node hNode hWay
    obtain ⟨hIsName, hSegments⟩ := name_of_ofSegments hSlash hNames.ending
    refine ⟨left, ?_⟩
    rw [hSegments rfl]
    exact (hWays.leads hNames.leads hNames.directory).append (.down (hWays.isDirectory hNames.directory)
      hIsName.stepOf?_eq hNames.length hNode (ne_link_of_not_way hWay) .here)
  | link hNames hLink _ ih =>
    intro u hWays node hNode hWay
    obtain ⟨hIsName, hSegments⟩ := name_of_ofSegments hSlash hNames.ending
    obtain ⟨last, hTarget⟩ := ih (fun _ => Path.slash_not_mem_of_mem_segments) u hWays node hNode hWay
    refine ⟨last, ?_⟩
    rw [hSegments rfl]
    refine (hWays.leads hNames.leads hNames.directory).append (.link (hWays.isDirectory hNames.directory)
      hIsName.stepOf?_eq hNames.length (hWays _ _ hLink rfl) ?_)
    rwa [List.append_nil]

/-! ### The paths above -/

theorem moves_of_isAbove (h : q.IsAbove p) : moves q.segments <+: moves (Ending.ofSegments p.segments).1 := by
  have hMoves := moves_ofSegments p.segments
  have hDropped := h.steps.map Component.spelling
  rw [List.map_dropLast, ← moves_segments, ← moves_segments, hMoves] at hDropped
  refine hDropped.trans ?_
  cases (Ending.ofSegments p.segments).2 with
  | root | dot =>
    rw [Ending.moves, List.append_nil]
    exact List.dropLast_prefix _
  | dotDot | name text slash =>
    simp only [Ending.moves, List.dropLast_concat, List.prefix_rfl]

theorem isDirectoryAt_of_moves_isPrefix {more : List String} (hStart : start dir q = .ok (linkStart dir q.text))
    (hLeads : t.Leads maxLinks (linkStart dir q.text).1 more parent left) (hDir : t.isDirectory parent = true)
    (hPrefix : moves q.segments <+: moves more) : t.isDirectoryAt dir q = true := by
  obtain ⟨rest, hRest⟩ := hPrefix
  have hMoves := hLeads.moves
  rw [← hRest] at hMoves
  obtain ⟨halfway, middle, hFirst, hSecond⟩ := hMoves.split
  have hHalfway := hSecond.isDirectory_start hDir
  exact isDirectoryAt_iff.mpr
    ⟨halfway, resolve_eq_ok_iff.mpr ⟨hStart, middle, (leads_moves_iff hHalfway).mp hFirst⟩, hHalfway⟩

theorem isDirectoryAt_of_isAbove (h : t.isDirectoryAt dir p = true) (hAbove : q.IsAbove p) (hText : q.text ≠ "") :
    t.isDirectoryAt dir q = true := by
  obtain ⟨loc, hResolve, hDir⟩ := isDirectoryAt_iff.mp h
  obtain ⟨hStart, left, hLeads⟩ := resolve_eq_ok_iff.mp hResolve
  rw [← linkStart_fst_eq dir hAbove.isAbsolute] at hLeads
  refine isDirectoryAt_of_moves_isPrefix (start_of_isPrefix hStart hAbove.text hText) hLeads hDir ?_
  rw [moves_ofSegments p.segments]
  exact (moves_of_isAbove hAbove).trans (List.prefix_append _ _)

/-- What leads to a name goes through the paths above. -/
theorem NamesIn.isDirectoryAt_of_isAbove {slash : Bool}
    (h : t.NamesIn maxLinks (linkStart dir p.text).1 p.segments parent name slash left)
    (hStart : start dir p = .ok (linkStart dir p.text)) (hAbove : q.IsAbove p) (hText : q.text ≠ "") :
    t.isDirectoryAt dir q = true := by
  have hLeads := h.leads
  rw [← linkStart_fst_eq dir hAbove.isAbsolute] at hLeads
  exact isDirectoryAt_of_moves_isPrefix (start_of_isPrefix hStart hAbove.text hText) hLeads h.directory
    (moves_of_isAbove hAbove)

theorem TakesFile.isDirectoryAt_of_isAbove (h : t.TakesFile dir p place) (hAbove : q.IsAbove p) (hText : q.text ≠ "") :
    t.isDirectoryAt dir q = true := by
  obtain ⟨parent, name, left, hNames⟩ := h.2.exists_namesIn
  exact hNames.isDirectoryAt_of_isAbove h.1 hAbove hText

/-! ### The place of a directory -/

def TakesDirectory (t : FileTree) (dir : Location) (p : Path) : Prop :=
  start dir p = .ok (linkStart dir p.text) ∧ ∃ parent name slash left,
    t.NamesIn maxLinks (linkStart dir p.text).1 p.segments parent name slash left ∧
      t.node? parent = some .directory ∧ t.node? (parent ++ [name]) = none

theorem takesDirectory_iff : t.TakesDirectory dir p ↔ ∃ made, t.makeDirectory dir p = .ok made := by
  constructor
  · rintro ⟨hStart, parent, name, slash, left, hNames, hOrdinary, hFree⟩
    have hEntry := entryOf_eq_ok_iff.mpr ⟨hStart, ⟨left, hNames.leads⟩, hNames.directory, hNames.ending.symm⟩
    have hNotSystem : t.node? parent ≠ some .systemDirectory := by simp [hOrdinary]
    have hRoom := requireRoom_eq_ok_iff.mpr ⟨hNames.length, hNotSystem⟩
    exact ⟨_, makeDirectory_eq_ok_iff.mpr ⟨parent, name, slash, hEntry, hFree, hRoom, rfl⟩⟩
  · rintro ⟨made, hMade⟩
    obtain ⟨parent, name, slash, hEntry, hFree, hRoom, -⟩ := makeDirectory_eq_ok_iff.mp hMade
    obtain ⟨hStart, ⟨left, hLeads⟩, hDir, hEnding⟩ := entryOf_eq_ok_iff.mp hEntry
    obtain ⟨hName, hOrdinary⟩ := requireRoom_eq_ok_iff.mp hRoom
    exact ⟨hStart, parent, name, slash, left, ⟨hLeads, hDir, hEnding.symm, hName⟩,
      node?_eq_directory hDir hOrdinary, hFree⟩

theorem not_takesDirectory_of_isDirectoryAt (h : t.isDirectoryAt dir p = true) : ¬t.TakesDirectory dir p := by
  intro hTakes
  obtain ⟨loc, hResolve, hDir⟩ := isDirectoryAt_iff.mp h
  obtain ⟨hStart, left, hLeads⟩ := resolve_eq_ok_iff.mp hResolve
  obtain ⟨made, hMade⟩ := takesDirectory_iff.mp hTakes
  obtain ⟨e, hError, -⟩ := makeDirectory_of_leads (start_eq_ok hStart).1 hLeads hDir
  cases hMade.symm.trans hError

theorem exists_of_moves_isPrefix {before : List String} (h : before ++ [name] <+: moves segments) :
    ∃ init rest, segments = init ++ name :: rest ∧ moves init = before := by
  obtain ⟨after, hAfter⟩ := h
  rw [List.append_assoc] at hAfter
  obtain ⟨first, second, rfl, hFirst, hSecond⟩ := List.filter_eq_append_iff.mp hAfter.symm
  obtain ⟨skipped, rest, rfl, hSkipped, -, -⟩ := List.filter_eq_cons_iff.mp hSecond
  refine ⟨first ++ skipped, rest, (List.append_assoc _ _ _).symm, ?_⟩
  have hNone : moves skipped = [] := List.filter_eq_nil_iff.mpr hSkipped
  rw [moves_append, hNone, List.append_nil]
  exact hFirst

/-- Where a directory is missing that can be made, what lies below is not found. -/
theorem TakesDirectory.entryOf_below (h : t.TakesDirectory dir q) (hAbove : q.IsAbove p)
    (hStart : start dir p = .ok (linkStart dir p.text)) : t.entryOf dir p = .error .notFound := by
  obtain ⟨-, parent, name, slash, left, hNames, -, hFree⟩ := h
  have hIsName := (name_of_ofSegments (fun _ => Path.slash_not_mem_of_mem_segments) hNames.ending).1
  have hPrefix := moves_of_isAbove hAbove
  rw [moves_ofSegments q.segments, hNames.ending] at hPrefix
  obtain ⟨init, rest, hSegments, hInit⟩ := exists_of_moves_isPrefix hPrefix
  have hLeads := (leads_moves_iff hNames.directory).mpr hNames.leads
  rw [← hInit, leads_moves_iff hNames.directory, linkStart_fst_eq dir hAbove.isAbsolute] at hLeads
  have hWalk : t.walk maxLinks (linkStart dir p.text).1 (Ending.ofSegments p.segments).1 = .error .notFound := by
    rw [hSegments, walk_append hLeads, walk_missing hNames.directory hIsName.stepOf?_eq hNames.length hFree]
  unfold entryOf approach
  rw [hStart]
  simp only [bind, Except.bind, linkStart] at hWalk ⊢
  rw [hWalk]

/-- What can be made of a chain of paths is made. -/
theorem not_takesDirectory_makeDirectoryChain {paths : List Path}
    (hPaths : paths.Pairwise fun below above => above.IsAbove below)
    (hStart : ∀ q ∈ paths, q.text ≠ "" → start dir q = .ok (linkStart dir q.text)) :
    ∀ q ∈ paths, ¬(t.makeDirectoryChain dir paths).1.TakesDirectory dir q := by
  induction paths with
  | nil => exact fun q hq => absurd hq List.not_mem_nil
  | cons p up ih =>
    obtain ⟨hAbove, hUp⟩ := List.pairwise_cons.mp hPaths
    have ih := ih hUp fun q hq => hStart q (List.mem_cons_of_mem p hq)
    have hReady {u : FileTree} (hDir : u.isDirectoryAt dir p = true) : ∀ q ∈ p :: up, ¬u.TakesDirectory dir q := by
      intro q hq hTakes
      rcases List.mem_cons.mp hq with rfl | hq
      · exact not_takesDirectory_of_isDirectoryAt hDir hTakes
      · have hText := (start_eq_ok hTakes.1).1
        exact not_takesDirectory_of_isDirectoryAt (isDirectoryAt_of_isAbove hDir (hAbove q hq) hText) hTakes
    have hFailed {u : FileTree} {e : FileFailure} (hFails : u.makeDirectory dir p = .error e)
        (hOthers : ∀ q ∈ up, ¬u.TakesDirectory dir q) : ∀ q ∈ p :: up, ¬u.TakesDirectory dir q := by
      refine List.forall_mem_cons.mpr ⟨fun hTakes => ?_, hOthers⟩
      obtain ⟨made, hMade⟩ := takesDirectory_iff.mp hTakes
      cases hMade.symm.trans hFails
    rw [makeDirectoryChain]
    split
    · rename_i hEmpty
      intro q hq hTakes
      have hText := (start_eq_ok hTakes.1).1
      have hPrefix : q.text.toList <+: p.text.toList := by
        rcases List.mem_cons.mp hq with rfl | hq
        · exact List.prefix_rfl
        · exact (hAbove q hq).text
      rw [beq_iff_eq.mp hEmpty] at hPrefix
      exact hText (String.toList_eq_nil_iff.mp (List.prefix_nil.mp hPrefix))
    rename_i hText
    split
    · rename_i hMade
      exact hReady (isDirectoryAt_iff.mpr (makesWay_of_makeDirectory hMade).2)
    · split
      · rename_i made e hChain
        rw [hChain] at ih
        refine List.forall_mem_cons.mpr ⟨fun hTakes => ?_, ih⟩
        obtain ⟨q, hq, hText, hDir, -⟩ := blocked_of_makeDirectoryChain hChain
        obtain ⟨hFirst, parent, name, slash, left, hNames, -⟩ := hTakes
        rw [hNames.isDirectoryAt_of_isAbove hFirst (hAbove q hq) hText] at hDir
        cases hDir
      · rename_i made hChain
        rw [hChain] at ih
        split
        · rename_i hMade
          exact hReady (isDirectoryAt_iff.mpr (makesWay_of_makeDirectory hMade).2)
        · rename_i hFails
          exact hFailed hFails ih
    · rename_i e hKnown hFails
      refine hFailed hFails fun q hq hTakes => hKnown ?_
      have hMissing := hTakes.entryOf_below (hAbove q hq) (hStart p List.mem_cons_self (by simpa using hText))
      rw [makeDirectory, hMissing] at hFails
      exact Except.error.inj hFails.symm

end ClientRegistry.FileTree
