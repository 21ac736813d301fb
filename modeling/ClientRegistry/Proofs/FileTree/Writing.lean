import ClientRegistry.Proofs.FileTree.Destination

/-!
# What is written is read back

A file is written where its path leads, links followed. The path leads there afterwards as well, and
what it finds there is the content, unless the place is one that forgets what is written to it.
-/

set_option autoImplicit false

namespace ClientRegistry.FileTree

variable {s t made done : FileTree} {dir loc place base : Location} {p : Path} {content : ByteArray} {name : String}
  {links : Nat}

theorem fill_cases (t : FileTree) (place : Location) (content : ByteArray) :
    (t.node? place = some .sink ∧ t.fill place content = t) ∨ t.fill place content = t.put place (.file content) := by
  unfold fill
  split
  · rename_i hSink
    exact .inl ⟨hSink, rfl⟩
  · exact .inr rfl

theorem Fillable.keepsWays (h : t.Fillable place) (content : ByteArray) : t.KeepsWays (t.fill place content) := by
  rcases t.fill_cases place content with ⟨-, hSame⟩ | hPut
  · rw [hSame]
    exact (Within.refl t).keepsWays
  · rw [hPut]
    exact keepsWays_put h.no_way _

theorem Fillable.node?_fill (h : t.Fillable place) (content : ByteArray) :
    (t.fill place content).node? place = some (.file content) ∨ (t.fill place content).node? place = some .sink := by
  rcases t.fill_cases place content with ⟨hSink, hSame⟩ | hPut
  · rw [hSame]
    exact .inr hSink
  · rw [hPut]
    exact .inl (t.node?_put_self _ h.not_root)

theorem node?_fill_of_ne (t : FileTree) (content : ByteArray) {other : Location} (h : other ≠ place) :
    (t.fill place content).node? other = t.node? other := by
  rcases t.fill_cases place content with ⟨-, hSame⟩ | hPut
  · rw [hSame]
  · rw [hPut, node?_put_of_ne t _ h]

theorem isDirectory_eq_false_of_isWay {node : Node} (hNode : t.node? place = some node) (hWay : node.isWay = false) :
    t.isDirectory place = false := by
  rw [isDirectory, hNode, Option.any_some, ← Bool.not_eq_true]
  intro hDir
  rw [Node.isWay_of_isDirectory hDir] at hWay
  cases hWay

theorem Fillable.isDirectory_fill (h : t.Fillable place) (content : ByteArray) (other : Location) :
    (t.fill place content).isDirectory other = t.isDirectory other := by
  by_cases hOther : other = place
  · subst hOther
    have hAfter : (t.fill other content).isDirectory other = false := by
      rcases h.node?_fill content with hFile | hSink
      · exact isDirectory_eq_false_of_isWay hFile rfl
      · exact isDirectory_eq_false_of_isWay hSink rfl
    rw [hAfter]
    cases hNode : t.node? other with
    | none => rw [isDirectory, hNode, Option.any_none]
    | some node => exact (isDirectory_eq_false_of_isWay hNode (h.no_way node hNode)).symm
  · rw [isDirectory, isDirectory, node?_fill_of_ne t content hOther]

theorem writeContent_eq_ok_iff :
    t.writeContent dir p content = .ok done ↔ ∃ place, t.TakesFile dir p place ∧ t.fill place content = done := by
  simp only [writeContent, bind_eq_ok_iff, destination_eq_ok_iff, Except.ok.injEq]

/-- The path of a file leads, once it is written, to the place that was filled. -/
theorem exists_place_of_writeContent (h : t.writeContent dir p content = .ok done) :
    ∃ place, done.resolve dir p = .ok place ∧ t.Fillable place ∧ done = t.fill place content := by
  obtain ⟨place, ⟨hStart, hEnds⟩, rfl⟩ := writeContent_eq_ok_iff.mp h
  have hFillable := hEnds.fillable
  have hOnce := hEnds.leadsOnceFilled fun _ => Path.slash_not_mem_of_mem_segments
  refine ⟨place, resolve_eq_ok_iff.mpr ⟨hStart, ?_⟩, hFillable, rfl⟩
  rcases hFillable.node?_fill content with hFile | hSink
  · exact hOnce _ (hFillable.keepsWays content) _ hFile rfl
  · exact hOnce _ (hFillable.keepsWays content) _ hSink rfl

theorem exists_writeContent_of_writeWithParents {text : String} {result : WriteResult}
    (h : t.writeWithParents dir p text = (done, .ok result)) :
    ∃ made, (t.makeParents dir p).1 = made ∧ made.writeContent dir p text.toUTF8 = .ok done := by
  unfold writeWithParents at h
  split at h
  · cases h
  · rename_i made hMade
    split at h
    · rename_i written hWritten
      cases h
      exact ⟨made, congrArg Prod.fst hMade, hWritten⟩
    · cases h

/-! ### Files in a directory -/

theorem Leads.of_join_name {left : Nat} {found : Location} (hName : IsName name)
    (h : t.Leads links base (p.join ⟨name⟩).segments found left) :
    ∃ halfway middle, t.Leads links base p.segments halfway middle ∧ t.Leads middle halfway [name] found left := by
  rcases Path.segments_join_name p hName with ⟨init, hSegments, hJoined⟩ | hJoined
  · rw [hJoined] at h
    obtain ⟨halfway, middle, hInit, hLast⟩ := Leads.split init [name] h
    refine ⟨halfway, middle, ?_, hLast⟩
    rw [hSegments]
    exact hInit.append (.stay hLast.isDirectory_of_cons rfl .here)
  · rw [hJoined] at h
    exact Leads.split p.segments [name] h

/-- Where no link has the name of the file, it is written in the directory itself. -/
theorem writeContent_join_eq (hName : IsName name) (h : t.writeContent dir (p.join ⟨name⟩) content = .ok done)
    (hResolve : t.resolve dir p = .ok loc) (hDir : t.isDirectory loc = true)
    (hLink : ∀ target, t.node? (loc ++ [name]) ≠ some (.link target)) :
    t.Fillable (loc ++ [name]) ∧ done = t.fill (loc ++ [name]) content := by
  obtain ⟨place, hPlace, hFillable, rfl⟩ := exists_place_of_writeContent h
  obtain ⟨-, left, hLeads⟩ := resolve_eq_ok_iff.mp hPlace
  have hBase := linkStart_fst_eq dir (Bool.eq_iff_iff.mp (Path.isAbsolute_join_name p hName))
  rw [hBase] at hLeads
  obtain ⟨halfway, middle, hFirst, hLast⟩ := hLeads.of_join_name hName
  obtain ⟨-, _, hDirect⟩ := resolve_eq_ok_iff.mp ((hFillable.keepsWays content).resolve hResolve hDir)
  obtain rfl := hFirst.found_unique hDirect
  have hSame : place = halfway ++ [name] := by
    refine (hLast.of_name hName ?_).2.1
    intro target hTarget
    by_cases hHere : halfway ++ [name] = place
    · rw [hHere] at hTarget
      rcases hFillable.node?_fill content with hFile | hSink
      · cases hFile.symm.trans hTarget
      · cases hSink.symm.trans hTarget
    · rw [node?_fill_of_ne t content hHere] at hTarget
      exact hLink target hTarget
  rw [← hSame]
  exact ⟨hFillable, rfl⟩

/-- A file is written in what its path leads to without the file's name, which then is a directory. -/
theorem isDirectory_of_writeContent (hName : IsName name)
    (h : t.writeContent dir (p.join ⟨name⟩) content = .ok s) (hDir : t.resolve dir p = .ok loc) :
    t.isDirectory loc = true := by
  obtain ⟨place, ⟨-, hEnds⟩, -⟩ := writeContent_eq_ok_iff.mp h
  obtain ⟨found, _, left, hFound, hFoundDir, -, -⟩ := hEnds.exists_namesIn
  have hBase := linkStart_fst_eq dir (Bool.eq_iff_iff.mp (Path.isAbsolute_join_name p hName))
  obtain ⟨-, _, hLeads⟩ := resolve_eq_ok_iff.mp hDir
  rw [hBase] at hFound
  rcases Path.segments_join_name p hName with ⟨init, hSegments, hJoined⟩ | hJoined
  · rw [hJoined, ofSegments_concat hName] at hFound
    have hStay : t.Leads maxLinks (linkStart dir p.text).1 p.segments found left := by
      rw [hSegments]
      exact hFound.append (.stay hFoundDir rfl .here)
    obtain ⟨rfl, -⟩ := hLeads.unique hStay
    exact hFoundDir
  · rw [hJoined, ofSegments_concat hName] at hFound
    obtain ⟨rfl, -⟩ := hLeads.unique hFound
    exact hFoundDir

/-- Where a file has been written, the file's directory was no file before. -/
theorem not_file_of_writeWithParents (hName : IsName name) {text : String} {result : WriteResult}
    (h : (t.writeWithParents dir (p.join ⟨name⟩) text).2 = .ok result) (hDir : t.resolve dir p = .ok loc)
    (content : ByteArray) : t.node? loc ≠ some (.file content) := by
  obtain ⟨made, hMade, hWritten⟩ := exists_writeContent_of_writeWithParents (Prod.ext rfl h)
  have hWithin := (t.grows_makeParents dir (p.join ⟨name⟩)).within
  rw [hMade] at hWithin
  intro hFile
  have hIsDir := isDirectory_of_writeContent hName hWritten (hWithin.resolve hDir)
  obtain ⟨node, hNode, hNodeDir⟩ := isDirectory_iff.mp hIsDir
  rw [hWithin loc _ hFile] at hNode
  cases hNode
  cases hNodeDir

theorem makeParents_of_isDirectoryAt (hName : IsName name) (hDir : t.isDirectoryAt dir p = true) :
    (t.makeParents dir (p.join ⟨name⟩)).1 = t := by
  obtain ⟨loc, hResolve, hLocDir⟩ := isDirectoryAt_iff.mp hDir
  obtain ⟨-, left, hLeads⟩ := resolve_eq_ok_iff.mp hResolve
  unfold makeParents
  split
  · rfl
  rename_i up hUp
  obtain ⟨hSteps, hAbsolute⟩ := Path.steps_parent? hUp
  rw [Path.steps_join p hName.isAbsolute_eq, hName.steps_eq, List.dropLast_concat] at hSteps
  rw [Path.isAbsolute_join_name p hName] at hAbsolute
  have hBase := linkStart_fst_eq dir hAbsolute
  have hAbove : t.Leads maxLinks (linkStart dir up.text).1 up.segments loc left := by
    rw [hBase, ← leads_moves_iff hLocDir, moves_segments, hSteps, ← moves_segments]
    exact (leads_moves_iff hLocDir).mpr hLeads
  have hSame : (t.makeDirectories dir up).1 = t := makeDirectories_of_leads hAbove hLocDir
  rcases hMade : t.makeDirectories dir up with ⟨made, _ | _⟩
  · rw [hMade] at hSame
    exact hSame
  · rw [hMade] at hSame
    exact hSame

end ClientRegistry.FileTree
