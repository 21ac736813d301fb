import ClientRegistry.Proofs.FileTree.Located
import ClientRegistry.Proofs.Generation.FailedCycle
import ClientRegistry.Proofs.Generation.SuccessfulCycle
import ClientRegistry.Proofs.Generation.TwinTemplates

/-!
# What a clean cycle depends on

A cycle that cleans first does the same on all trees that differ in what cleaning takes away: the output
directory that it makes is a new one, in which every name is free, and what it reads lies elsewhere or has
been made by then. So a cycle can be repeated on what it has left. This needs the way to the
output directory not to change when the directories on it are made; a path that goes back up from a
directory that is missing comes to be found only after the cleaning, with all that was in it.
-/

set_option autoImplicit false

namespace ClientRegistry

open FileTree Work

variable {h : Host} {g : Generator} {token token' : Nat → String} {t t' s s' ready : FileTree}

/-! ### A new output directory -/

namespace FileTree

variable {out : Path} {parent found : Location} {name text : String} {ending : Ending}

/-- The path of a directory from the root of the tree leads to the directory itself. -/
theorem NamesEntry.parent_of_absolute (hNames : t.NamesEntry h.dir out parent name)
    (hHere : out.isAbsolute = false → t.resolve [] h.dir.toPath = .ok h.dir)
    (hLink : ∀ target, t.node? (parent ++ [name]) ≠ some (.link target)) (hText : IsName text)
    (hEntry : t.entryOf h.dir ((h.absolute out).join ⟨text⟩) = .ok (found, ending)) : found = parent ++ [name] := by
  obtain ⟨-, ⟨left, hLeads⟩, hDir, -⟩ := entryOf_eq_ok_iff.mp hEntry
  obtain ⟨_, init, hInit, hJoined⟩ := (h.absolute out).exists_join_name
  have hMoves := (leads_moves_iff hDir).mpr hLeads
  rw [(hJoined text hText).2, ofSegments_concat hText] at hMoves
  have hSame : moves init = moves (h.absolute out).segments := by
    rcases hInit with hSlash | hSame
    · rw [hSlash, moves_append]
      exact (List.append_nil _).symm
    · rw [hSame]
  have hStart := linkStart_fst_eq h.dir (Bool.eq_iff_iff.mp (Path.isAbsolute_join_name (h.absolute out) hText))
  dsimp only at hMoves
  rw [hSame, hStart] at hMoves
  cases hOut : out.isAbsolute with
  | true =>
    have hAbsolute : h.absolute out = out := if_pos hOut
    rw [hAbsolute] at hMoves
    exact (hNames.found_eq hLink hMoves).2.1
  | false =>
    have hAbsolute : h.absolute out = h.dir.toPath.join out := if_neg (by simp [hOut])
    have hFromRoot : (linkStart h.dir (h.dir.toPath.join out).text).1 = [] :=
      if_pos (Path.isAbsolute_join (Location.isAbsolute_toPath h.dir) out)
    rw [hAbsolute, hFromRoot, moves_segments, Path.steps_join _ hOut, List.map_append, ← moves_segments,
      ← moves_segments] at hMoves
    obtain ⟨halfway, middle, hFirst, hRest⟩ := Leads.split _ _ hMoves
    obtain ⟨-, _, hDirLeads⟩ := resolve_eq_ok_iff.mp (hHere hOut)
    have hDirStart : (linkStart [] h.dir.toPath.text).1 = [] := if_pos (Location.isAbsolute_toPath h.dir)
    rw [hDirStart] at hDirLeads
    obtain rfl := ((leads_moves_iff (hRest.isDirectory_start hDir)).mp hFirst).found_unique hDirLeads
    have hHereStart : (linkStart h.dir out.text).1 = h.dir := if_neg (by simp [hOut])
    exact (hNames.found_eq hLink (hHereStart.symm ▸ hRest)).2.1

end FileTree

namespace Compiler

variable {c : Compiler} {protoPath outDir : Path} {flags : String}

/-- Two runs on trees in which the same is made as the output directory. -/
theorem alike_run (hBlind : Blind h) (hTokens : ∀ n, IsToken (token n)) (hTokens' : ∀ n, IsToken (token' n))
    (hMade : s.makeDirectories h.dir (c.root.join outDir) = s'.makeDirectories h.dir (c.root.join outDir))
    (hFresh : ∀ ready, s.makeDirectories h.dir (c.root.join outDir) = (ready, .ok ()) →
      ready.Fresh h.dir (h.absolute (c.root.join outDir))) :
    Alike (SameFailure c protoPath flags (h.absolute (c.root.join outDir)))
      ((c.run (h.redraw token) protoPath outDir flags).run s)
      ((c.run (h.redraw token') protoPath outDir flags).run s') := by
  unfold run
  dsimp only
  rcases hMake : s.makeDirectories h.dir (c.root.join outDir) with ⟨ready, made⟩
  have hEdit : (edit fun t => t.makeDirectories h.dir (c.root.join outDir)).Leaves s ready made := leaves_edit hMake
  have hEdit' : (edit fun t => t.makeDirectories h.dir (c.root.join outDir)).Leaves s' ready made :=
    leaves_edit (hMade.symm.trans hMake)
  refine .bind (.of_leaves (hEdit.mapError _) (hEdit'.mapError _) rfl (.refl .same _)) fun _ ready hReady => ?_
  obtain ⟨hTree, hResult⟩ := ends_edit_iff.mp (ends_mapError_iff.mp hReady)
  refine .bind (.refl .same _) fun template found hTemplate => ?_
  obtain ⟨rfl, rfl⟩ := ends_look_iff.mp hTemplate
  refine .bind (.refl .same _) fun _ told hTold => ?_
  obtain rfl := ends_tell_iff.mp hTold
  refine .bind ?_ fun _ left _ => .refl .same _
  exact alike_withTemplate hBlind hTokens hTokens' (Template.hasFormat_find _ _ _ _ _)
    (hFresh _ (Prod.ext hTree hResult)) c protoPath flags

end Compiler

inductive GenerationError.SameBut (g : Generator) (base : Path) : GenerationError → GenerationError → Prop
  | same (e : GenerationError) : SameBut g base e e
  | notCompiled {e e' : CompileError}
    (hSame : Compiler.SameFailure ⟨g.root, g.compiler⟩ g.config.protoPath g.config.extraFlags base e e') :
    SameBut g base (.notCompiled e) (.notCompiled e')

namespace Generator

/-- Tokens are for templates alone. -/
theorem finish_redraw (g : Generator) (h : Host) (token : Nat → String) (made : Compilation) :
    g.finish (h.redraw token) made = g.finish h made := by
  have hWrite (services : List Service) : g.writeRegistry (h.redraw token) services = g.writeRegistry h services := by
    unfold writeRegistry
    rfl
  have hFormat (f : Formatter) (file : Path) :
      (f.format (h.redraw token) g.root file : Work GenerationError Bool) = f.format h g.root file := by
    unfold Formatter.format
    rfl
  have hDir : (h.redraw token).dir = h.dir := rfl
  unfold finish
  simp only [hWrite, hFormat, hDir]

/-- Two cycles that have cleaned differently, but make the same of what is left. -/
theorem alike_generate (hBlind : Compiler.Blind h) (hTokens : ∀ n, IsToken (token n))
    (hTokens' : ∀ n, IsToken (token' n))
    (hPrepare : (g.prepare (h.redraw token)).Ends t s ()) (hPrepare' : (g.prepare (h.redraw token')).Ends t' s' ())
    (hMade : s.makeDirectories h.dir g.outDir = s'.makeDirectories h.dir g.outDir)
    (hFresh : ∀ ready, s.makeDirectories h.dir g.outDir = (ready, .ok ()) → ready.Fresh h.dir (h.absolute g.outDir)) :
    Alike (GenerationError.SameBut g (h.absolute g.outDir)) ((g.generate (h.redraw token)).run t)
      ((g.generate (h.redraw token')).run t') := by
  have hRun : Alike
      (Compiler.SameFailure ⟨g.root, g.compiler⟩ g.config.protoPath g.config.extraFlags (h.absolute g.outDir))
      ((Compiler.run (h.redraw token) ⟨g.root, g.compiler⟩
        g.config.protoPath g.config.outDir g.config.extraFlags).run s)
      ((Compiler.run (h.redraw token') ⟨g.root, g.compiler⟩
        g.config.protoPath g.config.outDir g.config.extraFlags).run s') :=
    Compiler.alike_run hBlind hTokens hTokens' hMade hFresh
  rw [generate_eq, generate_eq]
  refine .bind_of_ends hPrepare hPrepare' (.bind (hRun.mapError fun _ _ => .notCompiled) fun made left _ => ?_)
  rw [finish_redraw, finish_redraw]
  exact .refl .same _

/-! ### Cleaned -/

/-- The output directory of the generator has its place in the tree: its path names an entry, or leads to one
down names that can still be made. Relative paths start from where they seem to. -/
structure Places (g : Generator) (dir parent : Location) (name : String) (t : FileTree) : Prop where
  way : t.NamesEntry dir g.outDir parent name ∨
    ∃ base up, parent = base ++ up ∧ Located t dir g.root g.config.outDir base up name
  here : g.outDir.isAbsolute = false → t.resolve [] dir.toPath = .ok dir

def Removable (g : Generator) (dir loc : Location) (t : FileTree) : Prop :=
  t.Vacant loc ∨ t.resolve dir g.outDir = .ok loc ∧ t.isDirectory loc = true

/-- The output directory has just been made, and relative paths do not start from inside of it. -/
structure Ready (g : Generator) (dir parent : Location) (name : String) (ready : FileTree) : Prop where
  made : NewDirectory dir g.outDir parent name ready
  here : g.outDir.isAbsolute = false → (ready.without (parent ++ [name])).resolve [] dir.toPath = .ok dir

variable {parent : Location} {name : String}

theorem Places.pathExists_of_vacant {dir : Location} (hPlace : g.Places dir parent name t)
    (hVacant : t.Vacant (parent ++ [name])) : t.pathExists dir g.outDir = false := by
  rcases hPlace.way with hNames | ⟨base, up, rfl, hLocated⟩
  · exact hNames.pathExists_of_vacant hVacant
  · exact hLocated.pathExists_of_vacant hVacant

theorem Places.removeTree_eq {dir : Location} (hPlace : g.Places dir parent name (t.without (parent ++ [name])))
    (hFound : t.resolve dir g.outDir = .ok (parent ++ [name])) (hDir : t.isDirectory (parent ++ [name]) = true) :
    t.removeTree dir g.outDir = (t.without (parent ++ [name]), .ok ()) := by
  rcases hPlace.way with hNames | ⟨base, up, rfl, hLocated⟩
  · exact hNames.removeTree_eq hFound hDir
  · exact (hLocated.namesEntry_without hFound hDir).removeTree_eq hFound hDir

theorem Places.ready_of_makeDirectories {dir : Location} (hPlace : g.Places dir parent name s)
    (hVacant : s.Vacant (parent ++ [name])) (hReady : s.makeDirectories dir g.outDir = (ready, .ok ())) :
    g.Ready dir parent name ready where
  made := by
    rcases hPlace.way with hNames | ⟨base, up, rfl, hLocated⟩
    · exact hNames.newDirectory hVacant hReady
    · exact hLocated.newDirectory hVacant hReady
  here := fun hOut => (hVacant.within_without (makesWay_of_makeDirectories hReady).within).resolve (hPlace.here hOut)

theorem ends_prepare (hClean : g.config.clean = true) (hValid : g.config.validate = .ok ())
    (hPlace : g.Places h.dir parent name (t.without (parent ++ [name])))
    (hFound : g.Removable h.dir (parent ++ [name]) t) : (g.prepare h).Ends t (t.without (parent ++ [name])) () := by
  have hChecked : (check (g.config.validate.mapError (GenerationError.refused g.outDir))).Ends t t () :=
    ends_check_iff.mpr ⟨rfl, by rw [hValid]; rfl⟩
  have hCleaned : ∃ found, (cleanOutDir h g.outDir).Ends t (t.without (parent ++ [name])) found := by
    rcases hFound with hVacant | ⟨hFound, hDir⟩
    · rw [hVacant.without_eq] at hPlace ⊢
      exact ⟨false, ends_cleanOutDir_false_iff.mpr ⟨hPlace.pathExists_of_vacant hVacant, rfl⟩⟩
    · have hExists : t.pathExists h.dir g.outDir = true := pathExists_iff.mpr ⟨_, hFound⟩
      exact ⟨true, ends_cleanOutDir_true_iff.mpr ⟨hExists, hPlace.removeTree_eq hFound hDir⟩⟩
  unfold prepare
  rw [if_pos hClean]
  obtain ⟨found, hCleaned⟩ := hCleaned
  exact ends_bind_iff.mpr ⟨(), t, hChecked, ends_bind_iff.mpr ⟨found, _, hCleaned, ends_pure () _⟩⟩

end Generator

/-! ### Writing below the output directory -/

namespace FileTree

variable {u v : FileTree} {loc place : Location} {content : ByteArray}

structure SameAround (loc : Location) (t u : FileTree) : Prop where
  without : u.without loc = t.without loc
  node : u.node? loc = t.node? loc

theorem SameAround.refl (loc : Location) (t : FileTree) : SameAround loc t t := ⟨rfl, rfl⟩

theorem SameAround.trans (h : SameAround loc t u) (h' : SameAround loc u v) : SameAround loc t v :=
  ⟨h'.without.trans h.without, h'.node.trans h.node⟩

theorem sameAround_of_getElem? (hBelow : loc <+: place) (hStrict : place ≠ loc)
    (hOther : ∀ other, other ≠ place → u.entries[other]? = t.entries[other]?)
    (hNode : u.node? loc = t.node? loc) : SameAround loc t u where
  without := by
    ext other : 1
    rw [getElem?_without, getElem?_without]
    split
    · rfl
    · rename_i hElsewhere
      refine hOther other ?_
      rintro rfl
      exact hElsewhere hBelow
  node := hNode

theorem sameAround_put (t : FileTree) (node : Node) (hBelow : loc <+: place) (hStrict : place ≠ loc) :
    SameAround loc t (t.put place node) :=
  sameAround_of_getElem? hBelow hStrict (fun _ => getElem?_put_of_ne t node) (node?_put_of_ne t node hStrict.symm)

theorem sameAround_remove (t : FileTree) (hBelow : loc <+: place) (hStrict : place ≠ loc) :
    SameAround loc t (t.remove place) :=
  sameAround_of_getElem? hBelow hStrict (fun _ => getElem?_remove_of_ne t) (node?_remove_of_ne t hStrict.symm)

theorem sameAround_fill (t : FileTree) (content : ByteArray) (hBelow : loc <+: place) (hStrict : place ≠ loc) :
    SameAround loc t (t.fill place content) := by
  unfold fill
  split
  · exact .refl loc t
  · exact sameAround_put t _ hBelow hStrict

end FileTree

/-- Every program writes below the place alone, and makes no link of the registry's name there. -/
structure Host.WritesBelow (h : Host) (loc : Location) : Prop where
  around : ∀ {i t done}, h.start i t = .ok done → SameAround loc t done.tree
  no_link : ∀ {i t done target}, h.start i t = .ok done →
    done.tree.node? (loc ++ [Registry.fileName]) = some (.link target) →
    t.node? (loc ++ [Registry.fileName]) = some (.link target)

namespace Generator

variable {left last : FileTree} {compilation : Compilation} {generation : Generation}

theorem ends_finish (hEnds : (g.finish h compilation).Ends left last generation) :
    ∃ services written, (g.writeRegistry h services).Ends left written () ∧
      (last = written ∨ ∃ i done, h.start i written = .ok done ∧ last = done.tree) := by
  unfold finish at hEnds
  simp only [ends_bind_iff, ends_look_iff, ends_tell_iff] at hEnds
  obtain ⟨found, _, ⟨rfl, rfl⟩, _, _, rfl, _, written, hWrite, hRest⟩ := hEnds
  refine ⟨_, written, hWrite, ?_⟩
  split at hRest
  · rename_i f _
    simp only [ends_bind_iff, ends_tell_iff, ends_pure_iff] at hRest
    obtain ⟨_, formatted, hFormat, _, _, rfl, rfl, -⟩ := hRest
    obtain ⟨_, hTree⟩ := exists_ends_format (ε := GenerationError) f h g.root (Registry.filePath g.outDir) written
    obtain ⟨rfl, -⟩ := hFormat.leaves.unique hTree.leaves
    cases hStart : h.start ⟨f.program, f.args ++ [(Registry.filePath g.outDir).text], g.root⟩ written with
    | error cause => exact .inl (by simp only [Host.run, hStart])
    | ok done => exact .inr ⟨_, done, hStart, by simp only [Host.run, hStart]⟩
  · simp only [ends_bind_iff, ends_tell_iff, ends_pure_iff] at hRest
    obtain ⟨_, _, rfl, rfl, -⟩ := hRest
    exact .inl rfl

namespace Ready

variable {parent : Location} {name : String} {dir : Location}

/-- What is found around the output directory is found there still. -/
theorem names_around (hReady : g.Ready dir parent name ready) (hAround : SameAround (parent ++ [name]) ready left) :
    left.NamesEntry dir g.outDir parent name := by
  have hNames := hReady.made.names
  rw [← hAround.without] at hNames
  exact hNames.mono (within_without left _)

theorem here_around (hReady : g.Ready dir parent name ready) (hAround : SameAround (parent ++ [name]) ready left)
    (hOut : g.outDir.isAbsolute = false) : left.resolve [] dir.toPath = .ok dir := by
  have hHere := hReady.here hOut
  rw [← hAround.without] at hHere
  exact (within_without left _).resolve hHere

theorem node_around (hReady : g.Ready dir parent name ready) (hAround : SameAround (parent ++ [name]) ready left) :
    left.node? (parent ++ [name]) = some .directory := hAround.node.trans hReady.made.node

theorem resolve_around (hReady : g.Ready dir parent name ready) (hAround : SameAround (parent ++ [name]) ready left) :
    left.resolve dir g.outDir = .ok (parent ++ [name]) ∧ left.isDirectory (parent ++ [name]) = true := by
  have hDir : left.isDirectory (parent ++ [name]) = true := isDirectory_iff.mpr ⟨_, hReady.node_around hAround, rfl⟩
  obtain ⟨slash, hEntry⟩ := hReady.names_around hAround
  exact ⟨resolve_of_entryOf_directory hEntry hReady.made.room hDir, hDir⟩

theorem parent_eq {text : String} {found : Location} {ending : Ending} (hReady : g.Ready h.dir parent name ready)
    (hAround : SameAround (parent ++ [name]) ready left) (hText : IsName text)
    (hEntry : left.entryOf h.dir ((h.absolute g.outDir).join ⟨text⟩) = .ok (found, ending)) :
    found = parent ++ [name] := by
  refine (hReady.names_around hAround).parent_of_absolute (hReady.here_around hAround)
    (fun target hTarget => ?_) hText hEntry
  cases (hReady.node_around hAround).symm.trans hTarget

theorem fresh (hReady : g.Ready h.dir parent name ready) : ready.Fresh h.dir (h.absolute g.outDir) := by
  intro text found hText hEntry
  obtain rfl := hReady.parent_eq (.refl _ ready) hText hEntry
  exact hReady.made.empty _ (List.prefix_append _ _) (by simp)

/-- The compiler and its template stay below the output directory. -/
theorem around_compiled {placed : FileTree} {file : Path} {done : Completed} {i : Invocation} (hTokens : h.PlainTokens)
    (hBelow : h.WritesBelow (parent ++ [name])) (hReady : g.Ready h.dir parent name ready)
    (hPlaced : Compiler.Placement h ⟨g.root, g.compiler⟩ g.config.protoPath g.config.outDir s ready placed file)
    (hStart : h.start i placed = .ok done) :
    SameAround (parent ++ [name]) ready (Compiler.discard done.tree h.dir file) ∧
      ∀ target, (Compiler.discard done.tree h.dir file).node? (parent ++ [name] ++ [Registry.fileName]) ≠
        some (.link target) := by
  have hFormat := Template.hasFormat_find ready h.dir g.root g.config.protoPath g.config.outDir
  obtain ⟨n, rfl, hAdded⟩ := Compiler.exists_addFile_of_placeFile hPlaced.placed
  have hIsName := Compiler.isName_temporaryName (hTokens n) hFormat.no_slash
  obtain ⟨found, text, hEntry, hNew, -, rfl⟩ := addFile_eq_ok_iff.mp hAdded
  obtain rfl := hReady.parent_eq (.refl _ ready) hIsName hEntry
  have hPut : SameAround (parent ++ [name]) ready
      (ready.put (parent ++ [name] ++ [text]) (.file (Template.find ready h.dir g.root g.config.protoPath
        g.config.outDir).content.toUTF8)) :=
    sameAround_put ready _ (List.prefix_append _ _) (by simp)
  have hDone := hPut.trans (hBelow.around hStart)
  constructor
  · unfold Compiler.discard
    split
    · rename_i rest hRemoved
      obtain ⟨found, text, hEntry, -, -, rfl⟩ := exists_of_removeEntry hRemoved
      obtain rfl := hReady.parent_eq hDone hIsName hEntry
      exact hDone.trans (sameAround_remove done.tree (List.prefix_append _ _) (by simp))
    · exact hDone
  · intro target hTarget
    have hPlacedLink := hBelow.no_link hStart (Compiler.within_discard done.tree h.dir _ _ _ hTarget)
    by_cases hText : text = Registry.fileName
    · subst hText
      rw [node?_put_self ready _ (by simp)] at hPlacedLink
      cases hPlacedLink
    · rw [node?_put_of_ne ready _ (by simpa using Ne.symm hText)] at hPlacedLink
      have hNone := hReady.made.empty _ (List.prefix_append (parent ++ [name]) [Registry.fileName]) (by simp)
      cases hNone.symm.trans hPlacedLink

end Ready

variable {parent : Location} {name : String}

/-- A cycle that ends well has changed nothing around the output directory, once that was made. -/
theorem Places.around_generate (hTokens : h.PlainTokens) (hBelow : h.WritesBelow (parent ++ [name]))
    (hPlace : g.Places h.dir parent name s) (hVacant : s.Vacant (parent ++ [name]))
    (hPrepare : (g.prepare h).Ends t s ()) (hEnds : (g.generate h).Ends t last generation) :
    ∃ ready, s.makeDirectories h.dir g.outDir = (ready, .ok ()) ∧ SameAround (parent ++ [name]) ready last := by
  rw [generate_eq] at hEnds
  obtain ⟨_, _, hPrepared, hRest⟩ := ends_bind_iff.mp hEnds
  obtain ⟨rfl, -⟩ := hPrepared.leaves.unique hPrepare.leaves
  obtain ⟨compilation, left, hRun, hFinish⟩ := ends_bind_iff.mp hRest
  obtain ⟨ready, placed, file, done, hPlaced, hStart, -, rfl⟩ :=
    Compiler.exists_start_of_ends_run (ends_mapError_iff.mp hRun)
  refine ⟨ready, hPlaced.made, ?_⟩
  have hReady := hPlace.ready_of_makeDirectories hVacant hPlaced.made
  obtain ⟨hCompiled, hNoLink⟩ := hReady.around_compiled hTokens hBelow hPlaced hStart
  obtain ⟨hThere, hDir⟩ := hReady.resolve_around hCompiled
  obtain ⟨services, written, hWrite, hLast⟩ := ends_finish hFinish
  obtain ⟨parents, hParents, hWritten⟩ := exists_writeContent_of_writeRegistry hWrite
  rw [Registry.filePath, makeParents_of_isDirectoryAt Registry.isName_fileName
    (isDirectoryAt_iff.mpr ⟨_, hThere, hDir⟩)]
    at hParents
  subst hParents
  obtain ⟨-, rfl⟩ := writeContent_join_eq Registry.isName_fileName hWritten hThere hDir hNoLink
  have hFilled := hCompiled.trans (sameAround_fill _ (Registry.ofServices services).text.toUTF8
    (List.prefix_append (parent ++ [name]) [Registry.fileName]) (by simp))
  rcases hLast with rfl | ⟨i, formatted, hFormat, rfl⟩
  · exact hFilled
  · exact hFilled.trans (hBelow.around hFormat)

/-- Of two trees that differ in what cleaning removes, cycles that clean make the same, up to the token in the
name of the template. If the programs write below the output directory alone, a cycle that has
ended well can be repeated, and nothing changes. -/
theorem clean_cycle_forgets (hBlind : Compiler.Blind h) (hTokens : ∀ n, IsToken (token n))
    (hTokens' : ∀ n, IsToken (token' n))
    (hClean : g.config.clean = true) (hValid : g.config.validate = .ok ())
    (hPlace : g.Places h.dir parent name (t.without (parent ++ [name])))
    (hAgree : t'.without (parent ++ [name]) = t.without (parent ++ [name]))
    (hFound : g.Removable h.dir (parent ++ [name]) t) (hFound' : g.Removable h.dir (parent ++ [name]) t') :
    Alike (GenerationError.SameBut g (h.absolute g.outDir)) ((g.generate (h.redraw token)).run t)
        ((g.generate (h.redraw token')).run t') ∧
      (h.WritesBelow (parent ++ [name]) → ∀ last generation, (g.generate (h.redraw token)).Ends t last generation →
        (g.generate (h.redraw token')).Ends last last generation) := by
  have hVacant : (t.without (parent ++ [name])).Vacant (parent ++ [name]) := vacant_without t (by simp)
  have hFresh (ready : FileTree)
      (hMade : (t.without (parent ++ [name])).makeDirectories h.dir g.outDir = (ready, .ok ())) :
      ready.Fresh h.dir (h.absolute g.outDir) := (hPlace.ready_of_makeDirectories hVacant hMade).fresh
  have hPrepare : (g.prepare (h.redraw token)).Ends t (t.without (parent ++ [name])) () :=
    ends_prepare hClean hValid hPlace hFound
  constructor
  · have hPrepare' : (g.prepare (h.redraw token')).Ends t' (t'.without (parent ++ [name])) () :=
      ends_prepare hClean hValid (hAgree ▸ hPlace) hFound'
    exact alike_generate hBlind hTokens hTokens' hPrepare hPrepare' (by rw [hAgree]) hFresh
  · intro hBelow last generation hEnds
    obtain ⟨ready, hMade, hAround⟩ := Places.around_generate (fun n => (hTokens n).plain (by decide))
      (h := h.redraw token) ⟨hBelow.around, hBelow.no_link⟩ hPlace hVacant hPrepare hEnds
    have hReady := hPlace.ready_of_makeDirectories hVacant hMade
    have hPlaceLast : g.Places h.dir parent name (last.without (parent ++ [name])) := by
      rw [hAround.without]
      exact ⟨.inl hReady.made.names, hReady.here⟩
    have hPrepare' : (g.prepare (h.redraw token')).Ends last (last.without (parent ++ [name])) () :=
      ends_prepare hClean hValid hPlaceLast (.inr (hReady.resolve_around hAround))
    have hAgain : (last.without (parent ++ [name])).makeDirectories h.dir g.outDir = (ready, .ok ()) := by
      rw [hAround.without]
      exact hReady.made.makeDirectories_without
    have hAlike := alike_generate hBlind hTokens hTokens' hPrepare hPrepare' (hMade.trans hAgain.symm) hFresh
    exact ⟨hAlike.tree.symm.trans hEnds.tree, hAlike.result_eq_ok hEnds.result⟩

end Generator

/-! ### A compiler that adds a module -/

namespace FileTree

variable {placed : FileTree} {dir place parent : Location} {file : Path} {name : String} {text : ByteArray}

def addMissing (t : FileTree) (place : Location) (content : ByteArray) : FileTree :=
  if t.node? place = none then t.put place (.file content) else t

theorem discard_of_entryOf {content : ByteArray} (hEntry : t.entryOf dir file = .ok (parent, .name name false))
    (hName : requireName name = .ok ())
    (hNode : t.node? (parent ++ [name]) = some (.file content)) :
    Compiler.discard t dir file = t.remove (parent ++ [name]) := by
  have hDir : t.isDirectory (parent ++ [name]) = false := by
    rw [isDirectory, hNode]
    rfl
  have hResolve := resolveEntry_of_entryOf hEntry hName (by simp [hNode])
  rw [Compiler.discard, removeEntry_of_resolveEntry (ending_of_entryOf hEntry).symm hResolve hDir]

/-- A file that is added beside another one stays when the other one goes. -/
theorem discard_addMissing (hEnds : (Ending.ofSegments file.segments).2 = .name name false)
    (hAdded : t.addFile dir file text = .ok placed) (hOther : place.getLast? ≠ some name) (content : ByteArray) :
    Compiler.discard (placed.addMissing place content) dir file = t.addMissing place content := by
  obtain ⟨parent, last, hEntry, hFree, hRoom, rfl⟩ := addFile_eq_ok_iff.mp hAdded
  obtain ⟨rfl, -⟩ := Ending.name.inj ((ending_of_entryOf hEntry).trans hEnds)
  have hName := (requireRoom_eq_ok_iff.mp hRoom).1
  have hPlace : place ≠ parent ++ [last] := by
    rintro rfl
    exact hOther List.getLast?_concat
  have hPut := t.node?_put_self (.file text) (show parent ++ [last] ≠ [] by simp)
  have hWays := keepsWays_put (fun node hNode => by cases hFree.symm.trans hNode) (.file text)
  unfold addMissing
  rw [node?_put_of_ne t _ hPlace]
  split
  · rename_i hMissing
    rw [put_comm t hPlace.symm]
    have hMissingWays : t.KeepsWays (t.put place (.file content)) :=
      keepsWays_put (fun node hNode => by cases hMissing.symm.trans hNode) _
    have hFreeStill := (node?_put_of_ne t (.file content) hPlace.symm).trans hFree
    have hPutWays := keepsWays_put (fun node hNode => by cases hFreeStill.symm.trans hNode) (.file text)
    rw [discard_of_entryOf (hPutWays.entryOf (hMissingWays.entryOf hEntry)) hName (node?_put_self _ _ (by simp)),
      remove_put hFreeStill]
  · rw [discard_of_entryOf (hWays.entryOf hEntry) hName hPut, remove_put hFree]

end FileTree

namespace Generator

def pingModule : ByteArray := "export const PingService: GenService<\x7b\x7d> = s;".toUTF8

def addingHost : Host where
  dir := ["app"]
  start _ t := .ok ⟨t.addMissing ["app", "gen", "ping_pb.ts"] pingModule, .code 0, .empty, .empty⟩
  token _ := "000000"

theorem blind_addingHost : Compiler.Blind addingHost where
  stored _ := rfl
  called := by
    intro base content t old new placed placed' hTwins c protoPath flags
    have hLength := hTwins.names.sameLength
    have hLast (name : String) (hName : name.toList.head? = some 'b') :
        ["app", "gen", "ping_pb.ts"].getLast? ≠ some name := by
      intro hSame
      obtain rfl := Option.some.inj hSame
      revert hName
      decide
    refine .ended rfl ?_ (.same _)
    have hOld := discard_addMissing (ofSegments_join_name base hLength.isName) hTwins.added
      (hLast old hTwins.names.head?_eq.1) pingModule
    have hNew := discard_addMissing (ofSegments_join_name base hLength.isName') hTwins.added'
      (hLast new hTwins.names.head?_eq.2) pingModule
    exact hOld.trans hNew.symm

theorem writesBelow_addingHost : addingHost.WritesBelow ["app", "gen"] where
  around := by
    rintro i t _ ⟨⟩
    unfold addMissing
    split
    · exact sameAround_put t _ (by decide) (by decide)
    · exact .refl _ t
  no_link := by
    rintro i t _ target ⟨⟩ hTarget
    unfold addMissing at hTarget
    split at hTarget
    · rwa [node?_put_of_ne t _ (by decide)] at hTarget
    · exact hTarget

def staleTree : FileTree := (pingTree.put ["app", "gen"] .directory).put ["app", "gen", "ping_pb.ts"]
  (.file "export const OldService: GenService<\x7b\x7d> = s;".toUTF8)

/-- The old module is gone in every run, and the new one is there whatever the template was called. -/
theorem clean_cycle_forgets_ping : ∃ last generation,
    (pingGenerator.generate (addingHost.redraw fun _ => "000000")).Ends staleTree last generation ∧
      generation.services = [Service.ofBaseName "Ping" "./ping_pb"] ∧
      (pingGenerator.generate (addingHost.redraw fun _ => "aB3xY9")).Ends
        (staleTree.without ["app", "gen"]) last generation ∧
      (pingGenerator.generate (addingHost.redraw fun _ => "aB3xY9")).Ends last last generation := by
  have hToken : IsToken "000000" := .of_all (by decide) (by decide)
  have hToken' : IsToken "aB3xY9" := .of_all (by decide) (by decide)
  have hEntry : (staleTree.without ["app", "gen"]).entryOf ["app"] pingGenerator.outDir =
    .ok (["app"], .name "gen" false) := by decide +kernel
  have hHere : (staleTree.without ["app", "gen"]).resolve [] "/app" = .ok ["app"] := by decide +kernel
  have hPlace : pingGenerator.Places addingHost.dir ["app"] "gen" (staleTree.without ["app", "gen"]) :=
    ⟨.inl ⟨false, hEntry⟩, fun _ => hHere⟩
  have hVacant : (staleTree.without ["app", "gen"]).Vacant ["app", "gen"] := vacant_without _ (by decide)
  have hFound : staleTree.resolve ["app"] pingGenerator.outDir = .ok ["app", "gen"] ∧
    staleTree.isDirectory ["app", "gen"] = true := by decide +kernel
  obtain ⟨hAlike, hAgain⟩ := clean_cycle_forgets (g := pingGenerator) (t := staleTree) blind_addingHost
    (fun _ => hToken) (fun _ => hToken') rfl (by decide +kernel) hPlace hVacant.without_eq (.inr hFound) (.inl hVacant)
  have hServices : ((pingGenerator.generate (addingHost.redraw fun _ => "000000")).run staleTree).result.toOption.map
      Generation.services = some [Service.ofBaseName "Ping" "./ping_pb"] := by decide +kernel
  cases hResult : ((pingGenerator.generate (addingHost.redraw fun _ => "000000")).run staleTree).result with
  | error e =>
    rw [hResult] at hServices
    cases hServices
  | ok generation =>
    rw [hResult] at hServices
    have hEnds : (pingGenerator.generate (addingHost.redraw fun _ => "000000")).Ends staleTree _ generation :=
      ⟨rfl, hResult⟩
    exact ⟨_, generation, hEnds, Option.some.inj hServices, ⟨hAlike.tree.symm, hAlike.result_eq_ok hResult⟩,
      hAgain writesBelow_addingHost _ _ hEnds⟩

/-- Through a directory that is still to be made, the output directory is not found and not cleaned, and what was
in it comes into the registry. -/
theorem stale_output_leaks : Compiler.Blind addingHost ∧ (∀ n, IsToken (addingHost.token n)) ∧
    detourGenerator.config.clean = true ∧ detourGenerator.config.validate.toOption = some () ∧
    (staleTree.without ["app", "gen"]).without ["app", "gen"] = staleTree.without ["app", "gen"] ∧
    staleTree.isDirectory ["app", "gen"] = true ∧ detourGenerator.outDir.locate ["app"] = ["app", "gen"] ∧
    ((detourGenerator.generate addingHost).run staleTree).result.toOption.map Generation.services =
      some [Service.ofBaseName "Old" "./ping_pb"] ∧
    ((detourGenerator.generate addingHost).run
        (staleTree.without ["app", "gen"])).result.toOption.map Generation.services =
      some [Service.ofBaseName "Ping" "./ping_pb"] := by
  have hToken : IsToken "000000" := .of_all (by decide) (by decide)
  refine ⟨blind_addingHost, fun _ => hToken, rfl, by decide +kernel,
    (vacant_without staleTree (by decide)).without_eq, by decide +kernel, by decide, ?_, ?_⟩
  · decide +kernel
  · decide +kernel

end Generator

end ClientRegistry
