import ClientRegistry.Proofs.FileTree.Reading
import ClientRegistry.Proofs.Generation.Course
import ClientRegistry.Proofs.Generation.Imports
import ClientRegistry.Proofs.Path.Spelling

/-!
# The temporary template

While the compiler is called, its template stands in the output directory under a name of its own, and
nothing that was there has made way for it. Whichever way the run ends, the template is taken away
again: what a path to it still names afterwards is a directory, which the compiler must have put there.
-/

set_option autoImplicit false

namespace ClientRegistry

open FileTree

def Host.PlainTokens (h : Host) : Prop := ∀ n, '/' ∉ (h.token n).toList

namespace Template

variable {t : FileTree} {dir : Location} {root protoPath outDir file : Path} {template : Template}

def extensions : List String := ["yaml", "yml", "json"]

structure HasFormat (template : Template) : Prop where
  known : template.extension ∈ extensions
  of_file : ∀ file, template.source = .file file → file.extension? = some template.extension
  of_default : template.source = .default → template.extension = "yaml"

theorem extension?_join (p : Path) {name : String} (h : IsName name) :
    (p.join ⟨name⟩).extension? = (splitExtension name).2 := by
  unfold Path.extension? Path.fileName?
  rw [Path.components_join_name p h, List.getLast?_concat]
  rfl

theorem extension?_of_mem_locations (h : file ∈ locations root protoPath) :
    ∃ extension ∈ extensions, file.extension? = some extension := by
  have hNames : ∀ name ∈ fileNames, IsName name ∧
      ∃ extension ∈ extensions, (splitExtension name).2 = some extension := by
    decide
  unfold locations at h
  rw [List.mem_append, List.mem_map, List.mem_map] at h
  rcases h with ⟨name, hName, rfl⟩ | ⟨name, hName, rfl⟩
  · obtain ⟨hIsName, extension, hKnown, hSplit⟩ := hNames name hName
    exact ⟨extension, hKnown, (extension?_join _ hIsName).trans hSplit⟩
  · obtain ⟨hIsName, extension, hKnown, hSplit⟩ := hNames name hName
    exact ⟨extension, hKnown, (extension?_join _ hIsName).trans hSplit⟩

theorem hasFormat_find (t : FileTree) (dir : Location) (root protoPath outDir : Path) :
    (find t dir root protoPath outDir).HasFormat := by
  unfold find
  cases hFirst : firstReadable? t dir (locations root protoPath) with
  | none =>
    have hYaml : "yaml" ∈ extensions := by decide
    refine ⟨hYaml, ?_, fun _ => rfl⟩
    intro file hSource
    cases hSource
  | some template =>
    rw [Option.getD_some]
    obtain ⟨file, hFile, hRead⟩ := List.exists_of_findSome?_eq_some hFirst
    split at hRead
    · cases hRead
      obtain ⟨extension, hKnown, hExtension⟩ := extension?_of_mem_locations hFile
      rename_i content hText
      have hCopy : Template.extension ⟨.file file, content⟩ = extension := congrArg (Option.getD · "yaml") hExtension
      refine ⟨hCopy ▸ hKnown, ?_, ?_⟩
      · intro other hSource
        cases hSource
        rw [hExtension, ← hCopy]
      · intro hSource
        cases hSource
    · cases hRead

theorem HasFormat.no_slash (h : template.HasFormat) : '/' ∉ template.extension.toList := by
  have hExtensions : ∀ extension ∈ extensions, '/' ∉ extension.toList := by decide
  exact hExtensions _ h.known

theorem HasFormat.no_dot (h : template.HasFormat) : '.' ∉ template.extension.toList := by
  have hExtensions : ∀ extension ∈ extensions, '.' ∉ extension.toList := by decide
  exact hExtensions _ h.known

/-- A template is no generated module: its name does not end like that of one. -/
theorem HasFormat.getLast?_ne (h : template.HasFormat) : template.extension.toList.getLast? ≠ some 's' ∧
    template.extension.toList ≠ [] := by
  have hExtensions : ∀ extension ∈ extensions, extension.toList.getLast? ≠ some 's' ∧ extension.toList ≠ [] := by decide
  exact hExtensions _ h.known

end Template

namespace FileTree

theorem ofSegments_join_name (p : Path) {name : String} (h : IsName name) :
    (Ending.ofSegments (p.join ⟨name⟩).segments).2 = .name name false := by
  rcases Path.segments_join_name p h with ⟨init, -, hJoined⟩ | hJoined
  · rw [hJoined, ofSegments_concat h]
  · rw [hJoined, ofSegments_concat h]

end FileTree

namespace Compiler

variable {h : Host} {c : Compiler} {protoPath outDir out file : Path} {flags token content : String}
  {t ready placed used left : FileTree} {template : Template} {result : Except CompileError Compilation}
  {loc : Location}

/-! ### Its name -/

theorem isName_temporaryName {extension : String} (hToken : '/' ∉ token.toList) (hExtension : '/' ∉ extension.toList) :
    IsName (temporaryName token extension) := by
  have hChars : (temporaryName token extension).toList =
      'b' :: "uf.gen.".toList ++ token.toList ++ ".".toList ++ extension.toList := by
    rw [temporaryName, String.toList_append, String.toList_append, String.toList_append]
    rfl
  have hFirst : ∀ other : String, other.toList.head? ≠ some 'b' → temporaryName token extension ≠ other := by
    rintro _ hOther rfl
    exact hOther (by rw [hChars]; rfl)
  refine ⟨hFirst _ (by decide), hFirst _ (by decide), hFirst _ (by decide), ?_⟩
  rw [hChars]
  simp only [List.mem_append, not_or]
  exact ⟨⟨⟨by decide, hToken⟩, by decide⟩, hExtension⟩

theorem splitExtension_temporaryName {extension : String} (hDot : '.' ∉ extension.toList) :
    (splitExtension (temporaryName token extension)).2 = some extension := by
  have hStem : "buf.gen." ++ token ≠ "" := by simp
  rw [temporaryName, splitExtension_append hStem hDot]

/-! ### Its place -/

theorem exists_addFile_of_placeFile {name : Nat → String} {attempts : Nat} {base : Path}
    (hPlaced : placeFile t loc base content name attempts = .ok (placed, file)) :
    ∃ n, file = base.join ⟨name n⟩ ∧ t.addFile loc file content.toUTF8 = .ok placed := by
  induction attempts with
  | zero => cases hPlaced
  | succ attempts ih =>
    rw [placeFile_succ] at hPlaced
    split at hPlaced
    · rename_i made hMade
      cases hPlaced
      exact ⟨attempts, rfl, hMade⟩
    · exact ih hPlaced
    · cases hPlaced

structure Stands (h : Host) (out : Path) (template : Template) (t placed : FileTree) (file : Path) : Prop where
  named : ∃ n, file = (h.absolute out).join ⟨temporaryName (h.token n) template.extension⟩
  text : placed.textAt h.dir file = .ok template.content
  extension : file.extension? = some template.extension
  added : ∃ place, placed.resolveEntry h.dir file = .ok place ∧ t.node? place = none ∧
    placed = t.put place (.file template.content.toUTF8)

theorem stands_of_placeTemplate (hTokens : h.PlainTokens) (hFormat : template.HasFormat)
    (hPlaced : placeTemplate h out template t = .ok (placed, file)) : Stands h out template t placed file := by
  obtain ⟨n, rfl, hAdded⟩ := exists_addFile_of_placeFile hPlaced
  have hIsName := isName_temporaryName (hTokens n) hFormat.no_slash
  have hEnds := ofSegments_join_name (h.absolute out) hIsName
  obtain ⟨parent, name, hEntry, hFree, hRoom, rfl⟩ := addFile_eq_ok_iff.mp hAdded
  obtain ⟨rfl, -⟩ := Ending.name.inj ((ending_of_entryOf hEntry).trans hEnds)
  have hNew := t.node?_put_self (.file template.content.toUTF8)
    (show parent ++ [temporaryName (h.token n) template.extension] ≠ [] by simp)
  have hWays : t.KeepsWays (t.put (parent ++ [temporaryName (h.token n) template.extension])
      (.file template.content.toUTF8)) := by
    refine keepsWays_put ?_ _
    intro node hNode
    cases hFree.symm.trans hNode
  have hName := (requireRoom_eq_ok_iff.mp hRoom).1
  refine ⟨⟨n, rfl⟩, ?_, ?_, parent ++ [temporaryName (h.token n) template.extension], ?_, hFree, rfl⟩
  · exact textAt_of_node (resolve_of_entryOf (hWays.entryOf hEntry) hName hNew nofun) hNew
  · rw [Template.extension?_join _ hIsName, splitExtension_temporaryName hFormat.no_dot]
  · exact (resolveEntry_eq_ok_iff hEnds).mpr ⟨parent, hWays.entryOf hEntry, hName, rfl, by rw [hNew]; rfl⟩

theorem Stands.ending (h' : Stands h out template t placed file) (hTokens : h.PlainTokens)
    (hFormat : template.HasFormat) :
    ∃ name, (Ending.ofSegments file.segments).2 = .name name false := by
  obtain ⟨n, rfl⟩ := h'.named
  exact ⟨_, ofSegments_join_name _ (isName_temporaryName (hTokens n) hFormat.no_slash)⟩

/-! ### Its end -/

/-- The second tree is the first one without the file; only a directory can have its path now. -/
structure Gone (dir : Location) (file : Path) (used left : FileTree) : Prop where
  kept : left = used ∨ ∃ place, used.resolveEntry dir file = .ok place ∧ left = used.remove place
  absent : ∀ place, left.resolveEntry dir file = .ok place →
    used.resolveEntry dir file = .ok place ∧ used.isDirectory place = true

theorem gone_discard {dir : Location} {name : String} (hEnds : (Ending.ofSegments file.segments).2 = .name name false)
    (used : FileTree) : Gone dir file used (discard used dir file) := by
  cases hEntry : used.resolveEntry dir file with
  | error e =>
    have hNothing : discard used dir file = used := by
      unfold discard
      split
      · rename_i rest hRemoved
        obtain ⟨place, hPlace, -⟩ := resolveEntry_of_removeEntry hEnds hRemoved
        cases hEntry.symm.trans hPlace
      · rfl
    rw [hNothing]
    exact ⟨.inl rfl, fun place hPlace => by cases hEntry.symm.trans hPlace⟩
  | ok place =>
    cases hDir : used.isDirectory place with
    | true =>
      have hNothing : discard used dir file = used := by
        unfold discard
        split
        · rename_i rest hRemoved
          obtain ⟨other, hOther, hOtherDir⟩ := resolveEntry_of_removeEntry hEnds hRemoved
          obtain rfl := Except.ok.inj (hEntry.symm.trans hOther)
          cases hDir.symm.trans hOtherDir
        · rfl
      rw [hNothing]
      refine ⟨.inl rfl, fun other hOther => ?_⟩
      obtain rfl := Except.ok.inj (hEntry.symm.trans hOther)
      exact ⟨hOther, hDir⟩
    | false =>
      have hRemoved : discard used dir file = used.remove place := by
        rw [discard, removeEntry_of_resolveEntry hEnds hEntry hDir]
      rw [hRemoved]
      refine ⟨.inr ⟨place, hEntry, rfl⟩, fun other hOther => ?_⟩
      have hBefore := (within_remove used place).resolveEntry hEnds hOther
      obtain rfl := Except.ok.inj (hEntry.symm.trans hBefore)
      obtain ⟨parent, -, -, rfl, hSome⟩ := (resolveEntry_eq_ok_iff hEnds).mp hOther
      rw [node?_remove_self used (by simp)] at hSome
      cases hSome

theorem discard_of_stands (hTokens : h.PlainTokens) (hFormat : template.HasFormat)
    (hStands : Stands h out template t placed file) : discard placed h.dir file = t := by
  obtain ⟨name, hEnds⟩ := hStands.ending hTokens hFormat
  obtain ⟨place, hEntry, hFree, rfl⟩ := hStands.added
  obtain ⟨parent, -, -, hPlace, -⟩ := (resolveEntry_eq_ok_iff hEnds).mp hEntry
  have hRoot : place ≠ [] := by simp [hPlace]
  have hDir : (t.put place (.file template.content.toUTF8)).isDirectory place = false := by
    rw [isDirectory, node?_put_self _ _ hRoot]
    rfl
  rw [discard, removeEntry_of_resolveEntry hEnds hEntry hDir]
  exact remove_put hFree _

/-! ### What is collected beside it -/

theorem suffix_join (p : Path) (name : String) : name.toList <:+ (p.join ⟨name⟩).text.toList := by
  cases hAbsolute : (Path.mk name).isAbsolute with
  | true => simp only [Path.join_of_absolute p hAbsolute, List.suffix_rfl]
  | false => exact Path.text_suffix_join p hAbsolute

theorem suffix_absolute (h : Host) (p : Path) : p.text.toList <:+ (h.absolute p).text.toList := by
  unfold Host.absolute
  split
  · exact List.suffix_rfl
  · exact suffix_join h.dir.toPath p.text

/-- What is collected has the output directory's own path, or ends like a generated module. -/
theorem suffix_of_collect {dir : Location} {files : List Path} (hFiles : collect t dir out = .ok files) :
    ∀ f ∈ files, f = out ∨ generatedSuffix.toList <:+ f.text.toList := by
  rcases collect_eq_ok hFiles with rfl | ⟨root, -, rfl⟩
  · intro f hf
    cases hf
  · intro f hf
    obtain ⟨place, hPlace, rfl⟩ := List.mem_map.mp hf
    obtain ⟨hListed, hGenerated⟩ := List.mem_filter.mp hPlace
    obtain ⟨names, -, rfl, -⟩ := mem_files hListed
    rw [pathBelow_append]
    rcases List.eq_nil_or_concat names with rfl | ⟨up, last, rfl⟩
    · exact .inl rfl
    · right
      rw [List.concat_eq_append] at hGenerated ⊢
      have hLast : generatedSuffix.toList.isSuffixOf last.toList = true := by
        simpa [isGenerated, ← List.append_assoc] using hGenerated
      rw [Path.joinNames_concat]
      exact (List.isSuffixOf_iff_suffix.mp hLast).trans (suffix_join _ last)

theorem getLast?_of_suffix {α : Type} {end' all : List α} (h : end' <:+ all) (hEnd : end' ≠ []) :
    all.getLast? = end'.getLast? := by
  obtain ⟨before, rfl⟩ := h
  exact List.getLast?_append_of_ne_nil before hEnd

theorem absolute_ne_of_collect {files : List Path} (hTokens : h.PlainTokens) (hFormat : template.HasFormat)
    (hStands : Stands h out template t placed file) (hFiles : collect left h.dir out = .ok files) :
    ∀ f ∈ files, h.absolute f ≠ file := by
  obtain ⟨n, rfl⟩ := hStands.named
  have hIsName := isName_temporaryName (hTokens n) hFormat.no_slash
  intro f hf hSame
  rcases suffix_of_collect hFiles f hf with rfl | hGenerated
  · have hComponents := congrArg Path.components hSame
    rw [Path.components_join_name _ hIsName] at hComponents
    simp at hComponents
  · have hSuffix : generatedSuffix.toList ≠ [] ∧ generatedSuffix.toList.getLast? = some 's' := by decide
    have hLetter := getLast?_of_suffix (hGenerated.trans (suffix_absolute h f)) hSuffix.1
    obtain ⟨hOther, hSome⟩ := hFormat.getLast?_ne
    have hName : template.extension.toList <:+ (temporaryName (h.token n) template.extension).toList := by
      rw [temporaryName, String.toList_append]
      exact List.suffix_append _ _
    rw [hSame, getLast?_of_suffix (hName.trans (suffix_join _ _)) hSome, hSuffix.2] at hLetter
    exact hOther hLetter

/-! ### Every run -/

theorem transient_of_placement (hTokens : h.PlainTokens) (hPlaced : Placement h c protoPath outDir t ready placed file)
    (used : FileTree) :
    Stands h (c.root.join outDir) (Template.find ready h.dir c.root protoPath outDir) ready placed file ∧
      Gone h.dir file used (discard used h.dir file) ∧ (used = placed → discard used h.dir file = ready) := by
  have hFormat := Template.hasFormat_find ready h.dir c.root protoPath outDir
  have hStands := stands_of_placeTemplate hTokens hFormat hPlaced.placed
  obtain ⟨name, hEnds⟩ := hStands.ending hTokens hFormat
  refine ⟨hStands, gone_discard hEnds used, ?_⟩
  rintro rfl
  exact discard_of_stands hTokens hFormat hStands

/-- In every run the template is there for the compiler alone. If there is a call at all, the template stands
in the tree that the compiler gets, with the text that was found and in the format of its source, and it
was put where nothing was. When the run has ended it is gone, whatever the compiler has done and however
the run has ended, unless the compiler has made a directory of its path; and it has not been collected.
A compiler that changes nothing leaves the tree with what was missing of the output directory. -/
theorem template_transient (hTokens : h.PlainTokens) (hRun : (c.run h protoPath outDir flags).Leaves t left result) :
    ∃ ready, MakesWay h.dir (c.root.join outDir).ancestors t ready ∧
      ((left = ready ∧ ((∃ cause, result = .error (.outDir (c.root.join outDir) cause)) ∨
          ∃ file cause, result = .error (.template (c.root.join outDir) file cause))) ∨
        ∃ template placed used file ended, template = Template.find ready h.dir c.root protoPath outDir ∧
          template.HasFormat ∧ Stands h (c.root.join outDir) template ready placed file ∧
          Serves h c (c.root.join outDir) (commandLine c.command protoPath file flags) file placed used ended ∧
          (∀ e, ended = .error e → result = .error e) ∧
          Gone h.dir file used left ∧ (used = placed → left = ready) ∧
          ∀ made, result = .ok made → ∀ f ∈ made.files, h.absolute f ≠ file) := by
  cases course_of_leaves hRun with
  | noOutDir hReady => exact ⟨left, makesWay_of_makeDirectories hReady, .inl ⟨rfl, .inl ⟨_, rfl⟩⟩⟩
  | noTemplate hReady _ => exact ⟨left, makesWay_of_makeDirectories hReady, .inl ⟨rfl, .inr ⟨_, _, rfl⟩⟩⟩
  | @notServed ready placed used file e hPlaced hServes =>
    obtain ⟨hStands, hGone, hSame⟩ := transient_of_placement hTokens hPlaced used
    refine ⟨ready, makesWay_of_makeDirectories hPlaced.made, .inr ⟨_, placed, used, file, _, rfl,
      Template.hasFormat_find _ _ _ _ _, hStands, hServes, ?_, hGone, hSame, ?_⟩⟩
    · rintro _ ⟨⟩
      rfl
    · rintro _ ⟨⟩
  | @notListed ready placed used file cause hPlaced hServes hFiles =>
    obtain ⟨hStands, hGone, hSame⟩ := transient_of_placement hTokens hPlaced used
    refine ⟨ready, makesWay_of_makeDirectories hPlaced.made, .inr ⟨_, placed, used, file, _, rfl,
      Template.hasFormat_find _ _ _ _ _, hStands, hServes, ?_, hGone, hSame, ?_⟩⟩
    · rintro _ ⟨⟩
    · rintro _ ⟨⟩
  | @finished ready placed used file files hPlaced hServes hFiles =>
    have hFormat := Template.hasFormat_find ready h.dir c.root protoPath outDir
    obtain ⟨hStands, hGone, hSame⟩ := transient_of_placement hTokens hPlaced used
    refine ⟨ready, makesWay_of_makeDirectories hPlaced.made, .inr ⟨_, placed, used, file, _, rfl, hFormat,
      hStands, hServes, ?_, hGone, hSame, ?_⟩⟩
    · rintro _ ⟨⟩
    · rintro _ ⟨⟩
      exact absolute_ne_of_collect hTokens hFormat hStands hFiles

open Generator in
/-- The module of the host is collected, and the template beside it is not. -/
theorem template_transient_ping : pingHost.PlainTokens ∧ ∃ left made ready placed used file ended,
    ((⟨".", "buf"⟩ : Compiler).run pingHost "proto" "gen" "").Leaves pingTree left (.ok made) ∧ made.files ≠ [] ∧
      Stands pingHost "./gen" (Template.find ready pingHost.dir "." "proto" "gen") ready placed file ∧
      Serves pingHost ⟨".", "buf"⟩ "./gen" (commandLine "buf" "proto" file "") file placed used ended ∧
      Gone pingHost.dir file used left ∧ ∀ f ∈ made.files, pingHost.absolute f ≠ file := by
  have hToken : '/' ∉ "0".toList := by decide
  have hTokens : pingHost.PlainTokens := fun _ => hToken
  have hFiles : ((((⟨".", "buf"⟩ : Compiler).run pingHost "proto" "gen" "").run pingTree).result.toOption.map
      Compilation.files) = some [⟨"./gen/größe/ping.v1_pb.ts"⟩] := by decide +kernel
  have hRun := Work.leaves_run ((⟨".", "buf"⟩ : Compiler).run pingHost "proto" "gen" "") pingTree
  cases hResult : (((⟨".", "buf"⟩ : Compiler).run pingHost "proto" "gen" "").run pingTree).result with
  | error e =>
    rw [hResult] at hFiles
    cases hFiles
  | ok made =>
    rw [hResult] at hFiles hRun
    obtain ⟨ready, -, ⟨-, hNone⟩ | hPlaced⟩ := template_transient hTokens hRun
    · rcases hNone with ⟨_, ⟨⟩⟩ | ⟨_, _, ⟨⟩⟩
    · obtain ⟨template, placed, used, file, ended, rfl, -, hStands, hServes, -, hGone, -, hPrivate⟩ := hPlaced
      refine ⟨hTokens, _, made, ready, placed, used, file, ended, hRun, ?_, hStands, hServes, hGone, hPrivate made rfl⟩
      rw [Option.some.inj hFiles]
      exact List.cons_ne_nil _ _

end Compiler

end ClientRegistry
