import ClientRegistry.Proofs.FileTree.Listing
import ClientRegistry.Proofs.FileTree.Writing
import ClientRegistry.Proofs.Generation.Stages
import ClientRegistry.Proofs.Path.Import
import ClientRegistry.Proofs.Service.FirstDeclaration
import ClientRegistry.Proofs.Service.Partition

/-!
# Services are imported from the files that declare them

Each file that a cycle collects lies below the output directory under names that can stand in a path,
so it has an import path, and the import path leads back to it. What the extraction keeps of it is
then imported from where it is declared, and no two services are imported from one place.
-/

set_option autoImplicit false

namespace ClientRegistry

variable {t left : FileTree} {dir : Location} {outDir file : Path} {files : List Path}

/-- The file has an import path, which leads back to it. -/
def Path.Importable (outDir file : Path) : Prop :=
  ∃ below, outDir.importPath? file = some ("./" ++ below) ∧ outDir.importedFile below = file

/-! ### Collected files -/

namespace Compiler

/-- The name of a generated module is a name with the extension of a module. -/
theorem stem_of_suffix {name : String} (hName : IsName name)
    (hSuffix : generatedSuffix.toList.isSuffixOf name.toList = true) : ∃ stem, IsName stem ∧ name = stem ++ ".ts" := by
  obtain ⟨before, hBefore⟩ := List.isSuffixOf_iff_suffix.mp hSuffix
  have hText : name = String.ofList (before ++ "_pb".toList) ++ ".ts" := by
    rw [← String.toList_inj, ← hBefore, String.toList_append, String.toList_ofList, List.append_assoc]
    rfl
  have hLength : ∀ other : String, other.toList.length < 3 → String.ofList (before ++ "_pb".toList) ≠ other := by
    rintro _ hShort rfl
    have hSuffixLength : "_pb".toList.length = 3 := by decide
    rw [String.toList_ofList, List.length_append, hSuffixLength] at hShort
    omega
  refine ⟨_, ⟨hLength "" (by decide), hLength "." (by decide), hLength ".." (by decide), ?_⟩, hText⟩
  have hSlash := hName.no_slash
  rw [hText, String.toList_append, List.mem_append, not_or] at hSlash
  exact hSlash.1

theorem collect_eq_ok (h : collect t dir outDir = .ok files) :
    files = [] ∨ ∃ loc, t.resolve dir outDir = .ok loc ∧
      files = ((t.files loc).filter isGenerated).map (FileTree.pathBelow outDir loc) := by
  obtain ⟨root, hRoot, hFiles⟩ := bind_eq_ok_iff.mp h
  split at hFiles
  · rename_i loc
    cases hFiles
    exact .inr ⟨loc, FileTree.resolve_of_listingRoot hRoot, rfl⟩
  · cases hFiles
    exact .inl rfl

theorem isName_of_mem_files {loc : Location} {names : List String} (hNames : t.WellNamed)
    (h : loc ++ names ∈ t.files loc) : ∀ name ∈ names, IsName name := by
  obtain ⟨_, content, hPlace, hFile⟩ := FileTree.mem_files h
  exact fun name hName => hNames _ _ hFile name (List.mem_append_right loc hName)

theorem nodup_of_collect (hNames : t.WellNamed) (h : collect t dir outDir = .ok files) : files.Nodup := by
  rcases collect_eq_ok h with rfl | ⟨loc, -, rfl⟩
  · exact List.nodup_nil
  · refine List.Nodup.map_on ?_ ((t.nodup_files loc).filter _)
    intro place hPlace place' hPlace' hSame
    have hPlace := (List.mem_filter.mp hPlace).1
    have hPlace' := (List.mem_filter.mp hPlace').1
    obtain ⟨names, -, rfl, -⟩ := FileTree.mem_files hPlace
    obtain ⟨names', -, rfl, -⟩ := FileTree.mem_files hPlace'
    rw [FileTree.pathBelow_append, FileTree.pathBelow_append] at hSame
    rw [Path.joinNames_inj (isName_of_mem_files hNames hPlace) (isName_of_mem_files hNames hPlace') hSame]

/-- What is collected below a directory can be imported. -/
theorem importable_of_collect (hNames : t.WellNamed) (h : collect t dir outDir = .ok files)
    (hRoot : ∀ loc content, t.resolve dir outDir = .ok loc → t.node? loc ≠ some (.file content)) :
    ∀ file ∈ files, outDir.Importable file := by
  rcases collect_eq_ok h with rfl | ⟨loc, hLoc, rfl⟩
  · exact fun file hFile => absurd hFile List.not_mem_nil
  · intro file hFile
    obtain ⟨place, hPlace, rfl⟩ := List.mem_map.mp hFile
    obtain ⟨hListed, hGenerated⟩ := List.mem_filter.mp hPlace
    obtain ⟨below, content, rfl, hContent⟩ := FileTree.mem_files hListed
    have hBelow := isName_of_mem_files hNames hListed
    rcases List.eq_nil_or_concat below with rfl | ⟨names, last, rfl⟩
    · rw [List.append_nil] at hContent
      exact absurd hContent (hRoot loc content hLoc)
    · rw [List.concat_eq_append] at hBelow hGenerated ⊢
      have hLast : IsName last := hBelow last (List.mem_append_right names (List.mem_singleton_self last))
      have hSuffix : generatedSuffix.toList.isSuffixOf last.toList = true := by
        simpa [isGenerated, ← List.append_assoc] using hGenerated
      obtain ⟨stem, hStem, rfl⟩ := stem_of_suffix hLast hSuffix
      have hUp : ∀ name ∈ names, IsName name := fun name hName => hBelow name (List.mem_append_left _ hName)
      rw [FileTree.pathBelow_append]
      exact ⟨_, outDir.importPath?_joinNames hUp hStem hLast, outDir.importedFile_intercalate hUp hStem hLast⟩

end Compiler

/-! ### Services -/

namespace Service

variable (t dir outDir files) in
/-- Each service is imported from a file of the list, once there, that declares it first, and from no
file that another service is imported from. -/
structure ImportsFrom (services : List Service) : Prop where
  resolves : ∀ s ∈ services, ∃ below text name, s.importPath = "./" ++ below ∧
    files.count (outDir.importedFile below) = 1 ∧ t.textAt dir (outDir.importedFile below) = .ok text ∧
      LeftmostDeclaration text.toList name.toList ∧ s.identifier = name ++ "Service"
  distinct : (services.map Service.importPath).Nodup

/-- A service is imported from the file it is kept for. -/
theorem Ledger.imported_of_mem {entries : List (Path × Verdict)} {e : Extraction} {s : Service}
    (h : Ledger t dir outDir entries e) (hFile : outDir.Importable file) (hMem : (file, .ok s) ∈ entries) :
    ∃ below text name, s.importPath = "./" ++ below ∧ outDir.importedFile below = file ∧
      t.textAt dir file = .ok text ∧ declaredName text = .ok name ∧ s.identifier = name ++ "Service" := by
  obtain ⟨name, importPath, ⟨⟨text, hText, hName⟩, hLocated⟩, rfl⟩ := h.usable_of_mem hMem
  obtain ⟨below, hImport, hBack⟩ := hFile
  obtain rfl := Option.some.inj (hLocated.symm.trans hImport)
  exact ⟨below, text, name, rfl, hBack, hText, hName, rfl⟩

theorem Ledger.importPath_ne {entries : List (Path × Verdict)} {e : Extraction} {s s' : Service} {file' : Path}
    (h : Ledger t dir outDir entries e) (hFile : outDir.Importable file) (hFile' : outDir.Importable file')
    (hOther : file ≠ file') (hMem : (file, .ok s) ∈ entries) (hMem' : (file', .ok s') ∈ entries) :
    s.importPath ≠ s'.importPath := by
  obtain ⟨below, -, -, hImport, hBack, -⟩ := h.imported_of_mem hFile hMem
  obtain ⟨below', -, -, hImport', hBack', -⟩ := h.imported_of_mem hFile' hMem'
  intro hSame
  have hBelow : below = below' := by simpa [hImport, hImport'] using hSame
  exact hOther (by rw [← hBack, ← hBack', hBelow])

/-- If every file of the list can be imported, the services kept are imported from their files. -/
theorem importsFrom_extract (hNodup : files.Nodup) (hFiles : ∀ file ∈ files, outDir.Importable file) :
    ImportsFrom t dir outDir files (extract t dir outDir files).services := by
  obtain ⟨entries, rfl, hLedger⟩ := exists_ledger t dir outDir files
  constructor
  · intro s hs
    obtain ⟨file, hMem⟩ := hLedger.mem_services_iff.mp hs
    have hFile := List.mem_map_of_mem (f := Prod.fst) hMem
    obtain ⟨below, text, name, hImport, hBack, hText, hName, hIdentifier⟩ :=
      hLedger.imported_of_mem (hFiles file hFile) hMem
    rw [declaredName_eq_ok, firstDeclared_candidates_iff] at hName
    have hOnce := List.count_eq_one_of_mem hNodup hFile
    exact ⟨below, text, name, hImport, hBack ▸ hOnce, hBack ▸ hText, hName, hIdentifier⟩
  · have hDistinct : entries.Pairwise fun a b =>
        ∀ s s', a.2.toOption = some s → b.2.toOption = some s' → s.importPath ≠ s'.importPath := by
      refine (List.pairwise_map.mp hNodup).imp_of_mem ?_
      rintro ⟨file, _ | s⟩ ⟨file', _ | s'⟩ hMem hMem' hOther _ _ ⟨⟩ ⟨⟩
      exact hLedger.importPath_ne (hFiles file (List.mem_map_of_mem (f := Prod.fst) hMem))
        (hFiles file' (List.mem_map_of_mem (f := Prod.fst) hMem')) hOther hMem hMem'
    rw [hLedger.services_eq, List.Nodup, List.pairwise_map]
    exact hDistinct.filterMap _ fun a b hAB s hs s' hs' => hAB s s' hs hs'

theorem not_outsideOutDir_of_extract (hFiles : ∀ file ∈ files, outDir.Importable file) :
    ∀ skipped ∈ (extract t dir outDir files).skipped, skipped.reason ≠ .outsideOutDir := by
  obtain ⟨entries, rfl, hLedger⟩ := exists_ledger t dir outDir files
  rintro ⟨_, _⟩ hSkipped rfl
  rw [hLedger.skipped_eq] at hSkipped
  obtain ⟨⟨file, verdict⟩, hMem, hEntry⟩ := List.mem_filterMap.mp hSkipped
  cases verdict with
  | ok s => cases hEntry
  | error reason =>
    cases hEntry
    obtain ⟨earlier, -, hJudged⟩ := hLedger.judged_of_mem hMem
    obtain ⟨below, hImport, -⟩ := hFiles _ (List.mem_map_of_mem (f := Prod.fst) hMem)
    rcases hJudged.decided with ⟨reason, hFailure⟩ | ⟨name, importPath, hUsable⟩
    · have hReason := hJudged.of_failure reason hFailure
      cases hReason
      cases hFailure with
      | location _ _ hPath =>
        rw [hImport] at hPath
        cases hPath
    · obtain ⟨first, s, hFirst, hSame⟩ := (hJudged.skipped_iff name importPath hUsable).mp ⟨_, rfl⟩
      have hDuplicate := hJudged.of_provided name importPath first s hUsable hFirst hSame
      cases hDuplicate

end Service

/-! ### Cycles -/

theorem Registry.isName_fileName : IsName Registry.fileName := by decide

namespace Generator

variable {g : Generator} {h : Host} {made : Compilation}

theorem wellNamed_of_compile (hKeeps : h.KeepsNames) (hNames : t.WellNamed) (hEnds : (g.compile h).Ends t left made) :
    left.WellNamed := by
  obtain ⟨cleaned, hPrepare, hRun⟩ := ends_compile hEnds
  exact Compiler.wellNamed_of_run hKeeps ((within_of_prepare hPrepare).wellNamed hNames) hRun

theorem collect_of_compile (hEnds : (g.compile h).Ends t left made) :
    Compiler.collect left h.dir g.outDir = .ok made.files := by
  obtain ⟨cleaned, -, hRun⟩ := ends_compile hEnds
  have hCollect := Compiler.collect_of_run hRun
  dsimp only at hCollect
  rwa [outDir]

/-- Where the registry has been written, the output directory was no file before. -/
theorem not_file_of_writeRegistry {services : List Service} {written : FileTree} {loc : Location}
    (hEnds : (g.writeRegistry h services).Ends left written ()) (hLoc : left.resolve h.dir g.outDir = .ok loc)
    (content : ByteArray) : left.node? loc ≠ some (.file content) := by
  simp only [writeRegistry, Work.ends_bind_iff, Work.ends_mapError_iff, Work.ends_edit_iff] at hEnds
  obtain ⟨result, _, ⟨-, hWritten⟩, -⟩ := hEnds
  rw [Registry.filePath, FileTree.write, if_neg (by simp)] at hWritten
  exact FileTree.not_file_of_writeWithParents Registry.isName_fileName hWritten hLoc content

/-- A cycle that ends well imports each service from the collected file that declares it, and no cycle
takes a file below its output directory to be outside. -/
theorem imports_sound (hKeeps : h.KeepsNames) (hNames : t.WellNamed) :
    (∀ left made, (g.compile h).Ends t left made → left.isDirectoryAt h.dir g.outDir = true →
      ∀ skipped ∈ (Service.extract left h.dir g.outDir made.files).skipped, skipped.reason ≠ .outsideOutDir) ∧
    ∀ generation, ((g.generate h).run t).result = .ok generation →
      ∃ left made, (g.compile h).Ends t left made ∧ Compiler.collect left h.dir g.outDir = .ok made.files ∧
        generation.services = (Service.extract left h.dir g.outDir made.files).services ∧
        generation.skipped = (Service.extract left h.dir g.outDir made.files).skipped ∧
        Service.ImportsFrom left h.dir g.outDir made.files generation.services ∧
        ∀ skipped ∈ generation.skipped, skipped.reason ≠ .outsideOutDir := by
  constructor
  · intro left made hEnds hDir
    have hCollect := collect_of_compile hEnds
    refine Service.not_outsideOutDir_of_extract ?_
    refine Compiler.importable_of_collect (wellNamed_of_compile hKeeps hNames hEnds) hCollect ?_
    intro loc content hLoc hFile
    simp [FileTree.isDirectoryAt, hLoc, FileTree.isDirectory, hFile, Node.isDirectory] at hDir
  · intro generation hResult
    obtain ⟨last, hEnds⟩ := Work.exists_ends_iff.mpr hResult
    obtain ⟨left, made, written, hCompile, hServices, hSkipped, hWrite⟩ := ends_generate hEnds
    have hCollect := collect_of_compile hCompile
    have hLeft := wellNamed_of_compile hKeeps hNames hCompile
    have hFiles : ∀ file ∈ made.files, g.outDir.Importable file :=
      Compiler.importable_of_collect hLeft hCollect fun _ content hLoc =>
        not_file_of_writeRegistry hWrite hLoc content
    refine ⟨left, made, hCompile, hCollect, hServices, hSkipped, ?_, ?_⟩
    · rw [hServices]
      exact Service.importsFrom_extract (Compiler.nodup_of_collect hLeft hCollect) hFiles
    · rw [hSkipped]
      exact Service.not_outsideOutDir_of_extract hFiles

def pingTree : FileTree := FileTree.empty.put ["app"] .directory

def pingHost : Host where
  dir := ["app"]
  start _ t := .ok ⟨(t.put ["app", "gen", "größe"] .directory).put ["app", "gen", "größe", "ping.v1_pb.ts"]
    (.file "export const PingService: GenService<\x7b\x7d> = s;".toUTF8), .code 0, .empty, .empty⟩
  token _ := "0"

def pingGenerator : Generator where
  root := "."
  config := ⟨"proto", "gen", "", true⟩
  compiler := "buf"
  formatter := none

theorem wellNamed_pingTree : pingTree.WellNamed := FileTree.wellNamed_empty.put (by decide) _

theorem keepsNames_pingHost : pingHost.KeepsNames := by
  rintro i t _ ⟨⟩ hNames
  exact (hNames.put (by decide) _).put (by decide) _

/-- The module `gen/größe/ping.v1_pb.ts` is collected and imported as `./größe/ping.v1_pb`. -/
theorem imports_sound_ping : pingHost.KeepsNames ∧ pingTree.WellNamed ∧ ∃ generation left made,
    ((pingGenerator.generate pingHost).run pingTree).result = .ok generation ∧
      generation.services = [Service.ofBaseName "Ping" "./größe/ping.v1_pb"] ∧
      (pingGenerator.compile pingHost).Ends pingTree left made ∧
      Service.ImportsFrom left pingHost.dir pingGenerator.outDir made.files generation.services ∧
      left.isDirectoryAt pingHost.dir pingGenerator.outDir = true ∧
      ∀ skipped ∈ (Service.extract left pingHost.dir pingGenerator.outDir made.files).skipped,
        skipped.reason ≠ .outsideOutDir := by
  have hServices : ((pingGenerator.generate pingHost).run pingTree).result.toOption.map Generation.services =
      some [Service.ofBaseName "Ping" "./größe/ping.v1_pb"] := by decide +kernel
  have hDir : ((pingGenerator.compile pingHost).run pingTree).tree.isDirectoryAt pingHost.dir
      pingGenerator.outDir = true := by decide +kernel
  obtain ⟨hInside, hSound⟩ := imports_sound (g := pingGenerator) keepsNames_pingHost wellNamed_pingTree
  refine ⟨keepsNames_pingHost, wellNamed_pingTree, ?_⟩
  cases hResult : ((pingGenerator.generate pingHost).run pingTree).result with
  | error e =>
    rw [hResult] at hServices
    cases hServices
  | ok generation =>
    rw [hResult] at hServices
    obtain ⟨left, made, hCompile, -, -, -, hImports, -⟩ := hSound generation hResult
    rw [hCompile.tree] at hDir
    exact ⟨generation, left, made, rfl, Option.some.inj hServices, hCompile, hImports, hDir,
      hInside left made hCompile hDir⟩

end Generator

end ClientRegistry
