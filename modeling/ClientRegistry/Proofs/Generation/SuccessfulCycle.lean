import ClientRegistry.Proofs.Generation.Course
import ClientRegistry.Proofs.Generation.Imports
import ClientRegistry.Proofs.Registry.FirstServices

/-!
# What a successful cycle has made

A cycle that ends well has called the compiler with success. Of the generated modules that stand below
the output directory when the compiler has ended, each is the source of a service or is skipped, in the
order of the places, and the registry with one member for each service is read back from its file.
-/

set_option autoImplicit false

namespace ClientRegistry

open FileTree Work

variable {h : Host} {g : Generator} {t left last : FileTree} {generation : Generation} {made : Compilation}

/-! ### What was collected -/

namespace Compiler

variable {dir : Location} {out : Path} {files : List Path}

/-- What is collected are the generated modules below the directory that the path leads to; nothing is, where
the path is a link to something else. -/
theorem exists_places_of_collect (hFiles : collect t dir out = .ok files) :
    ∃ loc places, t.resolve dir out = .ok loc ∧ files = places.map (pathBelow out loc) ∧
      (places = (t.files loc).filter isGenerated ∨ places = [] ∧ t.isDirectory loc = false) := by
  obtain ⟨root, hRoot, hRest⟩ := bind_eq_ok_iff.mp hFiles
  cases root with
  | some loc =>
    cases hRest
    exact ⟨loc, _, resolve_of_listingRoot hRoot, rfl, .inl rfl⟩
  | none =>
    cases hRest
    obtain ⟨entry, -, hEntry⟩ := bind_eq_ok_iff.mp hRoot
    split at hEntry
    · obtain ⟨loc, hLoc, hSome⟩ := bind_eq_ok_iff.mp hEntry
      split at hSome
      · cases hSome
      · rename_i hDir
        exact ⟨loc, [], hLoc, rfl, .inr ⟨rfl, by simpa using hDir⟩⟩
    · cases hEntry

end Compiler

namespace Generator

/-- The places are, in order, those of the generated modules below the output directory, and each of these
modules is the source of a service or is skipped. -/
structure Divided (t : FileTree) (dir : Location) (outDir : Path) (loc : Location) (generation : Generation)
    (places : List Location) : Prop where
  root : t.resolve dir outDir = .ok loc
  listed : ∀ place, place ∈ places ↔ t.Listed loc place ∧ Compiler.isGenerated place = true
  ordered : places.Pairwise (· < ·)
  divided : ∃ entries : List (Path × Service.Verdict), entries.map Prod.fst = places.map (pathBelow outDir loc) ∧
    generation.services = entries.filterMap (fun entry => entry.2.toOption) ∧
    generation.skipped = entries.filterMap Service.skippedEntry ∧
    ∀ file s, (file, .ok s) ∈ entries →
      ∃ name importPath, Service.Usable t dir outDir file name importPath ∧ s = Service.ofBaseName name importPath

theorem divided_of_collect {dir : Location} {outDir : Path} (hFiles : Compiler.collect t dir outDir = .ok made.files)
    (hRoot : ∀ loc content, t.resolve dir outDir = .ok loc → t.node? loc ≠ some (.file content))
    (hServices : generation.services = (Service.extract t dir outDir made.files).services)
    (hSkipped : generation.skipped = (Service.extract t dir outDir made.files).skipped) :
    ∃ loc places, Divided t dir outDir loc generation places := by
  obtain ⟨loc, places, hLoc, hPlaces, hCases⟩ := Compiler.exists_places_of_collect hFiles
  obtain ⟨entries, hEntries, hLedger⟩ := Service.exists_ledger t dir outDir made.files
  refine ⟨loc, places, hLoc, ?_, ?_, entries, hEntries.trans hPlaces, ?_, ?_, fun file s => hLedger.usable_of_mem⟩
  · intro place
    rcases hCases with rfl | ⟨rfl, hDir⟩
    · rw [List.mem_filter, mem_files_iff]
    · refine iff_of_false List.not_mem_nil ?_
      rintro ⟨hListed, -⟩
      rcases hListed.cases with rfl | ⟨hIsDir, -⟩
      · obtain ⟨-, content, -, hFile, -⟩ := hListed
        exact hRoot _ content hLoc hFile
      · cases hDir.symm.trans hIsDir
  · rcases hCases with rfl | ⟨rfl, -⟩
    · exact (t.pairwise_lt_files loc).filter _
    · exact List.Pairwise.nil
  · rw [hServices, hLedger.services_eq]
  · rw [hSkipped, hLedger.skipped_eq]

/-! ### What was written -/

/-- The path leads to a file with exactly this text, or to a device, which need not give it back. -/
def Holds (t : FileTree) (dir : Location) (p : Path) (text : String) : Prop :=
  ∃ place, t.resolve dir p = .ok place ∧ (t.node? place = some (.file text.toUTF8) ∨ t.node? place = some .sink)

theorem exists_writeContent_of_writeRegistry {services : List Service}
    (hEnds : (g.writeRegistry h services).Ends left last ()) :
    ∃ ready, (left.makeParents h.dir (Registry.filePath g.outDir)).1 = ready ∧
      ready.writeContent h.dir (Registry.filePath g.outDir) (Registry.ofServices services).text.toUTF8 = .ok last := by
  unfold writeRegistry at hEnds
  generalize (Registry.ofServices services).text = text at hEnds ⊢
  obtain ⟨result, written, hEdit, hPure⟩ := ends_bind_iff.mp hEnds
  obtain ⟨rfl, -⟩ := ends_pure_iff.mp hPure
  obtain ⟨hTree, hWritten⟩ := ends_edit_iff.mp (ends_mapError_iff.mp hEdit)
  have hWrite : left.writeWithParents h.dir (Registry.filePath g.outDir) text = (last, .ok result) := by
    rw [FileTree.write, if_neg (by simp)] at hTree hWritten
    exact Prod.ext hTree hWritten
  exact exists_writeContent_of_writeWithParents hWrite

theorem holds_of_writeRegistry {services : List Service} (hEnds : (g.writeRegistry h services).Ends left last ()) :
    Holds last h.dir (Registry.filePath g.outDir) (Registry.ofServices services).text := by
  obtain ⟨ready, -, hWritten⟩ := exists_writeContent_of_writeRegistry hEnds
  obtain ⟨place, hPlace, hFillable, rfl⟩ := exists_place_of_writeContent hWritten
  exact ⟨place, hPlace, hFillable.node?_fill _⟩

/-- A registry that is written in the output directory itself leaves the generated modules as they are. -/
theorem listed_of_writeRegistry {services : List Service} {loc : Location}
    (hEnds : (g.writeRegistry h services).Ends left last ()) (hLoc : left.resolve h.dir g.outDir = .ok loc)
    (hDir : left.isDirectory loc = true)
    (hLink : ∀ target, left.node? (loc ++ [Registry.fileName]) ≠ some (.link target)) (place : Location)
    (hGenerated : Compiler.isGenerated place = true) : left.Listed loc place ↔ last.Listed loc place := by
  obtain ⟨ready, hReady, hWritten⟩ := exists_writeContent_of_writeRegistry hEnds
  have hSame : ready = left := hReady ▸ makeParents_of_isDirectoryAt Registry.isName_fileName
    (isDirectoryAt_iff.mpr ⟨loc, hLoc, hDir⟩)
  subst hSame
  obtain ⟨hFillable, rfl⟩ := writeContent_join_eq Registry.isName_fileName hWritten hLoc hDir hLink
  have hOther : place ≠ loc ++ [Registry.fileName] := by
    rintro rfl
    have hName : Compiler.generatedSuffix.toList.isSuffixOf Registry.fileName.toList = false := by decide
    simp [Compiler.isGenerated, hName] at hGenerated
  simp only [Listed, node?_fill_of_ne _ _ hOther, hFillable.isDirectory_fill]

/-! ### The cycle -/

def Compiles (g : Generator) (h : Host) (t left : FileTree) : Prop :=
  ∃ cleaned ready placed file done, (g.prepare h).Ends t cleaned () ∧
    Compiler.Placement h ⟨g.root, g.compiler⟩ g.config.protoPath g.config.outDir cleaned ready placed file ∧
    h.start ⟨"sh", ["-c", Compiler.commandLine g.compiler g.config.protoPath file g.config.extraFlags], g.root⟩ placed =
      .ok done ∧ done.status.isSuccess = true ∧ left = Compiler.discard done.tree h.dir file

theorem compiles_of_compile (hEnds : (g.compile h).Ends t left made) : Compiles g h t left := by
  obtain ⟨cleaned, hPrepare, hRun⟩ := ends_compile hEnds
  obtain ⟨ready, placed, file, done, hCompiled⟩ := Compiler.exists_start_of_ends_run hRun
  exact ⟨cleaned, ready, placed, file, done, hPrepare, hCompiled⟩

theorem ends_generate_of_no_formatter (hFormatter : g.formatter = none)
    (hEnds : (g.generate h).Ends t last generation) :
    ∃ left made, (g.compile h).Ends t left made ∧ generation.clients = Registry.filePath g.outDir ∧
      generation.services = (Service.extract left h.dir g.outDir made.files).services ∧
      generation.skipped = (Service.extract left h.dir g.outDir made.files).skipped ∧
      (g.writeRegistry h generation.services).Ends left last () := by
  simp only [generate, hFormatter, ends_bind_iff, ends_mapError_iff, ends_look_iff, ends_tell_iff,
    ends_pure_iff] at hEnds
  obtain ⟨_, cleaned, hPrepare, made, _, hRun, found, _, ⟨rfl, rfl⟩, _, left, rfl, _, written, hWrite, _, _, rfl, rfl,
    rfl⟩ := hEnds
  exact ⟨_, made, ends_bind_iff.mpr ⟨(), cleaned, hPrepare, ends_mapError_iff.mpr hRun⟩, rfl, rfl, rfl, hWrite⟩

/-- A cycle that ends well without a formatter has compiled with success. Each generated module that is
there when the compiler has ended is, in order, the source of a service or skipped, the registry has one
member for each service, and its file is read back. Where the registry is written in the output
directory and not through a link, these are the generated modules that the cycle leaves. -/
theorem successful_cycle (hFormatter : g.formatter = none) (hEnds : (g.generate h).Ends t last generation) :
    ∃ left loc places, Compiles g h t left ∧ Divided left h.dir g.outDir loc generation places ∧
      (Registry.ofServices generation.services).members = generation.services.map Registry.Member.ofService ∧
      generation.clients = Registry.filePath g.outDir ∧
      Holds last h.dir generation.clients (Registry.ofServices generation.services).text ∧
      (left.isDirectory loc = true → (∀ target, left.node? (loc ++ [Registry.fileName]) ≠ some (.link target)) →
        ∀ place, place ∈ places ↔ last.Listed loc place ∧ Compiler.isGenerated place = true) := by
  obtain ⟨left, made, hCompile, hClients, hServices, hSkipped, hWrite⟩ := ends_generate_of_no_formatter hFormatter hEnds
  obtain ⟨loc, places, hDivided⟩ := divided_of_collect (collect_of_compile hCompile)
    (fun _ content hLoc => not_file_of_writeRegistry hWrite hLoc content) hServices hSkipped
  have hMembers : (Registry.ofServices generation.services).members =
      generation.services.map Registry.Member.ofService := by
    obtain ⟨entries, -, hLedger⟩ := Service.exists_ledger left h.dir g.outDir made.files
    rw [Registry.members_ofServices, Registry.firsts_eq_self (hServices ▸ hLedger.nodup)]
  refine ⟨left, loc, places, compiles_of_compile hCompile, hDivided, hMembers, hClients, ?_, ?_⟩
  · rw [hClients]
    exact holds_of_writeRegistry hWrite
  · intro hDir hLink place
    rw [hDivided.listed]
    refine and_congr_left fun hGenerated => ?_
    exact listed_of_writeRegistry hWrite hDivided.root hDir hLink place hGenerated

def linkingHost (target : String) : Host where
  dir := ["app"]
  start _ t := .ok ⟨t.put ["app", "gen", "clients.ts"] (.link target), .code 0, .empty, .empty⟩
  token _ := "0"

def sinkTree : FileTree := (pingTree.put ["dev"] .directory).put ["dev", "null"] .sink

/-- A registry that is written through a link can be lost, or make a module that nobody has looked at. -/
theorem registry_through_link :
    ((pingGenerator.generate (linkingHost "/dev/null")).run sinkTree).result =
        .ok ⟨.default, [], [], Registry.filePath pingGenerator.outDir⟩ ∧
      ((pingGenerator.generate (linkingHost "/dev/null")).run sinkTree).tree.textAt ["app"]
        (Registry.filePath pingGenerator.outDir) = .ok "" ∧
      (Registry.ofServices []).text ≠ "" ∧
      ((pingGenerator.generate (linkingHost "late_pb.ts")).run pingTree).result =
        .ok ⟨.default, [], [], Registry.filePath pingGenerator.outDir⟩ ∧
      ((pingGenerator.generate (linkingHost "late_pb.ts")).run pingTree).tree.files ["app", "gen", "late_pb.ts"] =
        [["app", "gen", "late_pb.ts"]] := by
  refine ⟨?_, ?_, ?_, ?_, ?_⟩ <;> decide +kernel

/-- The module `gen/größe/ping.v1_pb.ts` is the one that is there, and the registry has its service. -/
theorem successful_cycle_ping : pingGenerator.formatter = none ∧ ∃ last generation left loc places,
    (pingGenerator.generate pingHost).Ends pingTree last generation ∧
      generation.services = [Service.ofBaseName "Ping" "./größe/ping.v1_pb"] ∧
      Compiles pingGenerator pingHost pingTree left ∧
      Divided left pingHost.dir pingGenerator.outDir loc generation places ∧
      Holds last pingHost.dir generation.clients (Registry.ofServices generation.services).text := by
  have hServices : ((pingGenerator.generate pingHost).run pingTree).result.toOption.map Generation.services =
      some [Service.ofBaseName "Ping" "./größe/ping.v1_pb"] := by decide +kernel
  refine ⟨rfl, ?_⟩
  cases hResult : ((pingGenerator.generate pingHost).run pingTree).result with
  | error e =>
    rw [hResult] at hServices
    cases hServices
  | ok generation =>
    rw [hResult] at hServices
    have hEnds : (pingGenerator.generate pingHost).Ends pingTree _ generation := ⟨rfl, hResult⟩
    obtain ⟨left, loc, places, hCompiles, hDivided, -, -, hHolds, -⟩ := successful_cycle rfl hEnds
    exact ⟨_, generation, left, loc, places, hEnds, Option.some.inj hServices, hCompiles, hDivided, hHolds⟩

end Generator

end ClientRegistry
