import ClientRegistry.Proofs.FileTree.Cleaning
import ClientRegistry.Proofs.Generation.TemporaryTemplate

/-!
# What a failed cycle leaves

A cycle that refuses to clean does nothing at all. A cycle whose compilation fails has cleaned, if that
was wanted, has made the output directory as far as it could be made, and otherwise leaves what the
compiler has left: it writes nothing itself, and takes away only its template.
-/

set_option autoImplicit false

namespace ClientRegistry

open FileTree Work

variable {h : Host} {g : Generator} {t left cleaned : FileTree}

namespace Compiler

/-- What a failed run of the compiler leaves: the tree with what was missing of the output directory if the
compiler has not run, and otherwise what the compiler has left but for the template. -/
inductive FailedRun (h : Host) (c : Compiler) (protoPath outDir : Path) (flags : String) (t : FileTree) :
    FileTree → CompileError → Prop
  | notMade {ready : FileTree} {q : Path} {cause : FileFailure}
    (hWay : MakesWay h.dir (c.root.join outDir).ancestors t ready) (hMember : q ∈ (c.root.join outDir).ancestors)
    (hDir : ready.isDirectoryAt h.dir q = false) (hBlocked : ready.makeDirectory h.dir q = .error cause) :
    FailedRun h c protoPath outDir flags t ready (.outDir (c.root.join outDir) cause)
  | notStarted {ready : FileTree} {e : CompileError}
    (hWay : MakesWay h.dir (c.root.join outDir).ancestors t ready)
    (hDir : (c.root.join outDir).text ≠ "" → ready.isDirectoryAt h.dir (c.root.join outDir) = true)
    (hError : (∃ file cause, e = .template (c.root.join outDir) file cause) ∨
      ∃ command cause, e = .notStarted command cause) : FailedRun h c protoPath outDir flags t ready e
  | ended {ready placed left : FileTree} {file : Path} {done : Completed} {e : CompileError}
    (hWay : MakesWay h.dir (c.root.join outDir).ancestors t ready)
    (hDir : (c.root.join outDir).text ≠ "" → ready.isDirectoryAt h.dir (c.root.join outDir) = true)
    (hStands : Stands h (c.root.join outDir) (Template.find ready h.dir c.root protoPath outDir) ready placed file)
    (hStart : h.start ⟨"sh", ["-c", commandLine c.command protoPath file flags], c.root⟩ placed = .ok done)
    (hGone : Gone h.dir file done.tree left)
    (hClients : ∀ loc : Location, loc.getLast? = some Registry.fileName → left.node? loc = done.tree.node? loc)
    (hError : (done.status.isSuccess = false ∧ ∃ command errors, e = .failed command done.status errors) ∨
      done.status.isSuccess = true ∧ ∃ cause, e = .listing (c.root.join outDir) cause) :
    FailedRun h c protoPath outDir flags t left e

variable {c : Compiler} {protoPath outDir out file : Path} {flags : String} {ready placed used : FileTree}
  {template : Template} {e : CompileError} {cause : FileFailure}

theorem temporaryName_ne_fileName (token extension : String) : temporaryName token extension ≠ Registry.fileName := by
  intro hSame
  have hFirst : (temporaryName token extension).toList.head? = some 'b' := by
    rw [temporaryName, String.toList_append, String.toList_append, String.toList_append]
    rfl
  rw [hSame] at hFirst
  revert hFirst
  decide

theorem Gone.node?_registry (hGone : Gone h.dir file used left) (hTokens : h.PlainTokens) (hFormat : template.HasFormat)
    (hStands : Stands h out template ready placed file) {loc : Location}
    (hLoc : loc.getLast? = some Registry.fileName) :
    left.node? loc = used.node? loc := by
  rcases hGone.kept with rfl | ⟨place, hEntry, rfl⟩
  · rfl
  · obtain ⟨n, rfl⟩ := hStands.named
    have hEnds := ofSegments_join_name (h.absolute out) (isName_temporaryName (hTokens n) hFormat.no_slash)
    obtain ⟨parent, -, -, rfl, -⟩ := (resolveEntry_eq_ok_iff hEnds).mp hEntry
    refine node?_remove_of_ne used ?_
    rintro rfl
    rw [List.getLast?_concat] at hLoc
    exact temporaryName_ne_fileName _ _ (Option.some.inj hLoc)

theorem failedRun_of_course (hTokens : h.PlainTokens) (hCourse : Course h c protoPath outDir flags t left (.error e)) :
    FailedRun h c protoPath outDir flags t left e := by
  have hFormat (ready : FileTree) := Template.hasFormat_find ready h.dir c.root protoPath outDir
  cases hCourse with
  | noOutDir hReady =>
    obtain ⟨q, hq, -, hDir, hBlocked⟩ := blocked_of_makeDirectoryChain hReady
    exact .notMade (makesWay_of_makeDirectories hReady) hq hDir hBlocked
  | noTemplate hReady _ =>
    exact .notStarted (makesWay_of_makeDirectories hReady) (fun hText => isDirectoryAt_of_makeDirectories hText hReady)
      (.inl ⟨_, _, rfl⟩)
  | @notServed ready placed used file e hPlaced hServes =>
    have hWay := makesWay_of_makeDirectories hPlaced.made
    have hDir := fun hText => isDirectoryAt_of_makeDirectories hText hPlaced.made
    obtain ⟨hStands, hGone, hSame⟩ := transient_of_placement hTokens hPlaced used
    cases hServes with
    | notStored hStored =>
      rw [hSame rfl]
      exact .notStarted hWay hDir (.inl ⟨_, _, rfl⟩)
    | called hStored hCall =>
      cases hCall with
      | notStarted hStart =>
        rw [hSame rfl]
        exact .notStarted hWay hDir (.inr ⟨_, _, rfl⟩)
      | failed hStart hStatus =>
        exact .ended hWay hDir hStands hStart hGone
          (fun _ hLoc => hGone.node?_registry hTokens (hFormat ready) hStands hLoc)
          (.inl ⟨hStatus, _, _, rfl⟩)
  | @notListed ready placed used file cause hPlaced hServes hFiles =>
    have hWay := makesWay_of_makeDirectories hPlaced.made
    have hDir := fun hText => isDirectoryAt_of_makeDirectories hText hPlaced.made
    obtain ⟨hStands, hGone, -⟩ := transient_of_placement hTokens hPlaced used
    cases hServes with
    | called hStored hCall =>
      cases hCall with
      | succeeded hStart hStatus =>
        exact .ended hWay hDir hStands hStart hGone
          (fun _ hLoc => hGone.node?_registry hTokens (hFormat ready) hStands hLoc)
          (.inr ⟨hStatus, _, rfl⟩)

end Compiler

namespace Generator

theorem cleaned_of_cleanOutDir {outDir : Path} {found : Bool} (hEnds : (cleanOutDir h outDir).Ends t cleaned found) :
    Cleaned t h.dir outDir cleaned := by
  cases found with
  | true => exact cleaned_of_removeTree (ends_cleanOutDir_true_iff.mp hEnds).2
  | false =>
    obtain ⟨hMissing, rfl⟩ := ends_cleanOutDir_false_iff.mp hEnds
    exact .missing hMissing

theorem cleaned_of_prepare (hEnds : (g.prepare h).Ends t cleaned ()) :
    if g.config.clean then Cleaned t h.dir g.outDir cleaned else cleaned = t := by
  unfold prepare at hEnds
  split at hEnds
  · rename_i hClean
    simp only [ends_bind_iff, ends_check_iff, ends_pure_iff] at hEnds
    obtain ⟨_, _, ⟨rfl, -⟩, _, _, hEnds, rfl, -⟩ := hEnds
    rw [if_pos hClean]
    exact cleaned_of_cleanOutDir hEnds
  · rename_i hKeep
    obtain ⟨rfl, -⟩ := ends_pure_iff.mp hEnds
    rw [if_neg hKeep]

/-- A cycle that could not compile has prepared the tree, and has failed to compile it. -/
theorem leaves_run_of_notCompiled {cause : CompileError}
    (hFails : (g.generate h).Leaves t left (.error (.notCompiled cause))) :
    ∃ cleaned, (g.prepare h).Ends t cleaned () ∧
      (Compiler.run h ⟨g.root, g.compiler⟩ g.config.protoPath g.config.outDir g.config.extraFlags).Leaves cleaned left
        (.error cause) := by
  rw [generate_eq] at hFails
  rcases hFails.of_bind_error with hPrepare | ⟨_, cleaned, hPrepare, hRest⟩
  · exact absurd rfl (failsWith_prepare (P := (· ≠ .notCompiled cause)) (by simp) (by simp) h t left _ hPrepare)
  rcases hRest.of_bind_error with hRun | ⟨made, compiled, -, hFinish⟩
  · obtain ⟨_, ⟨⟩, hRun⟩ := hRun.of_mapError_error
    exact ⟨cleaned, hPrepare, hRun⟩
  · exact absurd rfl (failsWith_finish (P := (· ≠ .notCompiled cause)) (by simp) h made compiled left _ hFinish)

theorem run_generate_of_refused {reason : Invalid} (hClean : g.config.clean = true)
    (hInvalid : g.config.validate = .error reason) (h : Host) (t : FileTree) :
    (g.generate h).run t = ⟨t, [], .error (.refused g.outDir reason)⟩ := by
  have hPrepare : (g.prepare h).run t = ⟨t, [], .error (.refused g.outDir reason)⟩ := by
    unfold prepare
    rw [if_pos hClean, run_bind, hInvalid]
    rfl
  unfold generate
  rw [run_bind, hPrepare]

def oldTree : FileTree := (pingTree.put ["app", "gen"] .directory).put ["app", "gen", "old.txt"] (.file "old".toUTF8)

def failingHost : Host where
  dir := ["app"]
  start _ t := .ok ⟨t, .code 1, .empty, .empty⟩
  token _ := "0"

def detourGenerator : Generator where
  root := "."
  config := ⟨"proto", "tmp/../gen", "", true⟩
  compiler := "buf"
  formatter := none

end Generator

end ClientRegistry
