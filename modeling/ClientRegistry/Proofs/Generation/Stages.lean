import ClientRegistry.Generation.Generator
import ClientRegistry.Proofs.FileTree.Edit
import ClientRegistry.Proofs.Work

/-!
# The stages of a cycle

A cycle that ends well has compiled, and has written the registry of what it has found in the tree
that the compiler left. What a stage does to the tree is said by the stage alone: cleaning removes,
the template is one entry more, and only the compiler may do anything.
-/

set_option autoImplicit false

namespace ClientRegistry

open Work

variable {h : Host} {t left last : FileTree}

def Host.KeepsNames (h : Host) : Prop :=
  ∀ i t done, h.start i t = .ok done → t.WellNamed → done.tree.WellNamed

theorem Host.run_eq_ok {i : Invocation} {done : Completed} (hResult : ((h.run i).run t).result = .ok done) :
    h.start i t = .ok done ∧ ((h.run i).run t).tree = done.tree := by
  unfold Host.run at hResult ⊢
  cases hStart : h.start i t with
  | error e => simp [hStart] at hResult
  | ok other =>
    simp only [hStart] at hResult ⊢
    cases hResult
    exact ⟨rfl, rfl⟩

/-! ### The compiler -/

namespace Compiler

variable {c : Compiler} {protoPath outDir dir file : Path} {flags content : String} {made : Compilation}

theorem placeFile_succ (t : FileTree) (loc : Location) (base : Path) (content : String) (name : Nat → String)
    (left : Nat) :
    placeFile t loc base content name (left + 1) =
      match t.addFile loc (base.join ⟨name left⟩) content.toUTF8 with
      | .ok made => .ok (made, base.join ⟨name left⟩)
      | .error .alreadyExists => placeFile t loc base content name left
      | .error cause => .error (base.join ⟨name left⟩, cause) := (rfl)

theorem adds_of_placeFile {loc : Location} {name : Nat → String} {attempts : Nat}
    (hPlaced : placeFile t loc dir content name attempts = .ok (left, file)) : t.Adds left := by
  induction attempts with
  | zero => cases hPlaced
  | succ attempts ih =>
    rw [placeFile_succ] at hPlaced
    split at hPlaced
    · rename_i made hMade
      cases hPlaced
      exact FileTree.adds_of_addFile hMade
    · exact ih hPlaced
    · cases hPlaced

theorem within_discard (t : FileTree) (loc : Location) (file : Path) : (discard t loc file).Within t := by
  unfold discard
  split
  · rename_i rest hRemoved
    exact FileTree.within_of_removeEntry hRemoved
  · exact FileTree.Within.refl t

/-- The template is there while something is done, and nowhere else. -/
theorem ends_withTemplate {α : Type} {template : Template} {body : Path → Work CompileError α} {a : α}
    (hEnds : (withTemplate h dir template body).Ends t left a) :
    ∃ placed file done, placeFile t h.dir (h.absolute dir) template.content
        (fun n => temporaryName (h.token n) template.extension) maxAttempts = .ok (placed, file) ∧
      (body file).Ends placed done a ∧ left = discard done h.dir file := by
  obtain ⟨rfl, hResult⟩ := hEnds
  simp only [withTemplate] at hResult ⊢
  split at hResult
  · cases hResult
  · rename_i placed file hPlaced
    simp only [hPlaced]
    split at hResult
    · cases hResult
    · rename_i hStored
      simp only
      exact ⟨placed, file, _, rfl, ⟨rfl, hResult⟩, rfl⟩

/-- The compiler was started and has ended with success. -/
theorem ends_call {command : String} {u : Unit} (hEnds : (c.call h command).Ends t left u) :
    ∃ done, h.start ⟨"sh", ["-c", command], c.root⟩ t = .ok done ∧ done.status.isSuccess = true ∧
      left = done.tree := by
  simp only [call, ends_bind_iff, ends_tell_iff] at hEnds
  obtain ⟨_, _, rfl, x, ran, hRun, hRest⟩ := hEnds
  obtain ⟨hTree, hResult⟩ := ends_attempt_iff.mp hRun
  cases x with
  | error cause =>
    obtain ⟨_, _, -, hFail⟩ := ends_bind_iff.mp hRest
    cases hFail.result
  | ok done =>
    obtain ⟨_, _, hTell, hStatus⟩ := ends_bind_iff.mp hRest
    obtain rfl := ends_tell_iff.mp hTell
    split at hStatus
    · rename_i hSuccess
      obtain ⟨rfl, -⟩ := ends_pure_iff.mp hStatus
      obtain ⟨hStart, hDone⟩ := Host.run_eq_ok hResult
      exact ⟨done, hStart, hSuccess, hTree.symm.trans hDone⟩
    · cases hStatus.result

/-- The compiler has run in between two edits of the tree, and the files are collected after that. -/
theorem ends_run (hEnds : (c.run h protoPath outDir flags).Ends t left made) :
    ∃ ready placed file done, t.Grows ready ∧ ready.Adds placed ∧
      h.start ⟨"sh", ["-c", commandLine c.command protoPath file flags], c.root⟩ placed = .ok done ∧
      left = discard done.tree h.dir file ∧ collect left h.dir (c.root.join outDir) = .ok made.files := by
  simp only [run, ends_bind_iff, ends_mapError_iff, ends_edit_iff, ends_look_iff, ends_tell_iff, ends_check_iff,
    ends_pure_iff] at hEnds
  obtain ⟨_, ready, ⟨rfl, -⟩, template, _, ⟨rfl, -⟩, _, _, rfl, _, _, hTemplate, found, _, ⟨rfl, rfl⟩, files, _,
    ⟨rfl, hFiles⟩, _, _, rfl, rfl, rfl⟩ := hEnds
  obtain ⟨placed, file, done, hPlaced, hCall, rfl⟩ := ends_withTemplate hTemplate
  obtain ⟨completed, hStart, -, rfl⟩ := ends_call hCall
  exact ⟨_, placed, file, completed, t.grows_makeDirectories h.dir _, adds_of_placeFile hPlaced, hStart, rfl,
    mapError_eq_ok_iff.mp hFiles⟩

theorem collect_of_run (hEnds : (c.run h protoPath outDir flags).Ends t left made) :
    collect left h.dir (c.root.join outDir) = .ok made.files := by
  obtain ⟨_, _, _, _, _, _, _, _, hCollect⟩ := ends_run hEnds
  exact hCollect

theorem wellNamed_of_run (hKeeps : h.KeepsNames) (hNames : t.WellNamed)
    (hEnds : (c.run h protoPath outDir flags).Ends t left made) : left.WellNamed := by
  obtain ⟨ready, placed, file, done, hReady, hPlaced, hStart, rfl, -⟩ := ends_run hEnds
  have hDone := hKeeps _ _ _ hStart (hPlaced.grows.wellNamed (hReady.wellNamed hNames))
  exact (within_discard done.tree h.dir file).wellNamed hDone

end Compiler

/-! ### The generator -/

namespace Generator

variable {g : Generator}

theorem ends_cleanOutDir_true_iff {outDir : Path} : (cleanOutDir h outDir).Ends t left true ↔
    t.pathExists h.dir outDir = true ∧ t.removeTree h.dir outDir = (left, .ok ()) := by
  simp only [cleanOutDir, ends_bind_iff, ends_look_iff]
  constructor
  · rintro ⟨x, _, ⟨rfl, rfl⟩, hRest⟩
    split at hRest
    · rename_i hExists
      obtain ⟨_, _, hRemove, hPure⟩ := ends_bind_iff.mp hRest
      obtain ⟨rfl, hOk⟩ := ends_edit_iff.mp (ends_mapError_iff.mp hRemove)
      obtain ⟨rfl, -⟩ := ends_pure_iff.mp hPure
      exact ⟨hExists, Prod.ext rfl hOk⟩
    · cases (ends_pure_iff.mp hRest).2
  · rintro ⟨hExists, hRemoved⟩
    have hEdit : (edit fun t => t.removeTree h.dir outDir).Leaves t _ _ := leaves_edit hRemoved
    refine ⟨_, t, ⟨rfl, rfl⟩, ?_⟩
    rw [hExists]
    exact ends_bind_iff.mpr ⟨(), _, (hEdit.mapError _).ends, ends_pure true _⟩

theorem ends_cleanOutDir_false_iff {outDir : Path} : (cleanOutDir h outDir).Ends t left false ↔
    t.pathExists h.dir outDir = false ∧ left = t := by
  simp only [cleanOutDir, ends_bind_iff, ends_look_iff]
  constructor
  · rintro ⟨x, _, ⟨rfl, rfl⟩, hRest⟩
    split at hRest
    · obtain ⟨_, _, -, hPure⟩ := ends_bind_iff.mp hRest
      cases (ends_pure_iff.mp hPure).2
    · rename_i hMissing
      exact ⟨Bool.not_eq_true _ ▸ hMissing, (ends_pure_iff.mp hRest).1⟩
  · rintro ⟨hMissing, rfl⟩
    refine ⟨_, left, ⟨rfl, rfl⟩, ?_⟩
    rw [hMissing]
    exact ends_pure false left

theorem within_of_cleanOutDir {outDir : Path} {found : Bool} (hEnds : (cleanOutDir h outDir).Ends t left found) :
    left.Within t := by
  cases found with
  | true =>
    have hWithin := FileTree.within_removeTree t h.dir outDir
    rwa [(ends_cleanOutDir_true_iff.mp hEnds).2] at hWithin
  | false =>
    obtain ⟨-, rfl⟩ := ends_cleanOutDir_false_iff.mp hEnds
    exact FileTree.Within.refl left

theorem within_of_prepare {u : Unit} (hEnds : (g.prepare h).Ends t left u) : left.Within t := by
  unfold prepare at hEnds
  split at hEnds
  · simp only [ends_bind_iff, ends_check_iff, ends_pure_iff] at hEnds
    obtain ⟨_, _, ⟨rfl, -⟩, _, _, hClean, rfl, -⟩ := hEnds
    exact within_of_cleanOutDir hClean
  · obtain ⟨rfl, -⟩ := ends_pure_iff.mp hEnds
    exact FileTree.Within.refl left

def compile (g : Generator) (h : Host) : Work GenerationError Compilation := do
  g.prepare h
  (Compiler.run h ⟨g.root, g.compiler⟩ g.config.protoPath g.config.outDir g.config.extraFlags).mapError
    GenerationError.notCompiled

theorem ends_compile {made : Compilation} (hEnds : (g.compile h).Ends t left made) :
    ∃ cleaned, (g.prepare h).Ends t cleaned () ∧
      (Compiler.run h ⟨g.root, g.compiler⟩ g.config.protoPath g.config.outDir g.config.extraFlags).Ends
        cleaned left made := by
  unfold compile at hEnds
  obtain ⟨_, cleaned, hPrepare, hRun⟩ := ends_bind_iff.mp hEnds
  exact ⟨cleaned, hPrepare, ends_mapError_iff.mp hRun⟩

/-- A cycle that ends well has written the registry of what it has found after compiling. -/
theorem ends_generate {generation : Generation} (hEnds : (g.generate h).Ends t last generation) :
    ∃ left made written, (g.compile h).Ends t left made ∧
      generation.services = (Service.extract left h.dir g.outDir made.files).services ∧
      generation.skipped = (Service.extract left h.dir g.outDir made.files).skipped ∧
      (g.writeRegistry h generation.services).Ends left written () := by
  simp only [generate, ends_bind_iff, ends_mapError_iff, ends_look_iff, ends_tell_iff] at hEnds
  obtain ⟨_, cleaned, hPrepare, made, _, hRun, found, _, ⟨rfl, rfl⟩, _, left, rfl, _, written, hWrite, hRest⟩ := hEnds
  have hCompile : (g.compile h).Ends t left made :=
    ends_bind_iff.mpr ⟨(), cleaned, hPrepare, ends_mapError_iff.mpr hRun⟩
  refine ⟨left, made, written, hCompile, ?_⟩
  split at hRest
  · simp only [ends_bind_iff, ends_tell_iff, ends_pure_iff] at hRest
    obtain ⟨_, _, -, _, _, -, -, rfl⟩ := hRest
    exact ⟨rfl, rfl, hWrite⟩
  · simp only [ends_bind_iff, ends_tell_iff, ends_pure_iff] at hRest
    obtain ⟨_, _, -, -, rfl⟩ := hRest
    exact ⟨rfl, rfl, hWrite⟩

def finish (g : Generator) (h : Host) (made : Compilation) : Work GenerationError Generation := do
  let found ← Work.look fun t => Service.extract t h.dir g.outDir made.files
  Work.tell found.log
  g.writeRegistry h found.services
  let clients := Registry.filePath g.outDir
  if let some f := g.formatter then
    let _ ← f.format h g.root clients
  Work.tell [Log.info ("Generated " ++ clients.text ++ " with " ++ toString found.services.length ++ " service(s)")]
  pure ⟨made.template, found.services, found.skipped, clients⟩

theorem generate_eq (g : Generator) (h : Host) : g.generate h = g.prepare h >>= fun _ =>
    (Compiler.run h ⟨g.root, g.compiler⟩ g.config.protoPath g.config.outDir g.config.extraFlags).mapError
      GenerationError.notCompiled >>= g.finish h := (rfl)

/-! ### Failures -/

variable {P : GenerationError → Prop}

theorem failsWith_prepare (hRefused : ∀ reason, P (.refused g.outDir reason))
    (hNotCleaned : ∀ cause, P (.notCleaned g.outDir cause)) (h : Host) : (g.prepare h).FailsWith P := by
  unfold prepare
  split
  · refine .bind (failsWith_check fun e hInvalid => ?_) fun _ => .bind ?_ fun _ => failsWith_pure ()
    · cases hValid : g.config.validate with
      | error reason =>
        rw [hValid] at hInvalid
        cases hInvalid
        exact hRefused reason
      | ok _ =>
        rw [hValid] at hInvalid
        cases hInvalid
    · refine .bind (failsWith_look _) fun found => ?_
      split
      · exact .bind (failsWith_mapError _ hNotCleaned) fun _ => failsWith_pure _
      · exact failsWith_pure _
  · exact failsWith_pure ()

theorem failsWith_writeRegistry (hNotWritten : ∀ cause, P (.notWritten cause)) (h : Host) (services : List Service) :
    (g.writeRegistry h services).FailsWith P :=
  .bind (failsWith_mapError _ hNotWritten) fun _ => failsWith_pure ()

/-- A formatter never fails a cycle. -/
theorem exists_ends_format {ε : Type} (f : Formatter) (h : Host) (dir file : Path) (t : FileTree) :
    ∃ formatted, (f.format h dir file : Work ε Bool).Ends t ((h.run ⟨f.program, f.args ++ [file.text], dir⟩).run t).tree
      formatted := by
  have hRun := (leaves_run (h.run ⟨f.program, f.args ++ [file.text], dir⟩) t).attempt (δ := ε)
  unfold Formatter.format
  cases hResult : ((h.run ⟨f.program, f.args ++ [file.text], dir⟩).run t).result with
  | ok done =>
    rw [hResult] at hRun
    exact ⟨_, (hRun.leaves_bind (ends_pure done.status.isSuccess _).leaves).ends⟩
  | error cause =>
    rw [hResult] at hRun
    exact ⟨_, (hRun.leaves_bind (ends_pure false _).leaves).ends⟩

theorem failsWith_finish (hNotWritten : ∀ cause, P (.notWritten cause)) (h : Host) (made : Compilation) :
    (g.finish h made).FailsWith P := by
  refine .bind (failsWith_look _) fun found => .bind (failsWith_tell _) fun _ =>
    .bind (failsWith_writeRegistry hNotWritten h found.services) fun _ => ?_
  dsimp only
  split
  · rename_i f _
    refine .bind (fun t left e hFails => ?_) fun _ => .bind (failsWith_tell _) fun _ => failsWith_pure _
    obtain ⟨_, hEnds⟩ := exists_ends_format (ε := GenerationError) f h g.root (Registry.filePath g.outDir) t
    cases (hEnds.leaves.unique hFails).2
  · exact .bind (failsWith_tell _) fun _ => failsWith_pure _

end Generator

end ClientRegistry
