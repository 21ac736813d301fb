import ClientRegistry.Proofs.FileTree.Directories
import ClientRegistry.Proofs.Generation.Stages

/-!
# How a run of the compiler ends

A run makes the output directory, places the template, calls the compiler, takes the template away and
collects. It can end at each of these points, and what it leaves says which: before the template is
placed it leaves what has been made of the output directory, and afterwards what the compiler was
given or has left, without the template.
-/

set_option autoImplicit false

namespace ClientRegistry.Compiler

open Work

variable {h : Host} {c : Compiler} {protoPath outDir out file : Path} {flags command : String}
  {t ready placed used left : FileTree} {template : Template} {result : Except CompileError Compilation}

/-! ### The call -/

inductive CallEnds (h : Host) (c : Compiler) (command : String) (t : FileTree) :
    FileTree → Except CompileError Unit → Prop
  | notStarted {cause : FileFailure} (hStart : h.start ⟨"sh", ["-c", command], c.root⟩ t = .error cause) :
    CallEnds h c command t t (.error (.notStarted command cause))
  | failed {done : Completed} (hStart : h.start ⟨"sh", ["-c", command], c.root⟩ t = .ok done)
    (hStatus : done.status.isSuccess = false) :
    CallEnds h c command t done.tree (.error (.failed command done.status (Text.Utf8.decodeLossy done.errors)))
  | succeeded {done : Completed} (hStart : h.start ⟨"sh", ["-c", command], c.root⟩ t = .ok done)
    (hStatus : done.status.isSuccess = true) : CallEnds h c command t done.tree (.ok ())

theorem leaves_call_of_error {cause : FileFailure} (hStart : h.start ⟨"sh", ["-c", command], c.root⟩ t = .error cause) :
    (c.call h command).Leaves t t (.error (.notStarted command cause)) := by
  have hRun : (h.run ⟨"sh", ["-c", command], c.root⟩).Leaves t t (.error cause) := by
    constructor <;> simp only [Host.run, hStart]
  refine (ends_tell [Log.debug ("Running " ++ command)] t).leaves_bind (hRun.attempt.leaves_bind ?_)
  exact (ends_tell _ t).leaves_bind (leaves_fail _ t)

theorem leaves_call_of_ok {done : Completed} (hStart : h.start ⟨"sh", ["-c", command], c.root⟩ t = .ok done) :
    (c.call h command).Leaves t done.tree (if done.status.isSuccess then .ok () else
      .error (.failed command done.status (Text.Utf8.decodeLossy done.errors))) := by
  have hRun : (h.run ⟨"sh", ["-c", command], c.root⟩).Leaves t done.tree (.ok done) := by
    constructor <;> simp only [Host.run, hStart]
  refine (ends_tell [Log.debug ("Running " ++ command)] t).leaves_bind (hRun.attempt.leaves_bind ?_)
  refine (ends_tell _ done.tree).leaves_bind ?_
  split
  · exact (ends_pure () done.tree).leaves
  · exact leaves_fail _ done.tree

theorem callEnds (h : Host) (c : Compiler) (command : String) (t : FileTree) :
    ∃ used result, CallEnds h c command t used result ∧ (c.call h command).Leaves t used result := by
  cases hStart : h.start ⟨"sh", ["-c", command], c.root⟩ t with
  | error cause => exact ⟨t, _, .notStarted hStart, leaves_call_of_error hStart⟩
  | ok done =>
    have hCall := leaves_call_of_ok hStart
    cases hStatus : done.status.isSuccess with
    | true =>
      rw [if_pos hStatus] at hCall
      exact ⟨done.tree, _, .succeeded hStart hStatus, hCall⟩
    | false =>
      rw [if_neg (by simp [hStatus])] at hCall
      exact ⟨done.tree, _, .failed hStart hStatus, hCall⟩

/-! ### The run -/

def placeTemplate (h : Host) (out : Path) (template : Template) (t : FileTree) :
    Except (Path × FileFailure) (FileTree × Path) :=
  placeFile t h.dir (h.absolute out) template.content
    (fun n => temporaryName (h.token n) template.extension) maxAttempts

structure Placement (h : Host) (c : Compiler) (protoPath outDir : Path) (t ready placed : FileTree) (file : Path) :
    Prop where
  made : t.makeDirectories h.dir (c.root.join outDir) = (ready, .ok ())
  placed : placeTemplate h (c.root.join outDir) (Template.find ready h.dir c.root protoPath outDir) ready =
    .ok (placed, file)

inductive Serves (h : Host) (c : Compiler) (out : Path) (command : String) (file : Path) (placed : FileTree) :
    FileTree → Except CompileError Unit → Prop
  | notStored {cause : FileFailure} (hStored : h.storeFailure? placed file = some cause) :
    Serves h c out command file placed placed (.error (.template out file cause))
  | called {used : FileTree} {ended : Except CompileError Unit} (hStored : h.storeFailure? placed file = none)
    (hCall : CallEnds h c command placed used ended) : Serves h c out command file placed used ended

inductive Course (h : Host) (c : Compiler) (protoPath outDir : Path) (flags : String) (t : FileTree) :
    FileTree → Except CompileError Compilation → Prop
  | noOutDir {ready : FileTree} {cause : FileFailure}
    (hReady : t.makeDirectories h.dir (c.root.join outDir) = (ready, .error cause)) :
    Course h c protoPath outDir flags t ready (.error (.outDir (c.root.join outDir) cause))
  | noTemplate {ready : FileTree} {file : Path} {cause : FileFailure}
    (hReady : t.makeDirectories h.dir (c.root.join outDir) = (ready, .ok ()))
    (hPlaced : placeTemplate h (c.root.join outDir) (Template.find ready h.dir c.root protoPath outDir) ready =
      .error (file, cause)) :
    Course h c protoPath outDir flags t ready (.error (.template (c.root.join outDir) file cause))
  | notServed {ready placed used : FileTree} {file : Path} {e : CompileError}
    (hPlaced : Placement h c protoPath outDir t ready placed file)
    (hServes : Serves h c (c.root.join outDir) (commandLine c.command protoPath file flags) file placed used
      (.error e)) :
    Course h c protoPath outDir flags t (discard used h.dir file) (.error e)
  | notListed {ready placed used : FileTree} {file : Path} {cause : FileFailure}
    (hPlaced : Placement h c protoPath outDir t ready placed file)
    (hServes : Serves h c (c.root.join outDir) (commandLine c.command protoPath file flags) file placed used (.ok ()))
    (hFiles : collect (discard used h.dir file) h.dir (c.root.join outDir) = .error cause) :
    Course h c protoPath outDir flags t (discard used h.dir file) (.error (.listing (c.root.join outDir) cause))
  | finished {ready placed used : FileTree} {file : Path} {files : List Path}
    (hPlaced : Placement h c protoPath outDir t ready placed file)
    (hServes : Serves h c (c.root.join outDir) (commandLine c.command protoPath file flags) file placed used (.ok ()))
    (hFiles : collect (discard used h.dir file) h.dir (c.root.join outDir) = .ok files) :
    Course h c protoPath outDir flags t (discard used h.dir file)
      (.ok ⟨(Template.find ready h.dir c.root protoPath outDir).source, files⟩)

theorem leaves_withTemplate_of_error {α : Type} {cause : FileFailure}
    (hPlaced : placeTemplate h out template t = .error (file, cause)) (body : Path → Work CompileError α) :
    (withTemplate h out template body).Leaves t t (.error (.template out file cause)) := by
  unfold placeTemplate at hPlaced
  constructor <;> simp only [withTemplate, hPlaced]

theorem leaves_withTemplate_of_storeFailure {α : Type} {cause : FileFailure}
    (hPlaced : placeTemplate h out template t = .ok (placed, file)) (hStored : h.storeFailure? placed file = some cause)
    (body : Path → Work CompileError α) :
    (withTemplate h out template body).Leaves t (discard placed h.dir file) (.error (.template out file cause)) := by
  unfold placeTemplate at hPlaced
  constructor <;> simp only [withTemplate, hPlaced, hStored]

theorem leaves_withTemplate {α : Type} {result : Except CompileError α}
    (hPlaced : placeTemplate h out template t = .ok (placed, file)) (hStored : h.storeFailure? placed file = none)
    (body : Path → Work CompileError α) (hBody : (body file).Leaves placed used result) :
    (withTemplate h out template body).Leaves t (discard used h.dir file) result := by
  unfold placeTemplate at hPlaced
  obtain ⟨rfl, rfl⟩ := hBody
  constructor <;> simp only [withTemplate, hPlaced, hStored]

theorem exists_serves (c : Compiler) (command : Path → String)
    (hPlaced : placeTemplate h out template t = .ok (placed, file)) :
    ∃ used ended, Serves h c out (command file) file placed used ended ∧
      (withTemplate h out template fun file => c.call h (command file)).Leaves t (discard used h.dir file) ended := by
  cases hStored : h.storeFailure? placed file with
  | some cause => exact ⟨placed, _, .notStored hStored, leaves_withTemplate_of_storeFailure hPlaced hStored _⟩
  | none =>
    obtain ⟨used, ended, hCall, hBody⟩ := callEnds h c (command file) placed
    exact ⟨used, ended, .called hStored hCall, leaves_withTemplate hPlaced hStored _ hBody⟩

theorem exists_course (h : Host) (c : Compiler) (protoPath outDir : Path) (flags : String) (t : FileTree) :
    ∃ left result, Course h c protoPath outDir flags t left result ∧
      (c.run h protoPath outDir flags).Leaves t left result := by
  unfold run
  rcases hReady : t.makeDirectories h.dir (c.root.join outDir) with ⟨ready, made⟩
  have hEdit : (edit fun t => t.makeDirectories h.dir (c.root.join outDir)).Leaves t ready made := leaves_edit hReady
  have hMade := hEdit.mapError (CompileError.outDir (c.root.join outDir))
  cases made with
  | error cause => exact ⟨_, _, .noOutDir hReady, hMade.bind_error _⟩
  | ok _ =>
  replace hMade := hMade.ends
  have hFound := ends_look (ε := CompileError) (fun t => Template.find t h.dir c.root protoPath outDir) ready
  have hTold := ends_tell (ε := CompileError) (Template.find ready h.dir c.root protoPath outDir).log ready
  cases hPlaced : placeTemplate h (c.root.join outDir) (Template.find ready h.dir c.root protoPath outDir) ready with
  | error failure =>
    have hTemplate := leaves_withTemplate_of_error hPlaced fun file =>
      c.call h (commandLine c.command protoPath file flags)
    exact ⟨_, _, .noTemplate hReady hPlaced,
      hMade.leaves_bind (hFound.leaves_bind (hTold.leaves_bind (hTemplate.bind_error _)))⟩
  | ok standing =>
    obtain ⟨placed, file⟩ := standing
    have hPlacement : Placement h c protoPath outDir t ready placed file := ⟨hReady, hPlaced⟩
    obtain ⟨used, ended, hServes, hTemplate⟩ :=
      exists_serves c (fun file => commandLine c.command protoPath file flags) hPlaced
    cases ended with
    | error e =>
      exact ⟨_, _, .notServed hPlacement hServes,
        hMade.leaves_bind (hFound.leaves_bind (hTold.leaves_bind (hTemplate.bind_error _)))⟩
    | ok _ =>
      have hCollect := ends_look (ε := CompileError) (fun t => collect t h.dir (c.root.join outDir))
        (discard used h.dir file)
      cases hFiles : collect (discard used h.dir file) h.dir (c.root.join outDir) with
      | error cause =>
        refine ⟨_, _, .notListed hPlacement hServes hFiles,
          hMade.leaves_bind (hFound.leaves_bind (hTold.leaves_bind (hTemplate.ends.leaves_bind
            (hCollect.leaves_bind ?_))))⟩
        rw [hFiles]
        exact (leaves_check _ _).bind_error _
      | ok files =>
        refine ⟨_, _, .finished hPlacement hServes hFiles,
          hMade.leaves_bind (hFound.leaves_bind (hTold.leaves_bind (hTemplate.ends.leaves_bind
            (hCollect.leaves_bind ?_))))⟩
        rw [hFiles]
        exact (leaves_check (.ok files) _).ends.leaves_bind ((ends_tell _ _).leaves_bind (ends_pure _ _).leaves)

theorem course_of_leaves (hRun : (c.run h protoPath outDir flags).Leaves t left result) :
    Course h c protoPath outDir flags t left result := by
  obtain ⟨left', result', hCourse, hLeaves⟩ := exists_course h c protoPath outDir flags t
  obtain ⟨rfl, rfl⟩ := hLeaves.unique hRun
  exact hCourse

/-- A run that ends well has called the compiler, with success, on the tree in which the template stands. -/
theorem exists_start_of_ends_run {made : Compilation} (hRun : (c.run h protoPath outDir flags).Ends t left made) :
    ∃ ready placed file done, Placement h c protoPath outDir t ready placed file ∧
      h.start ⟨"sh", ["-c", commandLine c.command protoPath file flags], c.root⟩ placed = .ok done ∧
      done.status.isSuccess = true ∧ left = discard done.tree h.dir file := by
  cases course_of_leaves hRun.leaves with
  | @finished ready placed used file files hPlaced hServes hFiles =>
    cases hServes with
    | called hStored hCall =>
      cases hCall with
      | @succeeded done hStart hStatus => exact ⟨ready, placed, file, done, hPlaced, hStart, hStatus, rfl⟩

end ClientRegistry.Compiler
