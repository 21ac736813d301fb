import ClientRegistry.FileTree.Listing
import ClientRegistry.FileTree.Writing
import ClientRegistry.Generation.Template
import ClientRegistry.Host.Basic
import ClientRegistry.Shell.Quote
import ClientRegistry.Text.Blank
import ClientRegistry.Text.Escaped
import ClientRegistry.Text.Utf8

/-!
# Compilation

The compiler is run by a shell in the project's root. It gets the template as a temporary file in
the output directory, which is removed when it has ended, however it has ended. What it has made is
then found by name.
-/

set_option autoImplicit false

namespace ClientRegistry

open Shell (ExitStatus)

inductive CompileError where
  | outDir (dir : Path) (cause : FileFailure)
  | template (dir file : Path) (cause : FileFailure)
  | notStarted (command : String) (cause : FileFailure)
  | failed (command : String) (status : ExitStatus) (errors : String)
  | listing (dir : Path) (cause : FileFailure)
  deriving DecidableEq, Repr

namespace CompileError

/-- What the compiler has said about its failure, if it has said anything. -/
def errorsText (errors : String) : String :=
  if Text.allBlank errors then "" else ":\n" ++ Text.trim errors

def message : CompileError → String
  | outDir dir _ => "failed to create output directory '" ++ dir.text ++ "'"
  | template dir _ _ => "failed to write temporary template in '" ++ dir.text ++ "'"
  | notStarted command _ => "failed to start \x60" ++ command ++ "\x60"
  | failed command status errors =>
    "\x60" ++ command ++ "\x60 exited with " ++ status.message ++ errorsText errors
  | listing dir _ => "failed to read generated files in '" ++ dir.text ++ "'"

/-- What lies behind the failure, the nearest first. -/
def causes : CompileError → List String
  | outDir _ cause | notStarted _ cause => [cause.message]
  | template _ file cause => [cause.message ++ " at path " ++ Text.escapedPath file.text]
  | failed _ _ _ => []
  | listing dir cause =>
    ["IO error for operation on " ++ dir.text ++ ": " ++ cause.message, cause.message]

def messages (e : CompileError) : List String := e.message :: e.causes

end CompileError

structure Compiler where
  /-- The directory in which the compiler runs, and from which relative paths are seen. -/
  root : Path
  /-- How the compiler is called. -/
  command : String
  deriving DecidableEq, Repr

structure Compilation where
  template : Template.Source
  files : List Path
  deriving DecidableEq, Repr

namespace Compiler

def generatedSuffix : String := "_pb.ts"

/-- The call of the compiler. Paths are quoted; the flags stand as they are given. -/
def commandLine (compiler : String) (protoPath template : Path) (flags : String) : String :=
  compiler ++ " generate " ++ Shell.quote protoPath.text ++ " --template " ++ Shell.quote template.text ++
    if Text.trim flags = "" then "" else " " ++ Text.trim flags

/-! ## The temporary template -/

def temporaryName (token extension : String) : String := "buf.gen." ++ token ++ "." ++ extension

/-- How often a name may turn out to be taken. -/
def maxAttempts : Nat := 65536

/-- Makes a file under the first name that is free, in as many attempts as are left. A failure
comes with the path that was tried. -/
def placeFile (t : FileTree) (dir : Location) (base : Path) (content : String) (name : Nat → String) :
    Nat → Except (Path × FileFailure) (FileTree × Path)
  | 0 => .error (base, .alreadyExists)
  | left + 1 =>
    match t.addFile dir (base.join ⟨name left⟩) content.toUTF8 with
    | .ok made => .ok (made, base.join ⟨name left⟩)
    | .error .alreadyExists => placeFile t dir base content name left
    | .error cause => .error (base.join ⟨name left⟩, cause)

/-- The tree without a file, if it can be removed. -/
def discard (t : FileTree) (dir : Location) (file : Path) : FileTree :=
  match t.removeEntry dir file with
  | .ok rest => rest
  | .error _ => t

def withTemplate {α : Type} (h : Host) (dir : Path) (template : Template)
    (body : Path → Work CompileError α) : Work CompileError α where
  run t :=
    let name (n : Nat) := temporaryName (h.token n) template.extension
    match placeFile t h.dir (h.absolute dir) template.content name maxAttempts with
    | .error (file, cause) => ⟨t, [], .error (.template dir file cause)⟩
    | .ok (made, file) =>
      match h.storeFailure? made file with
      | some cause => ⟨discard made h.dir file, [], .error (.template dir file cause)⟩
      | none =>
        let done := (body file).run made
        { done with tree := discard done.tree h.dir file }

/-! ## The call -/

/-- What is told about a program that has ended. -/
def endLog (command : String) (done : Completed) : Log :=
  let output := Text.trim (Text.Utf8.decodeLossy done.output)
  (if output = "" then [] else [Log.debug ("buf: " ++ output)]) ++
    if done.status.isSuccess then []
    else
      [Log.error ("\x60" ++ command ++ "\x60 failed (" ++ done.status.message ++ "): " ++
        Text.trim (Text.Utf8.decodeLossy done.errors))]

def call (h : Host) (c : Compiler) (command : String) : Work CompileError Unit := do
  Work.tell [Log.debug ("Running " ++ command)]
  match ← (h.run ⟨"sh", ["-c", command], c.root⟩).attempt with
  | .error cause =>
    Work.tell [Log.error ("Failed to start \x60" ++ command ++ "\x60: " ++ cause.message)]
    Work.fail (.notStarted command cause)
  | .ok done =>
    Work.tell (endLog command done)
    if done.status.isSuccess then pure ()
    else Work.fail (.failed command done.status (Text.Utf8.decodeLossy done.errors))

/-! ## What was made -/

/-- A place whose name is that of a generated module. -/
def isGenerated (place : Location) : Bool :=
  place.getLast?.any fun name => generatedSuffix.toList.isSuffixOf name.toList

/-- The generated modules at or below a path. The traversal is granted: it can fail at the path itself, but
not below it, however deep the directories are. -/
def collect (t : FileTree) (dir : Location) (p : Path) : Except FileFailure (List Path) := do
  match ← t.listingRoot dir p with
  | some loc => .ok (((t.files loc).filter isGenerated).map (FileTree.pathBelow p loc))
  | none => .ok []

/-- Runs the compiler once, and collects what it has made. -/
def run (h : Host) (c : Compiler) (protoPath outDir : Path) (flags : String) :
    Work CompileError Compilation := do
  let out := c.root.join outDir
  (Work.edit fun t => t.makeDirectories h.dir out).mapError (CompileError.outDir out)
  let template ← Work.look fun t => Template.find t h.dir c.root protoPath outDir
  Work.tell template.log
  withTemplate h out template fun file => c.call h (commandLine c.command protoPath file flags)
  let found ← Work.look fun t => collect t h.dir out
  let files ← Work.check (found.mapError (CompileError.listing out))
  Work.tell [Log.info ("buf generated " ++ toString files.length ++ " file(s) in " ++ outDir.text)]
  pure ⟨template.source, files⟩

end Compiler

end ClientRegistry
