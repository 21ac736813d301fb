import ClientRegistry.Proofs.Generation.TemporaryTemplate

/-!
# One template under two names

The token in a template's name is drawn anew for every run. In an output directory that has just been
made each name is free, and so one run can place its template exactly when another one can; a compiler
that does not look at the name does the same in both.
-/

set_option autoImplicit false

namespace ClientRegistry

open FileTree

/-! ### Names of one length -/

namespace FileTree

variable {t placed : FileTree} {dir loc : Location} {p : Path} {old new : String} {content : ByteArray}

structure SameLength (old new : String) : Prop where
  isName : IsName old
  isName' : IsName new
  no_nul : Char.ofNat 0 ∉ old.toList
  no_nul' : Char.ofNat 0 ∉ new.toList
  size : old.utf8ByteSize = new.utf8ByteSize

def parentOfName (t : FileTree) (base : Location) (before : String) (init : List String) (size : Nat) :
    Except FileFailure Location :=
  if before.toList.contains (Char.ofNat 0) then .error .nulInPath
  else if maxPathBytes < before.utf8ByteSize + size then .error .nameTooLong
  else do
    let found ← t.walk maxLinks base init
    t.requireDirectory found.1
    .ok found.1

/-- What comes before a name does not depend on the name, if it has a given length. -/
theorem exists_entryOf_join (t : FileTree) (dir : Location) (p : Path) (size : Nat) :
    ∃ before init, ∀ name, IsName name → Char.ofNat 0 ∉ name.toList → name.utf8ByteSize = size →
      t.entryOf dir (p.join ⟨name⟩) =
        (t.parentOfName (linkStart dir p.text).1 before init size).map fun parent => (parent, .name name false) := by
  obtain ⟨before, init, -, hJoined⟩ := p.exists_join_name
  refine ⟨before, init, fun name hName hNul hSize => ?_⟩
  obtain ⟨hText, hSegments⟩ := hJoined name hName
  have hContains : (p.join ⟨name⟩).text.toList.contains (Char.ofNat 0) = before.toList.contains (Char.ofNat 0) := by
    rw [hText, String.toList_append, List.contains_append]
    simp [hNul]
  have hNonempty : (p.join ⟨name⟩).text ≠ "" := by
    rw [hText]
    intro hEmpty
    exact hName.not_empty (String.append_eq_empty_iff.mp hEmpty).2
  have hBytes : (p.join ⟨name⟩).text.utf8ByteSize = before.utf8ByteSize + size := by
    rw [hText, String.utf8ByteSize_append, hSize]
  have hStart : linkStart dir (p.join ⟨name⟩).text = ((linkStart dir p.text).1, init ++ [name]) := by
    have hAbsolute := Path.isAbsolute_join_name p hName
    rw [linkStart, linkStart, ← hSegments]
    simp only [hAbsolute]
  unfold entryOf start parentOfName
  rw [hContains, if_neg (by simpa using hNonempty : ¬((p.join ⟨name⟩).text == "") = true), hBytes, hStart]
  split
  · rfl
  split
  · rfl
  unfold approach
  simp only [Bind.bind, Except.bind, ofSegments_concat hName]
  cases t.walk maxLinks (linkStart dir p.text).1 init with
  | error e => rfl
  | ok found =>
    dsimp only
    cases t.requireDirectory found.1 with
    | error e => rfl
    | ok _ => rfl

def Fresh (t : FileTree) (dir : Location) (p : Path) : Prop :=
  ∀ name parent, IsName name → t.entryOf dir (p.join ⟨name⟩) = .ok (parent, .name name false) →
    t.node? (parent ++ [name]) = none

/-- A file is made under both of two names or, for one cause, under none of them. -/
theorem addFile_twice (hFresh : t.Fresh dir p) (h : SameLength old new) (content : ByteArray) :
    (∃ e, t.addFile dir (p.join ⟨old⟩) content = .error e ∧ t.addFile dir (p.join ⟨new⟩) content = .error e) ∨
      ∃ placed placed', t.addFile dir (p.join ⟨old⟩) content = .ok placed ∧
        t.addFile dir (p.join ⟨new⟩) content = .ok placed' := by
  obtain ⟨before, init, hEntry⟩ := t.exists_entryOf_join dir p new.utf8ByteSize
  generalize t.parentOfName (linkStart dir p.text).1 before init new.utf8ByteSize = x at hEntry
  have hOld := hEntry old h.isName h.no_nul h.size
  have hNew := hEntry new h.isName' h.no_nul' rfl
  have hName : requireName old = requireName new := by rw [requireName, requireName, h.size]
  cases x with
  | error e =>
    refine .inl ⟨e, ?_, ?_⟩
    · rw [addFile, hOld]
      rfl
    · rw [addFile, hNew]
      rfl
  | ok parent =>
    have hOldFree := hFresh old parent h.isName hOld
    have hNewFree := hFresh new parent h.isName' hNew
    have hRoom : t.requireRoom parent old = t.requireRoom parent new := by rw [requireRoom, requireRoom, hName]
    have hMake (name : String) (hFree : t.node? (parent ++ [name]) = none)
        (hFound : t.entryOf dir (p.join ⟨name⟩) = .ok (parent, .name name false)) :
        t.addFile dir (p.join ⟨name⟩) content =
          (t.requireRoom parent name).map fun _ => t.put (parent ++ [name]) (.file content) := by
      rw [addFile, hFound]
      unfold requireRoom
      cases hLength : requireName name with
      | error e => simp only [Bind.bind, Except.bind, hLength, Except.map]
      | ok _ =>
        simp only [Bind.bind, Except.bind, hLength, hFree, Option.isSome_none]
        cases t.node? parent with
        | none => rfl
        | some node => cases node <;> rfl
    rw [hMake old hOldFree hOld, hMake new hNewFree hNew, hRoom]
    cases t.requireRoom parent new with
    | error e => exact .inl ⟨e, rfl, rfl⟩
    | ok _ => exact .inr ⟨_, _, rfl, rfl⟩

end FileTree

structure IsToken (token : String) : Prop where
  size : token.utf8ByteSize = 6
  alphanumeric : ∀ c ∈ token.toList, c.isAlphanum = true

theorem IsToken.of_all {token : String} (hSize : token.utf8ByteSize = 6)
    (hAll : token.toList.all Char.isAlphanum = true) : IsToken token := ⟨hSize, List.all_eq_true.mp hAll⟩

theorem IsToken.plain {token : String} (h : IsToken token) {c : Char} (hc : c.isAlphanum = false) :
    c ∉ token.toList := by
  intro hMem
  cases hc.symm.trans (h.alphanumeric c hMem)

def Host.redraw (h : Host) (token : Nat → String) : Host := { h with token := token }

namespace Compiler

variable {h : Host} {c : Compiler} {protoPath out base : Path} {flags content old new : String} {dir : Location}
  {t placed placed' : FileTree} {template : Template}

/-! ### Twins -/

inductive TwinNames : String → String → Prop
  | drawn {extension token token' : String} (hKnown : extension ∈ Template.extensions) (hToken : IsToken token)
    (hToken' : IsToken token') : TwinNames (temporaryName token extension) (temporaryName token' extension)

inductive TwinFiles (base : Path) : Path → Path → Prop
  | same (file : Path) : TwinFiles base file file
  | twins {old new : String} (hNames : TwinNames old new) : TwinFiles base (base.join ⟨old⟩) (base.join ⟨new⟩)

structure TwinTemplates (dir : Location) (base : Path) (content : String) (t : FileTree) (old new : String)
    (placed placed' : FileTree) : Prop where
  names : TwinNames old new
  added : t.addFile dir (base.join ⟨old⟩) content.toUTF8 = .ok placed
  added' : t.addFile dir (base.join ⟨new⟩) content.toUTF8 = .ok placed'

theorem TwinNames.sameLength (h : TwinNames old new) : SameLength old new := by
  cases h with
  | @drawn extension token token' hKnown hToken hToken' =>
    have hExtensions : ∀ extension ∈ Template.extensions, '/' ∉ extension.toList ∧ Char.ofNat 0 ∉ extension.toList := by
      decide
    obtain ⟨hSlash, hNul⟩ := hExtensions extension hKnown
    have hNoNul (token : String) (hToken : IsToken token) : Char.ofNat 0 ∉ (temporaryName token extension).toList := by
      simp only [temporaryName, String.toList_append, List.mem_append, not_or]
      exact ⟨⟨⟨by decide, hToken.plain (by decide)⟩, by decide⟩, hNul⟩
    have hSize (token : String) (hToken : IsToken token) :
        (temporaryName token extension).utf8ByteSize = 8 + 6 + 1 + extension.utf8ByteSize := by
      rw [temporaryName, String.utf8ByteSize_append, String.utf8ByteSize_append, String.utf8ByteSize_append,
        hToken.size]
      rfl
    exact {
      isName := isName_temporaryName (hToken.plain (by decide)) hSlash
      isName' := isName_temporaryName (hToken'.plain (by decide)) hSlash
      no_nul := hNoNul token hToken
      no_nul' := hNoNul token' hToken'
      size := (hSize token hToken).trans (hSize token' hToken').symm }

theorem TwinNames.head?_eq (h : TwinNames old new) : old.toList.head? = some 'b' ∧ new.toList.head? = some 'b' := by
  cases h with
  | drawn hKnown hToken hToken' =>
    constructor
    all_goals
      rw [temporaryName, String.toList_append, String.toList_append, String.toList_append]
      rfl

theorem placeFile_twice {name name' : Nat → String} (hFresh : t.Fresh dir base)
    (hNames : ∀ n, TwinNames (name n) (name' n))
    (content : String) (attempts : Nat) :
    (∃ file file' cause, TwinFiles base file file' ∧ placeFile t dir base content name attempts = .error (file, cause) ∧
      placeFile t dir base content name' attempts = .error (file', cause)) ∨
    ∃ old new placed placed', TwinTemplates dir base content t old new placed placed' ∧
      placeFile t dir base content name attempts = .ok (placed, base.join ⟨old⟩) ∧
      placeFile t dir base content name' attempts = .ok (placed', base.join ⟨new⟩) := by
  induction attempts with
  | zero => exact .inl ⟨base, base, .alreadyExists, .same base, rfl, rfl⟩
  | succ attempts ih =>
    rw [placeFile_succ, placeFile_succ]
    rcases addFile_twice hFresh (hNames attempts).sameLength content.toUTF8 with
      ⟨e, hOld, hNew⟩ | ⟨placed, placed', hOld, hNew⟩
    · rw [hOld, hNew]
      by_cases hTaken : e = .alreadyExists
      · subst hTaken
        exact ih
      · refine .inl ⟨_, _, e, .twins (hNames attempts), ?_, ?_⟩
        all_goals
          split
          · rename_i hMade
            cases hMade
          · rename_i hExists
            exact absurd (Except.error.inj hExists) hTaken
          · rename_i hOther
            cases hOther
            rfl
    · rw [hOld, hNew]
      exact .inr ⟨_, _, placed, placed', ⟨hNames attempts, hOld, hNew⟩, rfl, rfl⟩

/-! ### Compilers that do not look at the name -/

def Renamed (old new text text' : String) : Prop :=
  ∃ pieces : List String, text = old.intercalate pieces ∧ text' = new.intercalate pieces

theorem Renamed.same (text : String) : Renamed old new text text := ⟨[text], rfl, rfl⟩

/-- Two calls of the compiler that cannot be told apart but for the name of the template: neither could be
started, for the same cause, or both have ended in the same way and left the same but for the template. -/
inductive SameCall (dir : Location) (base : Path) (old new : String) :
    Except FileFailure Completed → Except FileFailure Completed → Prop
  | notStarted (cause : FileFailure) : SameCall dir base old new (.error cause) (.error cause)
  | ended {done done' : Completed} (hStatus : done.status = done'.status)
    (hTree : discard done.tree dir (base.join ⟨old⟩) = discard done'.tree dir (base.join ⟨new⟩))
    (hErrors : Renamed old new (Text.Utf8.decodeLossy done.errors) (Text.Utf8.decodeLossy done'.errors)) :
    SameCall dir base old new (.ok done) (.ok done')

/-- Whether and how a compiler runs depends on the tree and on the template, not on the template's name. -/
structure Blind (h : Host) : Prop where
  stored : ∀ {base content t old new placed placed'}, TwinTemplates h.dir base content t old new placed placed' →
    h.storeFailure? placed (base.join ⟨old⟩) = h.storeFailure? placed' (base.join ⟨new⟩)
  called : ∀ {base content t old new placed placed'}, TwinTemplates h.dir base content t old new placed placed' →
    ∀ (c : Compiler) protoPath flags, SameCall h.dir base old new
      (h.start ⟨"sh", ["-c", commandLine c.command protoPath (base.join ⟨old⟩) flags], c.root⟩ placed)
      (h.start ⟨"sh", ["-c", commandLine c.command protoPath (base.join ⟨new⟩) flags], c.root⟩ placed')

inductive SameFailure (c : Compiler) (protoPath : Path) (flags : String) (base : Path) :
    CompileError → CompileError → Prop
  | same (e : CompileError) : SameFailure c protoPath flags base e e
  | template {dir file file' : Path} {cause : FileFailure} (hFiles : TwinFiles base file file') :
    SameFailure c protoPath flags base (.template dir file cause) (.template dir file' cause)
  | notStarted {old new : String} {cause : FileFailure} (hNames : TwinNames old new) :
    SameFailure c protoPath flags base (.notStarted (commandLine c.command protoPath (base.join ⟨old⟩) flags) cause)
      (.notStarted (commandLine c.command protoPath (base.join ⟨new⟩) flags) cause)
  | failed {old new errors errors' : String} {status : Shell.ExitStatus} (hNames : TwinNames old new)
    (hErrors : Renamed old new errors errors') :
    SameFailure c protoPath flags base (.failed (commandLine c.command protoPath (base.join ⟨old⟩) flags) status errors)
      (.failed (commandLine c.command protoPath (base.join ⟨new⟩) flags) status errors')

open Work

theorem discard_of_placeTemplate {file : Path} (hTokens : ∀ n, IsToken (h.token n)) (hFormat : template.HasFormat)
    (hPlaced : placeTemplate h out template t = .ok (placed, file)) : discard placed h.dir file = t := by
  have hPlain : h.PlainTokens := fun n => (hTokens n).plain (by decide)
  exact discard_of_stands hPlain hFormat (stands_of_placeTemplate hPlain hFormat hPlaced)

theorem Blind.calls {token token' : Nat → String} (hBlind : Blind h)
    (hTwins : TwinTemplates h.dir base content t old new placed placed')
    (hTrees : discard placed h.dir (base.join ⟨old⟩) = discard placed' h.dir (base.join ⟨new⟩))
    (c : Compiler) (protoPath : Path) (flags : String) :
    ∃ used used' ended ended',
      (c.call (h.redraw token) (commandLine c.command protoPath (base.join ⟨old⟩) flags)).Leaves placed used ended ∧
      (c.call (h.redraw token') (commandLine c.command protoPath (base.join ⟨new⟩) flags)).Leaves placed' used' ended' ∧
      discard used h.dir (base.join ⟨old⟩) = discard used' h.dir (base.join ⟨new⟩) ∧
      SameEnd (SameFailure c protoPath flags base) ended ended' := by
  have hCalled := hBlind.called hTwins c protoPath flags
  generalize hStart : h.start ⟨"sh", ["-c", commandLine c.command protoPath (base.join ⟨old⟩) flags], c.root⟩
    placed = x at hCalled
  generalize hStart' : h.start ⟨"sh", ["-c", commandLine c.command protoPath (base.join ⟨new⟩) flags], c.root⟩
    placed' = x' at hCalled
  cases hCalled with
  | notStarted cause =>
    exact ⟨placed, placed', _, _, leaves_call_of_error (h := h.redraw token) hStart,
      leaves_call_of_error (h := h.redraw token') hStart', hTrees, .error (.notStarted hTwins.names)⟩
  | @ended done done' hStatus hTree hErrors =>
    refine ⟨done.tree, done'.tree, _, _, leaves_call_of_ok (h := h.redraw token) hStart,
      leaves_call_of_ok (h := h.redraw token') hStart', hTree, ?_⟩
    rw [hStatus]
    split
    · exact .ok ()
    · exact .error (.failed hTwins.names hErrors)

/-- The template comes and goes in both runs alike. -/
theorem alike_withTemplate {token token' : Nat → String} (hBlind : Blind h) (hTokens : ∀ n, IsToken (token n))
    (hTokens' : ∀ n, IsToken (token' n)) (hFormat : template.HasFormat) (hFresh : t.Fresh h.dir (h.absolute out))
    (c : Compiler) (protoPath : Path) (flags : String) :
    Alike (SameFailure c protoPath flags (h.absolute out))
      ((withTemplate (h.redraw token) out template fun file =>
        c.call (h.redraw token) (commandLine c.command protoPath file flags)).run t)
      ((withTemplate (h.redraw token') out template fun file =>
        c.call (h.redraw token') (commandLine c.command protoPath file flags)).run t) := by
  have hNames (n : Nat) :
      TwinNames (temporaryName (token n) template.extension) (temporaryName (token' n) template.extension) :=
    .drawn hFormat.known (hTokens n) (hTokens' n)
  rcases placeFile_twice hFresh hNames template.content maxAttempts with
    ⟨file, file', cause, hFiles, hOld, hNew⟩ | ⟨old, new, placed, placed', hTwins, hOld, hNew⟩
  · have hOld : placeTemplate (h.redraw token) out template t = .error (file, cause) := hOld
    have hNew : placeTemplate (h.redraw token') out template t = .error (file', cause) := hNew
    exact .of_leaves (leaves_withTemplate_of_error hOld _) (leaves_withTemplate_of_error hNew _) rfl
      (.error (.template hFiles))
  · have hOld : placeTemplate (h.redraw token) out template t = .ok (placed, (h.absolute out).join ⟨old⟩) := hOld
    have hNew : placeTemplate (h.redraw token') out template t = .ok (placed', (h.absolute out).join ⟨new⟩) := hNew
    have hTrees := (discard_of_placeTemplate hTokens hFormat hOld).trans
      (discard_of_placeTemplate hTokens' hFormat hNew).symm
    have hStored' := hBlind.stored hTwins
    cases hStored : h.storeFailure? placed ((h.absolute out).join ⟨old⟩) with
    | some cause =>
      rw [hStored] at hStored'
      exact .of_leaves (leaves_withTemplate_of_storeFailure hOld hStored _)
        (leaves_withTemplate_of_storeFailure hNew hStored'.symm _) hTrees (.error (.template (.twins hTwins.names)))
    | none =>
      rw [hStored] at hStored'
      obtain ⟨used, used', ended, ended', hCall, hCall', hUsed, hEnd⟩ := hBlind.calls hTwins hTrees c protoPath flags
      exact .of_leaves (leaves_withTemplate hOld hStored _ hCall) (leaves_withTemplate hNew hStored'.symm _ hCall')
        hUsed hEnd

end Compiler

end ClientRegistry
