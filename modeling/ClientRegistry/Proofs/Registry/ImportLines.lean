import ClientRegistry.Proofs.Code.StringLiteral
import ClientRegistry.Proofs.Registry.Coherence
import ClientRegistry.Proofs.Service.Constant

/-!
# The paths that import lines stand for

The import of a service's constant is a line of its own in the module, with the path of the other module
between double quotes. The path is written as it is, so that a reader of the line gets it back unless it has
a character with a meaning of its own there: a quote, a backslash or a line break.
-/

set_option autoImplicit false

namespace ClientRegistry

namespace Code

def isCode (c : Char) : Bool := c ≠ '"' && c ≠ '/'

/-- The path of the imported module, which stands between quotes at the end of the line. -/
def specifier? (line : List Char) : Option (List Nat) :=
  match line.dropWhile isCode with
  | '"' :: rest =>
    match readString? rest with
    | some (us, [';']) => some us
    | _ => none
  | _ => none

def ImportsFrom (text importPath : String) : Prop :=
  ∃ line, text.toList = line ++ ['\n'] ∧ '\n' ∉ line ∧ '\r' ∉ line ∧
    specifier? line = some (units importPath.toList)

theorem specifier?_eq_some_iff {code path : List Char} (h : ∀ c ∈ code, isCode c = true) :
    specifier? (code ++ '"' :: (path ++ "\";".toList)) = some (units path) ↔ ∀ c ∈ path, isRaw c = true := by
  have hSelf : readString? (path ++ '"' :: [';']) = some (units path, [';']) ↔ ∀ c ∈ path, isRaw c = true :=
    readString?_self_iff
  have hRest : (code ++ '"' :: (path ++ "\";".toList)).dropWhile isCode = '"' :: (path ++ '"' :: [';']) := by
    rw [Service.dropWhile_append_stop h]
    · rfl
    · rintro c ⟨⟩
      decide
  rw [← hSelf, specifier?, hRest]
  constructor
  · intro h
    split at h
    case h_1 rest hParts =>
      cases hParts
      split at h
      case h_1 us hRead => rw [hRead, Option.some.inj h]
      case h_2 => cases h
    case h_2 => cases h
  · intro hRead
    simp only [hRead]

end Code

namespace Registry

open Code Service

def importCode (s : Service) : List Char :=
  "import".toList ++ ' ' :: '\x7b' :: (' ' :: (s.identifier.toList ++ [' ']) ++ '\x7d' :: " from ".toList)

theorem toList_importLine (s : Service) :
    (importLine s).toList = importCode s ++ '"' :: (s.importPath.toList ++ "\";".toList) := by
  have hLine : (importLine s).toList = "import \x7b ".toList ++ (s.identifier.toList ++
      (" \x7d from \"".toList ++ (s.importPath.toList ++ "\";".toList))) := by
    simp only [importLine, String.toList_append, List.append_assoc]
  have hOpening : ∀ rest, "import \x7b ".toList ++ rest = "import".toList ++ ' ' :: '\x7b' :: ' ' :: rest :=
    fun _ => rfl
  have hClosing : ∀ rest, " \x7d from \"".toList ++ rest = ' ' :: '\x7d' :: (" from ".toList ++ '"' :: rest) :=
    fun _ => rfl
  generalize s.importPath.toList ++ "\";".toList = path at hLine ⊢
  calc
    (importLine s).toList
      = "import \x7b ".toList ++ (s.identifier.toList ++ (" \x7d from \"".toList ++ path)) := hLine
    _ = "import".toList ++ ' ' :: '\x7b' :: ' ' :: (s.identifier.toList ++ (" \x7d from \"".toList ++ path)) :=
        hOpening _
    _ = "import".toList ++ ' ' :: '\x7b' :: ' ' :: (s.identifier.toList ++
          ' ' :: '\x7d' :: (" from ".toList ++ '"' :: path)) :=
        congrArg (fun rest => "import".toList ++ ' ' :: '\x7b' :: ' ' :: (s.identifier.toList ++ rest)) (hClosing _)
    _ = importCode s ++ '"' :: path := by
        unfold importCode
        simp only [List.append_assoc, List.cons_append, List.nil_append]

def importText (s : Service) : String := render (Member.ofService s).importStatement.fragments

variable {s : Service}

theorem importText_eq (s : Service) : importText s = importLine s ++ "\n" := by
  have hLines : Fragment.linesOfAll 0 (Member.ofService s).importStatement.fragments = [(0, importLine s)] := by
    rw [Import.fragments, importStatement_ofService]
    rfl
  rw [importText, render_eq, hLines, Indent.layout_cons, Indent.lineText_zero, Indent.layout_nil, String.append_empty]

def isImportMark (c : Char) : Bool := c ∈ [' ', '\x7b', '\x7d']

theorem all_importCode (h : IsConstant s.identifier) :
    (importCode s).all (fun c => isWordChar c || isImportMark c) = true := by
  have hKeyword : "import".toList.all (fun c => isWordChar c || isImportMark c) = true := by decide
  have hFrom : " from ".toList.all (fun c => isWordChar c || isImportMark c) = true := by decide
  have hIdentifier : s.identifier.toList.all (fun c => isWordChar c || isImportMark c) = true := by
    rw [List.all_eq_true]
    intro c hc
    rw [h.chars c hc, Bool.true_or]
  unfold importCode
  simp only [List.all_append, List.all_cons, hKeyword, hFrom, hIdentifier]
  rfl

theorem not_mem_importLine {c : Char} (h : IsConstant s.identifier)
    (hOther : (isWordChar c || isImportMark c) = false) (hEnd : c ∉ "\";".toList)
    (hPath : c ∉ s.importPath.toList) : c ∉ (importLine s).toList := by
  have hCode : c ∉ importCode s := by
    intro hMem
    rw [List.all_eq_true.mp (all_importCode h) c hMem] at hOther
    cases hOther
  have hQuote : c ≠ '"' := by
    rintro rfl
    exact hEnd (by decide)
  rw [toList_importLine, List.mem_append, List.mem_cons, List.mem_append]
  rintro (hMem | hMem | hMem | hMem)
  · exact hCode hMem
  · exact hQuote hMem
  · exact hPath hMem
  · exact hEnd hMem

theorem importsFrom_importText_iff (h : IsConstant s.identifier) :
    ImportsFrom (importText s) s.importPath ↔ ∀ c ∈ s.importPath.toList, isRaw c = true := by
  have hCode : ∀ c ∈ importCode s, isCode c = true := by
    intro c hc
    have hChar := List.all_eq_true.mp (all_importCode h) c hc
    have hQuote : c ≠ '"' := by
      rintro rfl
      exact absurd hChar (by decide)
    have hSlash : c ≠ '/' := by
      rintro rfl
      exact absurd hChar (by decide)
    simp [isCode, hQuote, hSlash]
  have hSpecifier : specifier? (importLine s).toList = some (units s.importPath.toList) ↔
      ∀ c ∈ s.importPath.toList, isRaw c = true := by
    rw [toList_importLine]
    exact specifier?_eq_some_iff hCode
  have hText : (importText s).toList = (importLine s).toList ++ ['\n'] := by
    rw [importText_eq, String.toList_append]
    rfl
  rw [← hSpecifier, ImportsFrom, hText]
  constructor
  · rintro ⟨line, hLine, -, -, hReads⟩
    rwa [List.append_cancel_right hLine]
  · intro hReads
    have hRaw := hSpecifier.mp hReads
    have hFeed : '\n' ∉ s.importPath.toList := fun hMem => absurd (hRaw _ hMem) (by decide)
    have hReturn : '\r' ∉ s.importPath.toList := fun hMem => absurd (hRaw _ hMem) (by decide)
    exact ⟨_, rfl, not_mem_importLine h (by decide) (by decide) hFeed,
      not_mem_importLine h (by decide) (by decide) hReturn, hReads⟩

def belowLines (services : List Service) : List (Nat × String) :=
  (0, "") :: blockLines "export interface GrpcClients \x7b" "\x7d" fieldLine services ++
    (0, "") :: blockLines "const services = \x7b" "\x7d as const;" entryLine services ++
    (0, "") :: factoryLines ++ services.flatMap getterLines ++ [(0, "\x7d"), (0, "")] ++ functionLines

/-- The text of a module's lines has the imports of its services one after the other. -/
theorem layout_moduleLines (services : List Service) :
    Indent.two.layout (moduleLines services) =
      Indent.two.layout headLines ++ String.join (services.map importText) ++
        Indent.two.layout (belowLines services) := by
  have hLines : moduleLines services =
      headLines ++ services.map (fun s => (0, importLine s)) ++ belowLines services := by
    simp only [moduleLines, belowLines, List.append_assoc, List.cons_append]
  have hImports : Indent.two.layout (services.map fun s => (0, importLine s)) =
      String.join (services.map importText) := by
    rw [Indent.layout, List.map_map]
    refine congrArg String.join (List.map_congr_left fun s _ => ?_)
    rw [importText_eq, Function.comp_apply, Indent.lineText_zero]
  rw [hLines, Indent.layout_append, Indent.layout_append, hImports]

theorem members_extract (t : FileTree) (dir : Location) (outDir : Path) (files : List Path) :
    (ofServices (extract t dir outDir files).services).members =
      (extract t dir outDir files).services.map Member.ofService := by
  obtain ⟨entries, -, hLedger⟩ := exists_ledger t dir outDir files
  rw [members_ofServices, firsts_eq_self hLedger.nodup]

/-- The text of the module of extracted services. -/
theorem text_extract (t : FileTree) (dir : Location) (outDir : Path) (files : List Path) :
    (ofServices (extract t dir outDir files).services).text =
      Indent.two.layout headLines ++ String.join ((extract t dir outDir files).services.map importText) ++
        Indent.two.layout (belowLines (extract t dir outDir files).services) :=
  (coherent_of_members (members_extract t dir outDir files)).text_eq.trans (layout_moduleLines _)

/-- The module of extracted services imports their constants one after the other. An import is one line that
stands for the service's path exactly when the path has no quote, no backslash and no line break. -/
theorem importsFrom_extract_iff (t : FileTree) (dir : Location) (outDir : Path) (files : List Path) :
    ∃ below, (ofServices (extract t dir outDir files).services).text =
        Indent.two.layout headLines ++ String.join ((extract t dir outDir files).services.map importText) ++ below ∧
      ∀ s ∈ (extract t dir outDir files).services,
        (ImportsFrom (importText s) s.importPath ↔ ∀ c ∈ s.importPath.toList, c ∉ ['"', '\\', '\n', '\r']) := by
  refine ⟨_, text_extract t dir outDir files, ?_⟩
  intro s hs
  rw [importsFrom_importText_iff (named_of_mem_extract hs).constant]
  simp only [isRaw, decide_eq_true_eq]

def quotedTree : FileTree :=
  FileTree.empty.put ["a\"b_pb.ts"] (.file "export const FooService: GenService<".toUTF8)

/-- An import whose path ends at the quote of the file's name. -/
theorem not_importsFrom_extract :
    (extract quotedTree [] ⟨"/"⟩ [⟨"/a\"b_pb.ts"⟩]).services = [ofBaseName "Foo" "./a\"b_pb"] ∧
      ¬ ImportsFrom (importText (ofBaseName "Foo" "./a\"b_pb")) "./a\"b_pb" := by
  have hServices : (extract quotedTree [] ⟨"/"⟩ [⟨"/a\"b_pb.ts"⟩]).services = [ofBaseName "Foo" "./a\"b_pb"] := by
    decide +kernel
  refine ⟨hServices, fun hImports => ?_⟩
  have hConstant : IsConstant (ofBaseName "Foo" "./a\"b_pb").identifier :=
    (named_of_mem_extract (hServices ▸ List.mem_singleton_self _)).constant
  have hRaw := (importsFrom_importText_iff hConstant).mp hImports
  exact absurd (hRaw '"' (by decide)) (by decide)

end Registry

end ClientRegistry
