import ClientRegistry.Proofs.Code.ModuleNames
import ClientRegistry.Proofs.Registry.ImportLines

/-!
# The names that a registry module binds

What a registry module has around its imports is read alike for all services: names of its own are bound,
every statement is ended, and no bracket is left open. So the module is read as far as its imports are read by
themselves, and binds their names between its own. With raw paths these are the services' constants. A
constant ends in the suffix, as none of the module's own names does.
-/

set_option autoImplicit false

namespace ClientRegistry.Registry

open Code Service

def ownImports : List String := ["RequestEventBase", "createClient", "Transport", "Client"]

def ownDeclarations : List String := ["GrpcClients", "services", "ClientFactory", "registerGrpcClients", "grpc"]

/-! ### Words -/

theorem isNamePart_of_isWordChar {c : Char} (h : isWordChar c = true) : isNamePart c = true := by
  have hEither : c.isAlphanum || c == '_' := h
  simp only [isNamePart, Bool.or_eq_true] at hEither ⊢
  exact .inl (.inl hEither)

variable {s : Service} {services : List Service} {ts : List Token} {rest : List Char}

/-- A word before a text that goes on with something else. -/
theorem lexes_name {name : String} (h : IsWord name) (hStop : rest.head?.any (!isNamePart ·) = true)
    (hRest : Place.Lexes (.code []) rest ts (.code [])) :
    Place.Lexes (.code []) (name.toList ++ rest) (.word name :: ts) (.code []) := by
  have hWord := Place.Lexes.word (fun c hc => isNamePart_of_isWordChar (h.chars c hc)) h.ne_nil hStop hRest
  rwa [String.ofList_toList] at hWord

/-! ### Lines -/

/-- A text that is read as tokens up to its end, and closes no comment that it might stand in. -/
structure Spells (s : List Char) (ts : List Token) : Prop where
  lexes : Place.Lexes (.code []) s ts (.code [])
  noStar : '*' ∉ s

instance (s : List Char) (ts : List Token) : Decidable (Spells s ts) :=
  decidable_of_iff (Place.Lexes (.code []) s ts (.code []) ∧ '*' ∉ s)
    ⟨fun h => ⟨h.1, h.2⟩, fun h => ⟨h.lexes, h.noStar⟩⟩

theorem Spells.append {s s' : List Char} {ts ts' : List Token} (h : Spells s ts) (h' : Spells s' ts') :
    Spells (s ++ s') (ts ++ ts') :=
  ⟨h.lexes.append h'.lexes, by simp [h.noStar, h'.noStar]⟩

def charsOf (lines : List (Nat × String)) : List Char := lines.flatMap fun line => (Indent.two.lineText line).toList

theorem toList_layout (lines : List (Nat × String)) : (Indent.two.layout lines).toList = charsOf lines := by
  rw [Indent.layout, String.toList_join, List.flatMap_map]
  rfl

def SpellLines (lines : List (Nat × String)) (ts : List Token) : Prop := Spells (charsOf lines) ts

instance (lines : List (Nat × String)) (ts : List Token) : Decidable (SpellLines lines ts) :=
  inferInstanceAs (Decidable (Spells (charsOf lines) ts))

theorem SpellLines.append {lines lines' : List (Nat × String)} {ts ts' : List Token} (h : SpellLines lines ts)
    (h' : SpellLines lines' ts') : SpellLines (lines ++ lines') (ts ++ ts') := by
  have hBoth := Spells.append h h'
  rwa [charsOf, charsOf, ← List.flatMap_append] at hBoth

theorem SpellLines.blank_cons {lines : List (Nat × String)} {ts : List Token} (h : SpellLines lines ts) :
    SpellLines ((0, "") :: lines) ts :=
  ⟨⟨h.lexes.after_eq, h.lexes.tokens_eq⟩, fun hStar => h.noStar (List.mem_of_ne_of_mem (by decide) hStar)⟩

theorem spellLines_flatMap {linesOf : Service → List (Nat × String)} {tokensOf : Service → List Token}
    (h : ∀ s ∈ services, SpellLines (linesOf s) (tokensOf s)) :
    SpellLines (services.flatMap linesOf) (services.flatMap tokensOf) := by
  induction services with
  | nil => exact ⟨⟨rfl, rfl⟩, List.not_mem_nil⟩
  | cons s rest ih =>
    rw [List.flatMap_cons, List.flatMap_cons]
    exact (h s List.mem_cons_self).append (ih fun other hOther => h other (List.mem_cons_of_mem s hOther))

theorem spellLines_block {opening closing : String} {before after : List Token} {lineOf : Service → String}
    {tokensOf : Service → List Token} (hOpening : SpellLines [(0, opening)] before)
    (hClosing : SpellLines [(0, closing)] after) (hEmpty : SpellLines [(0, opening ++ closing)] (before ++ after))
    (hLines : ∀ s ∈ services, SpellLines [(1, lineOf s)] (tokensOf s)) :
    SpellLines (blockLines opening closing lineOf services) (before ++ services.flatMap tokensOf ++ after) := by
  cases services with
  | nil =>
    rw [List.flatMap_nil, List.append_nil]
    exact hEmpty
  | cons s rest =>
    have hInner := (hOpening.append (spellLines_flatMap hLines)).append hClosing
    rwa [← List.map_eq_flatMap] at hInner

theorem charsOf_blank (depth : Nat) (lines : List (Nat × String)) :
    charsOf ((depth, "") :: lines) = '\n' :: charsOf lines := by
  rw [charsOf, List.flatMap_cons, Indent.lineText, if_pos rfl]
  rfl

theorem charsOf_cons {depth : Nat} {text : String} (h : text ≠ "") (lines : List (Nat × String)) :
    charsOf ((depth, text) :: lines) =
      (Indent.two.blanks depth).toList ++ (text.toList ++ '\n' :: charsOf lines) := by
  rw [charsOf, List.flatMap_cons, Indent.lineText, if_neg h, String.toList_append, String.toList_append,
    List.append_assoc, List.append_assoc]
  rfl

def fieldTokens (s : Service) : List Token :=
  [.word s.instanceName, .mark ':', .word "Client", .mark '<', .word "typeof", .word s.identifier, .mark '>',
    .mark ';']

def entryTokens (s : Service) : List Token :=
  [.word s.instanceName, .mark ':', .word s.identifier, .mark ',']

def getterTokens (s : Service) : List Token :=
  [.word "get", .word s.instanceName, .mark '(', .mark ')', .mark ':', .word "GrpcClients", .mark '[', .literal,
    .mark ']', .mark '\x7b', .word "return", .word "this", .mark '.', .word "getOrCreate", .mark '(', .literal,
    .mark ')', .mark ';', .mark '\x7d']

theorem star_not_mem {name : String} (h : IsWord name) : '*' ∉ name.toList := h.not_mem (by decide)

theorem spells_word {name : String} (h : IsWord name) (hStop : rest.head?.any (!isNamePart ·) = true)
    (hRest : Spells rest ts) : Spells (name.toList ++ rest) (.word name :: ts) :=
  ⟨lexes_name h hStop hRest.lexes, by simp [star_not_mem h, hRest.noStar]⟩

theorem spells_quoted {name : String} (h : IsWord name) (hRest : Spells rest ts) :
    Spells ('"' :: (name.toList ++ '"' :: rest)) (.literal :: ts) := by
  have hRaw : ∀ c ∈ name.toList, c ∉ ['"', '\\', '\n', '\r'] := by
    intro c hc hMark
    simp only [List.mem_cons, List.not_mem_nil, or_false] at hMark
    rcases hMark with rfl | rfl | rfl | rfl <;> exact h.not_mem (by decide) hc
  have hOpen : Place.Lexes (.code []) ['"'] [.literal] (.quoted '"') := ⟨rfl, rfl⟩
  have hClose : Place.Lexes (.quoted '"') ['"'] [] (.code []) := ⟨rfl, rfl⟩
  have hLexes := (hOpen.append (Place.lexes_quoted hRaw)).append (hClose.append hRest.lexes)
  rw [List.append_assoc] at hLexes
  exact ⟨hLexes, by simp [star_not_mem h, hRest.noStar]⟩

/-- A line within a block that names the key and the constant of a service. -/
theorem spellLines_pair {between after : String} {c : Char} {cs : List Char} {ts ts' : List Token} (h : Named s)
    (hCons : between.toList = c :: cs) (hChar : isNamePart c = false) (hBetween : Spells between.toList ts)
    (hStop : (after.toList ++ ['\n']).head?.any (!isNamePart ·) = true)
    (hAfter : Spells (after.toList ++ ['\n']) ts') :
    SpellLines [(1, s.instanceName ++ between ++ s.identifier ++ after)]
      (.word s.instanceName :: (ts ++ .word s.identifier :: ts')) := by
  have hText : s.instanceName ++ between ++ s.identifier ++ after ≠ "" := fun hNone => by
    simpa [h.key.ne_nil] using congrArg String.toList hNone
  have hLine : charsOf [(1, s.instanceName ++ between ++ s.identifier ++ after)] =
      "  ".toList ++ (s.instanceName.toList ++ (between.toList ++ (s.identifier.toList ++
        (after.toList ++ ['\n'])))) := by
    rw [charsOf_cons hText]
    simp only [String.toList_append, List.append_assoc]
    rfl
  have hStart : Spells "  ".toList [] := by decide
  have hRest := hBetween.append (spells_word h.constant.isWord hStop hAfter)
  rw [SpellLines, hLine]
  exact hStart.append (spells_word h.key (by simp [hCons, hChar]) hRest)

theorem spellLines_field (h : Named s) : SpellLines [(1, fieldLine s)] (fieldTokens s) := by
  have hBetween : Spells ": Client<typeof ".toList [.mark ':', .word "Client", .mark '<', .word "typeof"] := by decide
  have hAfter : Spells (">;".toList ++ ['\n']) [.mark '>', .mark ';'] := by decide
  exact spellLines_pair h rfl (by decide) hBetween rfl hAfter

theorem spellLines_entry (h : Named s) : SpellLines [(1, entryLine s)] (entryTokens s) := by
  have hBetween : Spells ": ".toList [.mark ':'] := by decide
  have hAfter : Spells (",".toList ++ ['\n']) [.mark ','] := by decide
  exact spellLines_pair h rfl (by decide) hBetween rfl hAfter

theorem spellLines_getter (h : Named s) : SpellLines (getterLines s) (getterTokens s) := by
  have hLines : charsOf (getterLines s) =
      "\n  get ".toList ++ (s.instanceName.toList ++ ("(): GrpcClients[".toList ++
        '"' :: (s.instanceName.toList ++ '"' :: ("] \x7b\n    return this.getOrCreate(".toList ++
          '"' :: (s.instanceName.toList ++ '"' :: ");\n  \x7d\n".toList))))) := by
    have hGet : "get " ++ s.instanceName ++ "(): GrpcClients[\"" ++ s.instanceName ++ "\"] \x7b" ≠ "" :=
      fun hNone => by simpa using congrArg String.toList hNone
    have hReturn : "return this.getOrCreate(\"" ++ s.instanceName ++ "\");" ≠ "" :=
      fun hNone => by simpa using congrArg String.toList hNone
    rw [getterLines, charsOf_blank, charsOf_cons hGet, charsOf_cons hReturn, charsOf_cons (by decide)]
    simp only [String.toList_append, List.append_assoc]
    rfl
  have hEnd : Spells ");\n  \x7d\n".toList [.mark ')', .mark ';', .mark '\x7d'] := by decide
  have hBody : Spells "] \x7b\n    return this.getOrCreate(".toList
      [.mark ']', .mark '\x7b', .word "return", .word "this", .mark '.', .word "getOrCreate", .mark '('] := by decide
  have hResult : Spells "(): GrpcClients[".toList
      [.mark '(', .mark ')', .mark ':', .word "GrpcClients", .mark '['] := by decide
  have hStart : Spells "\n  get ".toList [.word "get"] := by decide
  rw [SpellLines, hLines]
  exact hStart.append (spells_word h.key rfl (hResult.append (spells_quoted h.key
    (hBody.append (spells_quoted h.key hEnd)))))

/-! ### The text around the imports -/

def interfaceTokens : List Token := [.word "export", .word "interface", .word "GrpcClients", .mark '\x7b']

def tableTokens : List Token := [.word "const", .word "services", .mark '=', .mark '\x7b']

def factoryTokens : List Token := (Place.code []).tokens (charsOf factoryLines)

def functionTokens : List Token := (Place.code []).tokens (charsOf functionLines)

def frozenTokens : List Token := [.mark '\x7d', .word "as", .word "const", .mark ';']

def belowTokens (services : List Service) : List Token :=
  interfaceTokens ++ services.flatMap fieldTokens ++ [.mark '\x7d'] ++
    (tableTokens ++ services.flatMap entryTokens ++ frozenTokens) ++ factoryTokens ++
    services.flatMap getterTokens ++ [.mark '\x7d'] ++ functionTokens

/-- The class of the factory, as far as it is the same for all services, with its brackets counted. -/
theorem factoryLines_read : SpellLines factoryLines factoryTokens ∧
    Expected.statement.Reads factoryTokens ["ClientFactory"] (.within .statement '\x7d' []) ∧
      nestAll [] factoryTokens = some ['\x7d'] := by
  decide +kernel

theorem functionLines_read : SpellLines functionLines functionTokens ∧
    Expected.statement.Reads functionTokens ["registerGrpcClients", "grpc"] .statement ∧
      nestAll [] functionTokens = some [] := by
  decide +kernel

theorem spellLines_below (h : ∀ s ∈ services, Named s) : SpellLines (belowLines services) (belowTokens services) := by
  have hInterface : SpellLines (blockLines "export interface GrpcClients \x7b" "\x7d" fieldLine services)
      (interfaceTokens ++ services.flatMap fieldTokens ++ [.mark '\x7d']) :=
    spellLines_block (by decide) (by decide) (by decide) fun s hs => spellLines_field (h s hs)
  have hTable : SpellLines (blockLines "const services = \x7b" "\x7d as const;" entryLine services)
      (tableTokens ++ services.flatMap entryTokens ++ frozenTokens) :=
    spellLines_block (by decide) (by decide) (by decide) fun s hs => spellLines_entry (h s hs)
  have hGetters : SpellLines (services.flatMap getterLines) (services.flatMap getterTokens) :=
    spellLines_flatMap fun s hs => spellLines_getter (h s hs)
  have hClose : SpellLines [(0, "\x7d"), (0, "")] [.mark '\x7d'] := by decide
  exact ((((hInterface.blank_cons.append hTable.blank_cons).append factoryLines_read.1.blank_cons).append
    hGetters).append hClose).append functionLines_read.1

theorem nestAll_flatMap {tokensOf : Service → List Token} (h : ∀ s, nestAll [] (tokensOf s) = some [])
    (services : List Service) : nestAll [] (services.flatMap tokensOf) = some [] := by
  induction services with
  | nil => rfl
  | cons s rest ih => rw [List.flatMap_cons, nestAll_append (h s), ih]

theorem nestAll_fields (services : List Service) : nestAll [] (services.flatMap fieldTokens) = some [] :=
  nestAll_flatMap (fun _ => rfl) services

theorem nestAll_entries (services : List Service) : nestAll [] (services.flatMap entryTokens) = some [] :=
  nestAll_flatMap (fun _ => rfl) services

theorem nestAll_getters (services : List Service) : nestAll [] (services.flatMap getterTokens) = some [] :=
  nestAll_flatMap (fun _ => rfl) services

theorem reads_below (services : List Service) :
    Expected.statement.Reads (belowTokens services) ownDeclarations .statement := by
  have hInside : ∀ {next : Expected} {ts : List Token}, nestAll [] ts = some [] →
      (Expected.within next '\x7d' []).Reads ts [] (.within next '\x7d' []) :=
    fun hNested => Expected.reads_inside hNested _ '\x7d' []
  have hInterface : Expected.statement.Reads interfaceTokens ["GrpcClients"] (.within .statement '\x7d' []) := by decide
  have hTable : Expected.statement.Reads tableTokens ["services"] (.within .assertion '\x7d' []) := by decide
  have hFrozen : (Expected.within .assertion '\x7d' []).Reads frozenTokens [] .statement := by decide
  have hClose : (Expected.within .statement '\x7d' []).Reads [.mark '\x7d'] [] .statement := by decide
  exact ((((((hInterface.append (hInside (nestAll_fields services))).append hClose).append
    ((hTable.append (hInside (nestAll_entries services))).append hFrozen)).append factoryLines_read.2.1).append
    (hInside (nestAll_getters services))).append hClose).append functionLines_read.2.1

/-- The text below the imports leaves the brackets around it as they are. -/
theorem reads_below_within (services : List Service) (next : Expected) (closer : Char) (outer : List Char) :
    (Expected.within next closer outer).Reads (belowTokens services) [] (.within next closer outer) := by
  have hOpens : ∀ {ts : List Token}, nestAll [] ts = some ['\x7d'] →
      (Expected.within next closer outer).Reads ts [] (.within next '\x7d' (closer :: outer)) :=
    fun hNested => Expected.reads_inside hNested next closer outer
  have hInside : ∀ {ts : List Token}, nestAll [] ts = some [] →
      (Expected.within next '\x7d' (closer :: outer)).Reads ts [] (.within next '\x7d' (closer :: outer)) :=
    fun hNested => Expected.reads_inside hNested next '\x7d' (closer :: outer)
  have hCloses : ∀ {ts : List Token}, nestAll ['\x7d'] ts = some [] →
      (Expected.within next '\x7d' (closer :: outer)).Reads ts [] (.within next closer outer) :=
    fun hNested => Expected.reads_inside hNested next closer outer
  have hFunctions : (Expected.within next closer outer).Reads functionTokens [] (.within next closer outer) :=
    Expected.reads_inside functionLines_read.2.2 next closer outer
  exact (((((((hOpens (by decide)).append (hInside (nestAll_fields services))).append (hCloses (by decide))).append
    (((hOpens (by decide)).append (hInside (nestAll_entries services))).append (hCloses (by decide)))).append
    (hOpens factoryLines_read.2.2)).append (hInside (nestAll_getters services))).append (hCloses (by decide))).append
    hFunctions

def headTokens : List Token := (Place.code []).tokens (charsOf headLines)

theorem declares_head : Declares (charsOf headLines) headTokens ownImports := by decide +kernel

/-! ### Imports -/

theorem toList_importText (s : Service) :
    (importText s).toList = "import \x7b ".toList ++ (s.identifier.toList ++ (" \x7d from ".toList ++
      '"' :: (s.importPath.toList ++ '"' :: [';', '\n']))) := by
  simp only [importText_eq, importLine, String.toList_append, List.append_assoc]
  rfl

/-- Imports leave no literal open, whatever their paths are. -/
theorem after_imports (services : List Service) :
    (Place.code []).after (String.join (services.map importText)).toList = .code [] ∨
      (Place.code []).after (String.join (services.map importText)).toList = .comment ∨
      (Place.code []).after (String.join (services.map importText)).toList = .refused := by
  rcases List.eq_nil_or_concat' services with rfl | ⟨init, s, rfl⟩
  · exact .inl rfl
  · rw [List.map_append, String.join_append, String.toList_append, List.map_singleton, String.join_cons,
      String.join_nil, String.append_empty, toList_importText]
    simp only [Place.after_append, Place.after_cons, Place.after_nil]
    exact Place.step_semicolon_lineFeed _

theorem not_suffix_keyword : ∀ word ∈ keywords, ¬ suffix <:+ word.toList := by
  decide +kernel

def importTokens (s : Service) : List Token :=
  [.word "import", .mark '\x7b', .word s.identifier, .mark '\x7d', .word "from", .literal, .mark ';']

theorem declares_importText (h : IsConstant s.identifier) (hRaw : ∀ c ∈ s.importPath.toList, isRaw c = true) :
    Declares (importText s).toList (importTokens s) [s.identifier] := by
  have hOpen : Place.Lexes (.code []) " \x7d from ".toList [.mark '\x7d', .word "from"] (.code []) := by decide
  have hStart : Place.Lexes (.code []) "import \x7b ".toList [.word "import", .mark '\x7b'] (.code []) := by decide
  have hQuote : Place.Lexes (.code []) ['"'] [.literal] (.quoted '"') := ⟨rfl, rfl⟩
  have hEnd : Place.Lexes (.quoted '"') ['"', ';', '\n'] [.mark ';'] (.code []) := ⟨rfl, rfl⟩
  have hPath : Place.Lexes (.quoted '"') s.importPath.toList [] (.quoted '"') :=
    Place.lexes_quoted fun c hc => by simpa only [isRaw, decide_eq_true_eq] using hRaw c hc
  have hName : s.identifier ∉ keywords := by
    intro hKeyword
    obtain ⟨name, -, hName⟩ := h.base
    exact not_suffix_keyword s.identifier hKeyword (hName ▸ List.suffix_append name suffix)
  constructor
  · rw [toList_importText]
    exact hStart.append (lexes_name h.isWord rfl (hOpen.append (hQuote.append (hPath.append hEnd))))
  · have hBraces : Expected.statement.Reads [.word "import", .mark '\x7b'] [] .imported := by decide
    have hImported : Expected.imported.Reads [.word s.identifier] [s.identifier] .separator :=
      ⟨Expected.step_imported hName, rfl⟩
    have hRest : Expected.separator.Reads [.mark '\x7d', .word "from", .literal, .mark ';'] [] .statement := by
      decide
    exact (hBraces.append hImported).append hRest

theorem declares_imports (h : ∀ s ∈ services, Named s)
    (hRaw : ∀ s ∈ services, ∀ c ∈ s.importPath.toList, isRaw c = true) :
    Declares (String.join (services.map importText)).toList (services.flatMap importTokens)
      (services.map Service.identifier) := by
  induction services with
  | nil => exact ⟨⟨rfl, rfl⟩, ⟨rfl, rfl⟩⟩
  | cons s rest ih =>
    rw [List.map_cons, String.join_cons, String.toList_append]
    exact (declares_importText (h s List.mem_cons_self).constant (hRaw s List.mem_cons_self)).append
      (ih (fun other hOther => h other (List.mem_cons_of_mem s hOther))
        fun other hOther => hRaw other (List.mem_cons_of_mem s hOther))

/-! ### Extracted services -/

theorem not_suffix_own : ∀ name ∈ ownImports ++ ownDeclarations, ¬ suffix <:+ name.toList := by
  decide +kernel

/-- The module binds its own names, and between them those that its imports bind by themselves. -/
theorem boundNames?_extract (t : FileTree) (dir : Location) (outDir : Path) (files : List Path) :
    boundNames? (ofServices (extract t dir outDir files).services).text =
      (boundNames? (String.join ((extract t dir outDir files).services.map importText))).map fun imported =>
        ownImports ++ imported ++ ownDeclarations := by
  have hSpells := spellLines_below fun s (hs : s ∈ (extract t dir outDir files).services) => named_of_mem_extract hs
  have hHead : Declares (Indent.two.layout headLines).toList headTokens ownImports := by
    rw [toList_layout]
    exact declares_head
  have hBelow : Declares (Indent.two.layout (belowLines (extract t dir outDir files).services)).toList
      (belowTokens (extract t dir outDir files).services) ownDeclarations := by
    rw [toList_layout]
    exact ⟨hSpells.lexes, reads_below _⟩
  have hStar : '*' ∉ (Indent.two.layout (belowLines (extract t dir outDir files).services)).toList := by
    rw [toList_layout]
    exact hSpells.noStar
  rw [text_extract]
  exact boundNames?_between hHead hBelow hStar (reads_below_within _) (after_imports _)

theorem nodup_names_extract (t : FileTree) (dir : Location) (outDir : Path) (files : List Path) :
    (ownImports ++ (extract t dir outDir files).services.map Service.identifier ++ ownDeclarations).Nodup := by
  have hOwn : ∀ name ∈ (extract t dir outDir files).services.map Service.identifier,
      name ∉ ownImports ++ ownDeclarations := by
    intro identifier hIdentifier hMem
    obtain ⟨s, hs, rfl⟩ := List.mem_map.mp hIdentifier
    obtain ⟨name, -, hName⟩ := (named_of_mem_extract hs).constant.base
    exact not_suffix_own s.identifier hMem (hName ▸ List.suffix_append name suffix)
  have hApart : ∀ name ∈ ownImports, name ∉ ownDeclarations := by decide
  rw [List.nodup_append, List.nodup_append]
  refine ⟨⟨by decide, nodup_identifiers t dir outDir files, ?_⟩, by decide, ?_⟩
  · rintro name hImport _ hName rfl
    exact hOwn name hName (List.mem_append_left _ hImport)
  · rintro name hBefore _ hDeclared rfl
    rcases List.mem_append.mp hBefore with hImport | hName
    · exact hApart name hImport hDeclared
    · exact hOwn name hName (List.mem_append_right _ hDeclared)

def reboundFile : Path := ⟨"/a\"; import \x7b grpc \x7d from \"b_pb.ts"⟩

def reboundTree : FileTree :=
  FileTree.empty.put ["a\"; import \x7b grpc \x7d from \"b_pb.ts"]
    (.file "export const FooService: GenService<".toUTF8)

end ClientRegistry.Registry
