import ClientRegistry.Proofs.Code.Layout
import ClientRegistry.Proofs.Registry.FirstServices
import ClientRegistry.Proofs.Text.Lines
import ClientRegistry.Registry.Module

/-!
# Registry modules are coherent

The module of a list of services is written out for its first services: an import, a field, an entry of
the table and a getter for each, in the same order, and all four name the same key and constant. The
other services have no part in it.
-/

set_option autoImplicit false

namespace ClientRegistry.Registry

open Code

/-! ### The module written out -/

def importLine (s : Service) : String :=
  "import \x7b " ++ s.identifier ++ " \x7d from \"" ++ s.importPath ++ "\";"

def fieldLine (s : Service) : String := s.instanceName ++ ": Client<typeof " ++ s.identifier ++ ">;"

def entryLine (s : Service) : String := s.instanceName ++ ": " ++ s.identifier ++ ","

def getterOf (s : Service) : Method where
  role := .getter s.instanceName
  generics := none
  parameters := []
  result := some ("GrpcClients[\"" ++ s.instanceName ++ "\"]")
  body := [.line ("return this.getOrCreate(\"" ++ s.instanceName ++ "\");")]

def getterLines (s : Service) : List (Nat × String) :=
  [(1, ""), (1, "get " ++ s.instanceName ++ "(): GrpcClients[\"" ++ s.instanceName ++ "\"] \x7b"),
    (2, "return this.getOrCreate(\"" ++ s.instanceName ++ "\");"), (1, "\x7d")]

def blockLines (opening closing : String) (lineOf : Service → String) : List Service → List (Nat × String)
  | [] => [(0, opening ++ closing)]
  | s :: rest => (0, opening) :: (s :: rest).map (fun s => (1, lineOf s)) ++ [(0, closing)]

def headLines : List (Nat × String) :=
  [(0, "// Code generated by connectgen. DO NOT EDIT."), (0, ""),
    (0, "import \x7b RequestEventBase \x7d from \"@builder.io/qwik-city\";"),
    (0, "import \x7b createClient, Transport, Client \x7d from \"@connectrpc/connect\";")]

def factoryLines : List (Nat × String) :=
  [(0, "class ClientFactory \x7b"), (1, "private clients: Partial<GrpcClients> = \x7b\x7d;"),
    (1, "private transport: Transport;"), (1, ""),
    (1, "constructor(transport: Transport) \x7b"), (2, "this.transport = transport;"), (1, "\x7d"), (1, ""),
    (1, "getOrCreate<K extends keyof GrpcClients>(key: K): GrpcClients[K] \x7b"),
    (2, "const cached = this.clients[key];"), (2, "if (cached) \x7b"),
    (3, "return cached as GrpcClients[K];"), (2, "\x7d"),
    (2, "const client = createClient(services[key], this.transport) as unknown as GrpcClients[K];"),
    (2, "this.clients[key] = client;"), (2, "return client;"), (1, "\x7d")]

def functionLines : List (Nat × String) :=
  [(0, "export function registerGrpcClients(transport: Transport, ev: RequestEventBase) \x7b"),
    (1, "ev.sharedMap.set(\"grpc-clients\", new ClientFactory(transport));"), (0, "\x7d"), (0, ""),
    (0, "export function grpc(ev: RequestEventBase): GrpcClients \x7b"),
    (1, "return ev.sharedMap.get(\"grpc-clients\");"), (0, "\x7d")]

def moduleLines (services : List Service) : List (Nat × String) :=
  headLines ++ services.map (fun s => (0, importLine s)) ++
    (0, "") :: blockLines "export interface GrpcClients \x7b" "\x7d" fieldLine services ++
    (0, "") :: blockLines "const services = \x7b" "\x7d as const;" entryLine services ++
    (0, "") :: factoryLines ++ services.flatMap getterLines ++ [(0, "\x7d"), (0, "")] ++ functionLines

/-! ### The parts of the module -/

variable {r : Registry} {services : List Service}

theorem importStatement_ofService (s : Service) :
    (Member.ofService s).importStatement.statement = importLine s := by
  rw [Import.statement, importLine]
  rfl

theorem interfaceField_ofService (s : Service) : (Member.ofService s).interfaceField.text ++ ";" = fieldLine s := by
  have hOpening : ": Client<typeof " = ": " ++ "Client<typeof " := rfl
  have hClosing : ">;" = ">" ++ ";" := rfl
  have hText : (Member.ofService s).interfaceField.text =
      s.instanceName ++ ": " ++ ("Client<typeof " ++ s.identifier ++ ">") := rfl
  rw [hText, fieldLine, hOpening, hClosing]
  simp only [String.append_assoc, -String.reduceAppend]

theorem lines_imports (h : r.members = services.map Member.ofService) :
    Fragment.linesOfAll 0 (r.imports.flatMap Import.fragments) =
      headLines.drop 2 ++ services.map fun s => (0, importLine s) := by
  have hFixed : Fragment.linesOfAll 0 (fixedImports.flatMap Import.fragments) = headLines.drop 2 := by
    decide +kernel
  have hServices : ((services.map Member.ofService).map Member.importStatement).flatMap Import.fragments =
      (services.map importLine).map .line := by
    simp [List.flatMap_map, Import.fragments, importStatement_ofService, ← List.map_eq_flatMap]
  rw [imports, h, List.flatMap_append, Fragment.linesOfAll_append, hFixed, hServices,
    Fragment.linesOfAll_map_line, List.map_map]
  rfl

theorem lines_block (opening closing : String) (lineOf : Service → String) (services : List Service) :
    Fragment.linesOfAll 0 [.block opening (services.map fun s => .line (lineOf s)) (some closing)] =
      (0, opening) :: services.map (fun s => (1, lineOf s)) ++ [(0, closing)] := by
  have hBody := Fragment.linesOfAll_map_line 1 (services.map lineOf)
  rw [List.map_map, List.map_map] at hBody
  simp only [Fragment.linesOfAll, Fragment.linesAt, List.append_nil]
  exact congrArg (fun body => (0, opening) :: body ++ [(0, closing)]) hBody

theorem lines_interface (h : r.members = services.map Member.ofService) :
    Fragment.linesOfAll 0 r.clientsInterface.fragments =
      blockLines "export interface GrpcClients \x7b" "\x7d" fieldLine services := by
  cases services with
  | nil =>
    rw [Interface.fragments, clientsInterface, h]
    decide
  | cons s rest =>
    have hFragments : r.clientsInterface.fragments =
        [.block "export interface GrpcClients \x7b" ((s :: rest).map fun s => .line (fieldLine s)) (some "\x7d")] := by
      simp [Interface.fragments, clientsInterface, h, interfaceName, Fragment.braced, interfaceField_ofService]
    rw [hFragments, lines_block, blockLines]

theorem lines_table (h : r.members = services.map Member.ofService) :
    Fragment.linesOfAll 0 r.table.fragments =
      blockLines "const services = \x7b" "\x7d as const;" entryLine services := by
  cases services with
  | nil =>
    rw [ObjectConstant.fragments, table, h]
    decide
  | cons s rest =>
    have hFragments : r.table.fragments =
        [.block "const services = \x7b" ((s :: rest).map fun s => .line (entryLine s)) (some "\x7d as const;")] := by
      simp [ObjectConstant.fragments, table, h, tableName, ObjectConstant.opening, ObjectConstant.closing,
        exportWord, Member.tableEntry, Member.ofService, entryLine]
    rw [hFragments, lines_block, blockLines]

theorem getter_ofService (s : Service) : (Member.ofService s).getter = getterOf s := by
  simp [Member.getter, Member.ofService, getterOf, interfaceName, getOrCreateName]

theorem signature_getterOf (s : Service) :
    (getterOf s).signature =
      "get " ++ s.instanceName ++ "(): GrpcClients[\"" ++ s.instanceName ++ "\"] \x7b" := by
  have hOpening : "(): GrpcClients[\"" = "(" ++ ")" ++ ": " ++ "GrpcClients[\"" := rfl
  have hClosing : "\"] \x7b" = "\"]" ++ " \x7b" := rfl
  have hSignature : (getterOf s).signature = "get " ++ s.instanceName ++ "" ++ "(" ++ "" ++ ")" ++
      (": " ++ ("GrpcClients[\"" ++ s.instanceName ++ "\"]")) ++ " \x7b" := rfl
  rw [hSignature, hOpening, hClosing]
  simp only [String.append_assoc, String.append_empty]

theorem lines_getterOf (s : Service) :
    Fragment.linesOfAll 1 (.blank :: (getterOf s).fragments) = getterLines s := by
  rw [Method.fragments, signature_getterOf]
  simp [getterOf, Fragment.braced, Fragment.linesOfAll, Fragment.linesAt, getterLines]

/-- The groups of members that every factory has come first. -/
theorem groups_factory (h : r.members = services.map Member.ofService) :
    r.factory.groups =
      Registry.empty.factory.groups ++ services.map fun s => (getterOf s).fragments := by
  simp [ClassDeclaration.groups, factory, h, Registry.empty, getter_ofService]

theorem lines_ownGroups :
    Fragment.linesOfAll 1 ([Fragment.blank].intercalate Registry.empty.factory.groups) = factoryLines.tail := by
  decide +kernel

theorem lines_factory (h : r.members = services.map Member.ofService) :
    Fragment.linesOfAll 0 r.factory.fragments =
      factoryLines ++ services.flatMap getterLines ++ [(0, "\x7d")] := by
  have hBody : Fragment.linesOfAll 1 ([Fragment.blank].intercalate r.factory.groups) =
      factoryLines.tail ++ services.flatMap getterLines := by
    rw [groups_factory h, ← lines_ownGroups]
    have hOwn : Registry.empty.factory.groups ≠ [] := List.cons_ne_nil _ _
    rw [Text.intercalate_append hOwn, Fragment.linesOfAll_append, List.flatMap_map, Fragment.linesOfAll_flatMap]
    exact congrArg _ (congrArg (services.flatMap ·) (funext lines_getterOf))
  have hGroups : r.factory.groups.isEmpty = false := by
    rw [groups_factory h]
    rfl
  have hOpening : r.factory.opening = "class ClientFactory \x7b" := by
    change Registry.empty.factory.opening = _
    decide
  rw [ClassDeclaration.fragments, hGroups, hOpening]
  simp [Fragment.braced, Fragment.linesOfAll, Fragment.linesAt, hBody]
  rfl

theorem lines_functions :
    Fragment.linesOfAll 0 registerFunction.fragments = functionLines.take 3 ∧
      Fragment.linesOfAll 0 lookupFunction.fragments = functionLines.drop 4 := by
  decide +kernel

/-! ### The module of a list of services -/

/-- The parts of a registry's module are made of these services, each by itself. -/
structure Coherent (r : Registry) (services : List Service) : Prop where
  imports_eq : r.imports = fixedImports ++ services.map fun s => ⟨s.importPath, [s.identifier]⟩
  fields_eq : r.clientsInterface.fields =
    services.map fun s => ⟨s.instanceName, "Client<typeof " ++ s.identifier ++ ">"⟩
  properties_eq : r.table.properties = services.map fun s => (s.instanceName, s.identifier)
  getters_eq : r.factory.methods.filter (fun m => m.role.isGetter) = services.map getterOf
  text_eq : r.text = Indent.two.layout (moduleLines services)

theorem lines_sourceFile (h : r.members = services.map Member.ofService) :
    Fragment.linesOfAll 0 r.sourceFile.fragments = moduleLines services := by
  have hHeader : Fragment.linesOfAll 0 r.sourceFile.headerFragments = headLines.take 2 := rfl
  have hImports : Fragment.linesOfAll 0 r.sourceFile.importFragments =
      headLines.drop 2 ++ services.map (fun s => (0, importLine s)) ++ [(0, "")] := by
    rw [SourceFile.importFragments, Fragment.linesOfAll_append]
    exact congrArg (· ++ _) (lines_imports h)
  have hBody : Fragment.linesOfAll 0 r.sourceFile.bodyFragments =
      blockLines "export interface GrpcClients \x7b" "\x7d" fieldLine services ++
        (0, "") :: blockLines "const services = \x7b" "\x7d as const;" entryLine services ++
        (0, "") :: (factoryLines ++ services.flatMap getterLines ++ [(0, "\x7d")]) ++
        (0, "") :: functionLines := by
    rw [SourceFile.bodyFragments, sourceFile, Text.intercalate_cons]
    simp [Fragment.linesOfAll, Fragment.linesOfAll_append, Fragment.linesAt, lines_interface h, lines_table h,
      lines_factory h, lines_functions.1, lines_functions.2]
    rfl
  rw [SourceFile.fragments, Fragment.linesOfAll_append, Fragment.linesOfAll_append, hHeader, hImports, hBody]
  simp [moduleLines]
  rfl

theorem coherent_of_members (h : r.members = services.map Member.ofService) : r.Coherent services where
  imports_eq := by
    rw [imports, h, List.map_map]
    rfl
  fields_eq := by
    rw [clientsInterface, h, List.map_map]
    rfl
  properties_eq := by
    rw [table, h, List.map_map]
    rfl
  getters_eq := by
    have hMethods : r.factory.methods = getOrCreate :: services.map getterOf := by
      simp [factory, h, getter_ofService]
    have hGetters : ∀ m ∈ services.map getterOf, m.role.isGetter = true := by
      intro m hm
      obtain ⟨s, -, rfl⟩ := List.mem_map.mp hm
      rfl
    rw [hMethods, List.filter_cons_of_neg (by decide), List.filter_eq_self.mpr hGetters]
  text_eq := by rw [text, SourceFile.text, render_eq, lines_sourceFile h]

/-- The module of a list of services is made of the first service of each instance name, in order. -/
theorem coherent_ofServices (services : List Service) :
    (firsts services).Sublist services ∧ ((firsts services).map Service.instanceName).Nodup ∧
      (∀ s, s ∈ firsts services ↔ ∃ before after, services = before ++ s :: after ∧
        ∀ e ∈ before, e.instanceName ≠ s.instanceName) ∧
      (ofServices services).Coherent (firsts services) :=
  ⟨firsts_sublist services, nodup_firsts services, fun _ => mem_firsts_iff,
    coherent_of_members (members_ofServices services)⟩

end ClientRegistry.Registry
