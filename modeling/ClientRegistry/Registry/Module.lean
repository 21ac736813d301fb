import ClientRegistry.Code.Class
import ClientRegistry.Code.SourceFile
import ClientRegistry.Registry.Basic

/-!
# The registry as a module

The module imports every service's constant, says which client each key stands for, holds the
table of constants and a factory that makes each client once, and ends with the two functions
that put the factory into a request and take it out.
-/

set_option autoImplicit false

namespace ClientRegistry.Registry

open Code

def contextPackage : String := "@builder.io/qwik-city"

def clientPackage : String := "@connectrpc/connect"

def interfaceName : String := "GrpcClients"

def factoryName : String := "ClientFactory"

/-- The key under which a request holds the factory. -/
def sharedMapKey : String := "grpc-clients"

def registerName : String := "registerGrpcClients"

def lookupName : String := "grpc"

def tableName : String := "services"

def getOrCreateName : String := "getOrCreate"

def headerLine : String := "// Code generated by connectgen. DO NOT EDIT."

namespace Member

def clientType (m : Member) : String := "Client<typeof " ++ m.identifier ++ ">"

def importStatement (m : Member) : Import := ⟨m.importPath, [m.identifier]⟩

def interfaceField (m : Member) : Typed := ⟨m.key, m.clientType⟩

def tableEntry (m : Member) : String × String := (m.key, m.identifier)

def getter (m : Member) : Method where
  role := .getter m.key
  generics := none
  parameters := []
  result := some (interfaceName ++ "[\"" ++ m.key ++ "\"]")
  body := [.line ("return this." ++ getOrCreateName ++ "(\"" ++ m.key ++ "\");")]

end Member

def fixedImports : List Import :=
  [⟨contextPackage, ["RequestEventBase"]⟩, ⟨clientPackage, ["createClient", "Transport", "Client"]⟩]

def imports (r : Registry) : List Import := fixedImports ++ r.members.map Member.importStatement

def clientsInterface (r : Registry) : Interface := ⟨interfaceName, r.members.map Member.interfaceField⟩

def table (r : Registry) : ObjectConstant where
  name := tableName
  properties := r.members.map Member.tableEntry
  exported := false
  frozen := true

/-- Looks a client up among those made before, and makes it if it is not there. -/
def getOrCreate : Method where
  role := .method getOrCreateName
  generics := some ("K extends keyof " ++ interfaceName)
  parameters := [⟨"key", "K"⟩]
  result := some (interfaceName ++ "[K]")
  body := [
    .line "const cached = this.clients[key];",
    .braced "if (cached) \x7b" [.line ("return cached as " ++ interfaceName ++ "[K];")],
    .line ("const client = createClient(" ++ tableName ++ "[key], this.transport) as unknown as " ++
      interfaceName ++ "[K];"),
    .line "this.clients[key] = client;",
    .line "return client;"]

def factory (r : Registry) : ClassDeclaration where
  name := factoryName
  exported := false
  fields := [
    ⟨"clients", "Partial<" ++ interfaceName ++ ">", true, some "\x7b\x7d"⟩,
    ⟨"transport", "Transport", true, none⟩]
  creation := some ⟨.constructor, none, [⟨"transport", "Transport"⟩], none,
    [.line "this.transport = transport;"]⟩
  methods := getOrCreate :: r.members.map Member.getter

def registerFunction : Function where
  name := registerName
  parameters := [⟨"transport", "Transport"⟩, ⟨"ev", "RequestEventBase"⟩]
  result := none
  body := ["ev.sharedMap.set(\"" ++ sharedMapKey ++ "\", new " ++ factoryName ++ "(transport));"]

def lookupFunction : Function where
  name := lookupName
  parameters := [⟨"ev", "RequestEventBase"⟩]
  result := some interfaceName
  body := ["return ev.sharedMap.get(\"" ++ sharedMapKey ++ "\");"]

def sourceFile (r : Registry) : SourceFile where
  header := some headerLine
  imports := r.imports
  body := [r.clientsInterface.fragments, r.table.fragments, r.factory.fragments,
    registerFunction.fragments, lookupFunction.fragments]

def text (r : Registry) : String := r.sourceFile.text

def fileName : String := "clients.ts"

def filePath (outDir : Path) : Path := outDir.join ⟨fileName⟩

end ClientRegistry.Registry
