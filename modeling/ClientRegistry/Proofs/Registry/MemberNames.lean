import ClientRegistry.Proofs.Registry.FirstServices
import ClientRegistry.Proofs.Service.Partition
import ClientRegistry.Registry.Module

/-!
# The member names of the factory

The factory has four members of its own and a getter for each key. Keys never repeat, but nothing
keeps them from the names of the four. So the member names are distinct unless a file declares a
service whose instance name is one of the four.
-/

set_option autoImplicit false

namespace ClientRegistry.Registry

def ownMemberNames : List String := ["clients", "transport", "constructor", getOrCreateName]

theorem memberNames_factory (r : Registry) : r.factory.memberNames = ownMemberNames ++ r.keys := by
  simp [factory, Code.ClassDeclaration.memberNames, ownMemberNames, keys, Code.Method.name, getOrCreate,
    Member.getter, Code.MethodRole.name, Function.comp_def]

theorem nodup_memberNames_factory_iff {r : Registry} (h : r.keys.Nodup) :
    r.factory.memberNames.Nodup ↔ ∀ key ∈ r.keys, key ∉ ownMemberNames := by
  have hOwn : ownMemberNames.Nodup := by decide
  rw [memberNames_factory, List.nodup_append', and_iff_right hOwn, and_iff_right h]
  exact List.disjoint_comm

/-- The member names of the factory for the services of some files are distinct exactly when no file
gives a service with an instance name of the factory's own. -/
theorem nodup_memberNames_extract_iff (t : FileTree) (dir : Location) (outDir : Path) (files : List Path) :
    (ofServices (Service.extract t dir outDir files).services).factory.memberNames.Nodup ↔
      ∀ file ∈ files, ∀ name importPath, Service.Usable t dir outDir file name importPath →
        Text.lowerFirst name ∉ ownMemberNames := by
  obtain ⟨entries, rfl, hLedger⟩ := Service.exists_ledger t dir outDir files
  rw [nodup_memberNames_factory_iff (nodup_keys_ofServices _), keys_ofServices, firsts_eq_self hLedger.nodup]
  simp only [hLedger.mem_instanceNames_iff]
  constructor
  · intro h file hFile name importPath hUsable
    exact h _ ⟨file, hFile, name, importPath, hUsable, rfl⟩
  · rintro h _ ⟨file, hFile, name, importPath, hUsable, rfl⟩
    exact h file hFile name importPath hUsable

def clientsTree : FileTree :=
  FileTree.empty.put ["clients_pb.ts"] (.file "export const ClientsService: GenService<".toUTF8)

/-- A service whose getter is named as the table of the clients made. -/
theorem not_nodup_memberNames_extract :
    (Service.extract clientsTree [] ⟨"/"⟩ [⟨"/clients_pb.ts"⟩]).services =
        [Service.ofBaseName "Clients" "./clients_pb"] ∧
      ¬ (ofServices (Service.extract clientsTree [] ⟨"/"⟩ [⟨"/clients_pb.ts"⟩]).services).factory.memberNames.Nodup := by
  decide +kernel

end ClientRegistry.Registry
