import ClientRegistry.Proofs.Generation.Imports
import ClientRegistry.Proofs.Text.ByteOrder

/-!
# What is collected of a directory

All generated modules in a directory and in the directories below it are collected, each of them once and nothing
else, in the order of their paths' components by bytes. In which order the directories hand out their entries does
not show.
-/

set_option autoImplicit false

namespace ClientRegistry

variable {t : FileTree} {dir loc : Location} {p : Path} {names names' : List String} {files : List Path}

/-! ### The order of paths -/

def Path.byteComponents (p : Path) : List (List UInt8) := p.components.map fun c => Text.bytes c.spelling

theorem Path.byteComponents_joinNames (p : Path) (h : ∀ name ∈ names, IsName name) :
    (p.joinNames names).byteComponents = p.byteComponents ++ names.map Text.bytes := by
  rw [byteComponents, components_joinNames p h, List.map_append, List.map_map]
  rfl

theorem Path.byteComponents_lt (p : Path) (h : ∀ name ∈ names, IsName name) (h' : ∀ name ∈ names', IsName name)
    (hLess : names < names') : (p.joinNames names).byteComponents < (p.joinNames names').byteComponents := by
  rw [byteComponents_joinNames p h, byteComponents_joinNames p h']
  exact List.append_left_lt (List.map_lt (fun _ _ => Text.bytes_lt_bytes_iff.mpr) hLess)

namespace Compiler

/-! ### Collecting from entries in any order -/

/-- The generated modules at or below a path, where directories hand out their entries in a given order. -/
def collectInOrder (order : Location → List String) (t : FileTree) (dir : Location) (p : Path) :
    Except FileFailure (List Path) := do
  match ← t.listingRoot dir p with
  | some loc => .ok (((t.filesWithin order (t.height + 1) loc).filter isGenerated).map (FileTree.pathBelow p loc))
  | none => .ok []

theorem collect_eq_collectInOrder (t : FileTree) (dir : Location) (p : Path) :
    collect t dir p = collectInOrder t.names t dir p := rfl

theorem collectInOrder_eq {order : Location → List String} (h : ∀ loc, (order loc).Perm (t.names loc)) :
    collectInOrder order t dir p = collect t dir p := by
  have hFiles (loc : Location) : t.filesWithin order (t.height + 1) loc = t.filesWithin t.names (t.height + 1) loc :=
    FileTree.filesWithin_eq_of_perm h (t.height + 1) loc
  rw [collect_eq_collectInOrder]
  unfold collectInOrder
  simp only [hFiles]

/-! ### What is collected -/

/-- The names lead from the directory through directories, and not through links, to a generated module. -/
structure IsOutput (t : FileTree) (loc : Location) (names : List String) : Prop where
  file : ∃ content, t.node? (loc ++ names) = some (.file content)
  directories : ∀ above, above <+: names → above ≠ names → t.isDirectory (loc ++ above) = true
  suffix : ∃ up stem, names = up ++ [stem ++ "_pb.ts"]

theorem isGenerated_append_concat (loc : Location) (up : List String) (name : String) :
    isGenerated (loc ++ (up ++ [name])) = true ↔ ∃ stem, name = stem ++ "_pb.ts" := by
  rw [isGenerated, ← List.append_assoc, List.getLast?_concat, Option.any_some, List.isSuffixOf_iff_suffix]
  constructor
  · rintro ⟨before, hBefore⟩
    refine ⟨String.ofList before, ?_⟩
    rw [← String.toList_inj, String.toList_append, String.toList_ofList]
    exact hBefore.symm
  · rintro ⟨stem, rfl⟩
    rw [String.toList_append]
    exact List.suffix_append _ _

theorem isOutput_iff (hDir : t.isDirectory loc = true) :
    IsOutput t loc names ↔ loc ++ names ∈ (t.files loc).filter isGenerated := by
  rw [List.mem_filter, FileTree.mem_files_iff]
  constructor
  · rintro ⟨⟨content, hFile⟩, hAbove, up, stem, rfl⟩
    exact ⟨⟨_, content, rfl, hFile, hAbove⟩, (isGenerated_append_concat loc up _).mpr ⟨stem, rfl⟩⟩
  · rintro ⟨⟨names', content, hSame, hFile, hAbove⟩, hGenerated⟩
    obtain rfl := List.append_cancel_left hSame
    rcases List.eq_nil_or_concat names with rfl | ⟨up, name, rfl⟩
    · rw [List.append_nil] at hFile
      simp [FileTree.isDirectory, hFile, Node.isDirectory] at hDir
    · rw [List.concat_eq_append] at hFile hAbove hGenerated ⊢
      obtain ⟨stem, rfl⟩ := (isGenerated_append_concat loc up name).mp hGenerated
      exact ⟨⟨content, hFile⟩, hAbove, up, stem, rfl⟩

/-- The files are the generated modules in a directory, each of them once, and strictly increase by the bytes of
their paths' components. -/
structure ListsOutputs (t : FileTree) (loc : Location) (p : Path) (files : List Path) : Prop where
  once : ∀ names, IsOutput t loc names → files.count (p.joinNames names) = 1
  only : ∀ file ∈ files, ∃ names, IsOutput t loc names ∧ file = p.joinNames names
  ordered : files.Pairwise fun a b => a.byteComponents < b.byteComponents

theorem collect_of_directory (hLoc : t.resolve dir p = .ok loc) (hDir : t.isDirectory loc = true) :
    collect t dir p = .ok (((t.files loc).filter isGenerated).map (FileTree.pathBelow p loc)) :=
  bind_eq_ok_iff.mpr ⟨_, FileTree.listingRoot_of_resolve hLoc hDir, rfl⟩

theorem listsOutputs (hNames : t.WellNamed) (hLoc : t.resolve dir p = .ok loc) (hDir : t.isDirectory loc = true) :
    ListsOutputs t loc p (((t.files loc).filter isGenerated).map (FileTree.pathBelow p loc)) := by
  constructor
  · intro names hOutput
    have hNodup := nodup_of_collect hNames (collect_of_directory hLoc hDir)
    refine List.count_eq_one_of_mem hNodup (List.mem_map.mpr ⟨loc ++ names, ?_⟩)
    exact ⟨(isOutput_iff hDir).mp hOutput, FileTree.pathBelow_append p loc names⟩
  · intro file hFile
    obtain ⟨place, hPlace, rfl⟩ := List.mem_map.mp hFile
    obtain ⟨names, content, rfl, -⟩ := FileTree.mem_files (List.mem_filter.mp hPlace).1
    exact ⟨names, (isOutput_iff hDir).mpr hPlace, FileTree.pathBelow_append p loc names⟩
  · rw [List.pairwise_map]
    refine ((t.pairwise_lt_files loc).filter _).imp_of_mem ?_
    intro a b ha hb hLess
    have ha := (List.mem_filter.mp ha).1
    have hb := (List.mem_filter.mp hb).1
    obtain ⟨names, -, rfl, -⟩ := FileTree.mem_files ha
    obtain ⟨names', -, rfl, -⟩ := FileTree.mem_files hb
    rw [FileTree.pathBelow_append, FileTree.pathBelow_append]
    exact p.byteComponents_lt (isName_of_mem_files hNames ha) (isName_of_mem_files hNames hb)
      (FileTree.lt_of_append_left hLess)

/-- A path by names is collected exactly if the names lead to a generated module. -/
theorem ListsOutputs.mem_iff (h : ListsOutputs t loc p files) (hTree : t.WellNamed)
    (hNames : ∀ name ∈ names, IsName name) : p.joinNames names ∈ files ↔ IsOutput t loc names := by
  constructor
  · intro hMem
    obtain ⟨names', hOutput, hSame⟩ := h.only _ hMem
    obtain ⟨content, hFile⟩ := hOutput.file
    have hNames' : ∀ name ∈ names', IsName name :=
      fun name hName => hTree _ _ hFile name (List.mem_append_right loc hName)
    rwa [Path.joinNames_inj hNames hNames' hSame]
  · intro hOutput
    exact List.count_pos_iff.mp (h.once names hOutput ▸ Nat.one_pos)

/-- Collecting a directory gives exactly the generated modules in it, whatever the order in which its entries and
those of the directories below it are handed out. -/
theorem collect_exact (hNames : t.WellNamed) (hLoc : t.resolve dir p = .ok loc) (hDir : t.isDirectory loc = true) :
    ∃ files, collect t dir p = .ok files ∧ ListsOutputs t loc p files ∧
      ∀ order : Location → List String, (∀ loc, (order loc).Perm (t.names loc)) →
        collectInOrder order t dir p = .ok files := by
  have hCollect := collect_of_directory hLoc hDir
  exact ⟨_, hCollect, listsOutputs hNames hLoc hDir, fun order hOrder => (collectInOrder_eq hOrder).trans hCollect⟩

def nestedTree : FileTree :=
  ((((((FileTree.empty.put ["out"] .directory).put ["out", "a"] .directory).put ["out", "a", "x_pb.ts"]
    (.file .empty)).put ["out", "odd_pb.ts"] .directory).put ["out", "a_pb.ts"] (.file .empty)).put
      ["out", "link_pb.ts"] (.link "a_pb.ts")).put ["out", "sub"] (.link "a")

theorem wellNamed_nestedTree : nestedTree.WellNamed :=
  ((((((FileTree.wellNamed_empty.put (by decide) _).put (by decide) _).put (by decide) _).put (by decide) _).put
    (by decide) _).put (by decide) _).put (by decide) _

theorem collect_exact_nested : nestedTree.WellNamed ∧ nestedTree.resolve [] ⟨"/out"⟩ = .ok ["out"] ∧
    nestedTree.isDirectory ["out"] = true ∧ ∃ files, collect nestedTree [] ⟨"/out"⟩ = .ok files ∧
      files.count ⟨"/out/a_pb.ts"⟩ = 1 ∧ ⟨"/out/odd_pb.ts"⟩ ∉ files ∧ ⟨"/out/link_pb.ts"⟩ ∉ files ∧
      ⟨"/out/sub/x_pb.ts"⟩ ∉ files := by
  have hLoc : nestedTree.resolve [] ⟨"/out"⟩ = .ok ["out"] := by decide +kernel
  have hDir : nestedTree.isDirectory ["out"] = true := by decide +kernel
  obtain ⟨files, hFiles, hLists, -⟩ := collect_exact wellNamed_nestedTree hLoc hDir
  have hNot (names : List String) (node : Option Node) (hNames : ∀ name ∈ names, IsName name)
      (hNode : nestedTree.node? (["out"] ++ names) = node) (hOther : ∀ content, node ≠ some (.file content)) :
      (Path.mk "/out").joinNames names ∉ files := by
    rw [hLists.mem_iff wellNamed_nestedTree hNames]
    rintro ⟨⟨content, hFile⟩, -⟩
    exact hOther content (hNode.symm.trans hFile)
  have hModule : IsOutput nestedTree ["out"] ["a_pb.ts"] := by
    refine ⟨⟨.empty, by decide +kernel⟩, ?_, [], "a", rfl⟩
    intro above hPrefix hOther
    cases above with
    | nil => exact hDir
    | cons first rest =>
      obtain ⟨rfl, hRest⟩ := List.cons_prefix_cons.mp hPrefix
      exact absurd (by rw [List.prefix_nil.mp hRest]) hOther
  exact ⟨wellNamed_nestedTree, hLoc, hDir, files, hFiles, hLists.once ["a_pb.ts"] hModule,
    hNot ["odd_pb.ts"] (some .directory) (by decide) (by decide +kernel) (by simp),
    hNot ["link_pb.ts"] (some (.link "a_pb.ts")) (by decide) (by decide +kernel) (by simp),
    hNot ["sub", "x_pb.ts"] none (by decide) (by decide +kernel) (by simp)⟩

end Compiler

end ClientRegistry
