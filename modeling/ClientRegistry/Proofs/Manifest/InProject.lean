import ClientRegistry.Proofs.Manifest.CleanSafety
import ClientRegistry.Proofs.Path.Spelling

/-!
# Layouts inside a project

Where both paths are relative and their folded forms do not go up, the root has no part in what validation
decides: it accepts a layout just where the output directory lies strictly below the root and the schemas
do not lie in it.
-/

set_option autoImplicit false

namespace ClientRegistry

namespace Path

/-- A path from a directory to a place at or below it, however it is written. -/
structure StaysInside (p : Path) : Prop where
  not_empty : p.text ≠ ""
  relative : p.isAbsolute = false
  not_up : p.folded.head? ≠ some .parent

theorem StaysInside.exists_names {p : Path} (h : p.StaysInside) : ∃ names, p.normalForm = .relative 0 names := by
  obtain ⟨ups, names, hForm⟩ := exists_normalForm_of_relative h.relative
  cases ups with
  | zero => exact ⟨names, hForm⟩
  | succ ups =>
    refine absurd ?_ h.not_up
    rw [folded_eq, hForm]
    rfl

structure StrictlyBelow (p q : Path) : Prop where
  below : q.folded <+: p.folded
  other : p.folded ≠ q.folded

end Path

namespace GenerationConfig

/-- The output directory lies strictly below the root, and is neither that of the schemas nor one above it. -/
structure SafeLayout (root : Path) (c : GenerationConfig) : Prop where
  below_root : (root.join c.outDir).StrictlyBelow root
  not_schemas : (root.join c.outDir).folded ≠ (root.join c.protoPath).folded
  not_above_schemas : ¬ (root.join c.protoPath).StrictlyBelow (root.join c.outDir)

theorem accepted_inside_iff {out proto : Location} :
    Accepted (.relative 0 out) (.relative 0 proto) ↔ out ≠ [] ∧ ¬ out <+: proto := by
  have hPrefix : (NormalForm.relative 0 out).components <+: (NormalForm.relative 0 proto).components ↔
      out <+: proto :=
    List.prefix_map_iff_of_injective @Component.name.inj
  constructor
  · intro h
    refine ⟨?_, mt hPrefix.mpr h.not_prefix⟩
    rintro rfl
    exact h.named 0 rfl
  · rintro ⟨hNamed, hNot⟩
    refine ⟨?_, mt hPrefix.mp hNot⟩
    rintro _ ⟨⟩
    exact hNamed rfl

/-- The parts of a safe layout are said of the names alone. -/
theorem safeLayout_iff {root : Path} {c : GenerationConfig} {out proto : Location}
    (hRoot : root.isAbsolute = true) (hOut : c.outDir.normalForm = .relative 0 out)
    (hProto : c.protoPath.normalForm = .relative 0 proto) :
    c.SafeLayout root ↔ out ≠ [] ∧ ¬ out <+: proto := by
  have hPlace (names : Location) : (NormalForm.relative 0 names).place (root.locate []) = root.locate [] ++ names := by
    simp [NormalForm.place, Location.climb]
  have hRootFolded := Path.folded_of_absolute hRoot []
  have hOutFolded := Path.folded_join hRoot c.outDir
  have hProtoFolded := Path.folded_join hRoot c.protoPath
  rw [hOut, hPlace] at hOutFolded
  rw [hProto, hPlace] at hProtoFolded
  have hBelow : (root.join c.outDir).StrictlyBelow root ↔ out ≠ [] := by
    constructor
    · rintro ⟨-, hOther⟩ rfl
      rw [hOutFolded, hRootFolded, List.append_nil] at hOther
      exact hOther rfl
    · intro hNamed
      refine ⟨?_, fun hSame => hNamed ?_⟩
      · rw [hOutFolded, hRootFolded, root_cons_map_prefix_iff]
        exact List.prefix_append _ _
      · rw [hOutFolded, hRootFolded] at hSame
        simpa using congrArg List.length hSame
  have hSchemas : (root.join c.outDir).folded <+: (root.join c.protoPath).folded ↔ out <+: proto := by
    rw [hOutFolded, hProtoFolded, root_cons_map_prefix_iff, List.prefix_append_right_inj]
  constructor
  · intro h
    refine ⟨hBelow.mp h.below_root, fun hPrefix => ?_⟩
    exact h.not_above_schemas ⟨hSchemas.mpr hPrefix, Ne.symm h.not_schemas⟩
  · rintro ⟨hNamed, hNot⟩
    refine ⟨hBelow.mpr hNamed, fun hSame => ?_, fun hAbove => hNot (hSchemas.mp hAbove.below)⟩
    exact hNot (hSchemas.mp (hSame ▸ List.prefix_rfl))

/-- Validation accepts exactly the safe ones of the layouts inside a project, whatever its root is. -/
theorem validate_eq_ok_iff_safeLayout {root : Path} {c : GenerationConfig} (hRoot : root.isAbsolute = true)
    (hOut : c.outDir.StaysInside) (hProto : c.protoPath.StaysInside) :
    c.validate = .ok () ↔ c.SafeLayout root := by
  obtain ⟨out, hOutForm⟩ := hOut.exists_names
  obtain ⟨proto, hProtoForm⟩ := hProto.exists_names
  rw [validate_eq_ok_iff, safeLayout_iff hRoot hOutForm hProtoForm, hOutForm, hProtoForm, accepted_inside_iff,
    and_iff_right hProto.not_empty, and_iff_right hOut.not_empty]

def layout (protoPath outDir : Path) : GenerationConfig :=
  { GenerationConfig.default with protoPath := protoPath, outDir := outDir }

/-- A sibling of the schemas whose name goes on where theirs ends is safe from a root with `..` in it. -/
theorem safeLayout_sibling :
    (layout "./src//proto/" "src/x/../proto-gen").validate = .ok () ∧
      (layout "./src//proto/" "src/x/../proto-gen").SafeLayout "/home/../project" := by
  have hValid : (layout "./src//proto/" "src/x/../proto-gen").validate = .ok () := rfl
  refine ⟨hValid, (validate_eq_ok_iff_safeLayout rfl ⟨?_, rfl, ?_⟩ ⟨?_, rfl, ?_⟩).mp hValid⟩
  all_goals decide

-- The output directory may lie among the schemas, and not the other way round.
example : (layout "proto" "proto/gen/").validate = .ok () ∧
    (layout "src/proto" "./src").validate = .error .outDirContainsProtoPath := ⟨rfl, rfl⟩

end GenerationConfig

end ClientRegistry
