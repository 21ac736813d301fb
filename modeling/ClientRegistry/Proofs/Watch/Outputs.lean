import ClientRegistry.Proofs.FileTree.Walk
import ClientRegistry.Proofs.Manifest.CleanSafety
import ClientRegistry.Proofs.Path.Names
import ClientRegistry.Proofs.Path.Spelling
import ClientRegistry.Watch.Filter

/-!
# Which changes are output

Seen from an absolute root, a path is output where it begins as the output directory is written, or
with the place of that directory without links, if it has one. Neither comparison folds `..`. So a
change in the output directory counts all the same when `..` stands in its path, or when it stands in
the path of the directory and the directory is not there, or is somewhere else by a link.
-/

set_option autoImplicit false

namespace ClientRegistry.Watch.Filter

variable {t : FileTree} {dir place : Location} {root outDir p : Path}

/-- The path lies at or below the output directory, when `.` and `..` are folded in both. -/
def LiesIn (root outDir p : Path) : Prop := (root.join outDir).folded <+: (root.join p).folded

instance (root outDir p : Path) : Decidable (LiesIn root outDir p) :=
  inferInstanceAs (Decidable ((root.join outDir).folded <+: (root.join p).folded))

/-! ### The spellings of the output directory -/

/-- The path or the path seen from the root begins with an absolute spelling just where the second
one does. -/
theorem startsWith_absolute_iff (hBase : outDir.isAbsolute = true) :
    (p.startsWith outDir || (root.join p).startsWith outDir) = true ↔
      outDir.components <+: (root.join p).components := by
  rw [Bool.or_eq_true, Path.startsWith_iff, Path.startsWith_iff, or_iff_right_of_imp]
  intro hPrefix
  have hRoot : .root ∈ p.components := hPrefix.subset (Path.root_mem_components_iff.mpr hBase)
  rwa [Path.join_of_absolute root (Path.root_mem_components_iff.mp hRoot)]

/-- The spelling from the root covers the one that is not. -/
theorem startsWith_relative (hRoot : root.isAbsolute = true) (hOut : outDir.isAbsolute = false)
    (hText : outDir.text ≠ "") (h : (p.startsWith outDir || (root.join p).startsWith outDir) = true) :
    (root.join outDir).components <+: (root.join p).components := by
  have hFirst : .root ∉ outDir.components := by
    rw [Path.root_mem_components_iff, hOut]
    exact Bool.false_ne_true
  have hNot (q : Path) (hq : q.isAbsolute = true) : ¬ outDir.components <+: q.components := by
    intro hPrefix
    obtain ⟨c, rest, hComponents⟩ := List.exists_cons_of_ne_nil (Path.components_ne_nil hText)
    rw [Path.components_of_absolute hq, hComponents, List.cons_prefix_cons] at hPrefix
    rw [hComponents, hPrefix.1] at hFirst
    exact hFirst List.mem_cons_self
  rw [Bool.or_eq_true, Path.startsWith_iff, Path.startsWith_iff] at h
  rcases h with hWritten | hJoined
  · cases hp : p.isAbsolute with
    | true => exact absurd hWritten (hNot p hp)
    | false => exact Path.components_join_prefix hRoot hp hOut hWritten
  · exact absurd hJoined (hNot _ (Path.isAbsolute_join hRoot p))

theorem canonical?_eq_some_iff {q : Path} :
    canonical? t dir p = some q ↔ ∃ place, t.resolve dir p = .ok place ∧ place.toPath = q := by
  unfold canonical?
  cases t.resolve dir p with
  | ok place => simp
  | error failure => simp

theorem components_of_resolve (h : t.resolve dir p = .ok place) (hp : p.isAbsolute = true) :
    place.toPath.components = .root :: place.map .name := by
  rw [FileTree.resolve_of_absolute hp] at h
  apply Location.components_toPath
  exact FileTree.isName_of_resolve h fun name hName => absurd hName List.not_mem_nil

/-- Output is what begins, seen from the root, as the output directory is written or with its place. -/
theorem isOutput_iff (hRoot : root.isAbsolute = true) (hText : outDir.text ≠ "") :
    (ofOutDir t dir root outDir).isOutput p = true ↔
      (root.join outDir).components <+: (root.join p).components ∨
        ∃ place, t.resolve dir (root.join outDir) = .ok place ∧
          .root :: place.map .name <+: (root.join p).components := by
  have hJoined := Path.isAbsolute_join hRoot outDir
  have hWritten : (p.startsWith (root.join outDir) || (root.join p).startsWith (root.join outDir)) = true ↔
      (root.join outDir).components <+: (root.join p).components := startsWith_absolute_iff hJoined
  have hPlace : (∃ q, canonical? t dir (root.join outDir) = some q ∧
      (p.startsWith q || (root.join p).startsWith q) = true) ↔
        ∃ place, t.resolve dir (root.join outDir) = .ok place ∧
          .root :: place.map .name <+: (root.join p).components := by
    simp only [canonical?_eq_some_iff]
    constructor
    · rintro ⟨_, ⟨place, hResolve, rfl⟩, hStarts⟩
      rw [startsWith_absolute_iff place.isAbsolute_toPath, components_of_resolve hResolve hJoined] at hStarts
      exact ⟨place, hResolve, hStarts⟩
    · rintro ⟨place, hResolve, hPrefix⟩
      refine ⟨_, ⟨place, hResolve, rfl⟩, ?_⟩
      rwa [startsWith_absolute_iff place.isAbsolute_toPath, components_of_resolve hResolve hJoined]
  have hSpelled : (p.startsWith outDir || (root.join p).startsWith outDir) = true →
      (root.join outDir).components <+: (root.join p).components := by
    intro hStarts
    cases hOut : outDir.isAbsolute with
    | true =>
      rw [Path.join_of_absolute root hOut]
      exact (startsWith_absolute_iff hOut).mp hStarts
    | false => exact startsWith_relative hRoot hOut hText hStarts
  have hAny : (ofOutDir t dir root outDir).isOutput p = true ↔
      (p.startsWith outDir || (root.join p).startsWith outDir) = true ∨
        (p.startsWith (root.join outDir) || (root.join p).startsWith (root.join outDir)) = true ∨
        ∃ q, canonical? t dir (root.join outDir) = some q ∧
          (p.startsWith q || (root.join p).startsWith q) = true := by
    simp [isOutput, ofOutDir]
  rw [hAny, hWritten, hPlace, ← or_assoc, or_iff_right_of_imp hSpelled]

theorem accepts_eq_false_iff {f : Filter} {c : Change} :
    f.accepts c = false ↔ c.kind = .other ∨ isSchema c.path = false ∨ f.isOutput c.path = true := by
  rw [accepts, Bool.and_eq_false_iff, Bool.and_eq_false_iff, bne_eq_false_iff_eq, Bool.not_eq_false', or_assoc]

/-! ### Changes in the output directory -/

theorem liesIn_iff (hRoot : root.isAbsolute = true) :
    LiesIn root outDir p ↔ (root.join outDir).locate [] <+: (root.join p).locate [] := by
  rw [LiesIn, Path.folded_of_absolute (Path.isAbsolute_join hRoot outDir) [],
    Path.folded_of_absolute (Path.isAbsolute_join hRoot p) []]
  exact NormalForm.absolute_prefix_iff

/-- Where neither path has `..`, the path lies in the directory just where it begins as that is written. -/
theorem liesIn_iff_isPrefix (hRoot : root.isAbsolute = true)
    (hOut : .parent ∉ (root.join outDir).components) (hp : .parent ∉ (root.join p).components) :
    LiesIn root outDir p ↔ (root.join outDir).components <+: (root.join p).components := by
  rw [LiesIn, (Path.folded_eq_components_iff (Path.isAbsolute_join hRoot outDir)).mpr hOut,
    (Path.folded_eq_components_iff (Path.isAbsolute_join hRoot p)).mpr hp]

theorem components_prefix_of_liesIn (hRoot : root.isAbsolute = true) (h : LiesIn root outDir p)
    (hOut : .parent ∉ (root.join outDir).components) (hp : .parent ∉ (root.join p).components) :
    (root.join outDir).components <+: (root.join p).components :=
  (liesIn_iff_isPrefix hRoot hOut hp).mp h

/-- A path that has no `..` begins with a place just where it leads to or below it. -/
theorem place_prefix_iff (hRoot : root.isAbsolute = true) (hp : .parent ∉ (root.join p).components) :
    .root :: place.map .name <+: (root.join p).components ↔ place <+: (root.join p).locate [] := by
  have hJoined := Path.isAbsolute_join hRoot p
  rw [← (Path.folded_eq_components_iff hJoined).mpr hp, Path.folded_of_absolute hJoined []]
  exact NormalForm.absolute_prefix_iff

/-- The place of the directory is a prefix of a path in it that has no `..`, if it is one of what the
path of the directory folds to. -/
theorem place_prefix_of_liesIn (hRoot : root.isAbsolute = true) (h : LiesIn root outDir p)
    (hPlace : place <+: (root.join outDir).locate []) (hp : .parent ∉ (root.join p).components) :
    .root :: place.map .name <+: (root.join p).components :=
  (place_prefix_iff hRoot hp).mpr (hPlace.trans ((liesIn_iff hRoot).mp h))

theorem isSchema_join (p : Path) {name : String} (h : IsName name) (hSchema : isSchema ⟨name⟩ = true) :
    isSchema (p.join ⟨name⟩) = true := by
  rw [isSchema, List.isSuffixOf_iff_suffix] at hSchema ⊢
  exact hSchema.trans (p.text_suffix_join h.isAbsolute_eq)

def changeBy (detour root outDir : Path) (name : String) : Change :=
  ⟨.modified, detour.joinNames ((root.join outDir).locate [] ++ [name])⟩

variable {detour : Path} {name : String}

theorem components_changeBy (hDetour : detour.isAbsolute = true) (hName : IsName name) :
    (root.join (changeBy detour root outDir name).path).components =
      detour.components ++ ((root.join outDir).locate [] ++ [name]).map .name := by
  have hNames : ∀ n ∈ (root.join outDir).locate [] ++ [name], IsName n := by
    intro n hn
    rcases List.mem_append.mp hn with hOld | hNew
    · exact Path.isName_of_mem_locate (fun m hm => absurd hm List.not_mem_nil) n hOld
    · rwa [List.mem_singleton.mp hNew]
  have hComponents := detour.components_joinNames hNames
  have hAbsolute : (detour.joinNames ((root.join outDir).locate [] ++ [name])).isAbsolute = true := by
    rw [← Path.root_mem_components_iff, hComponents]
    exact List.mem_append_left _ (Path.root_mem_components_iff.mpr hDetour)
  rw [changeBy, Path.join_of_absolute root hAbsolute, hComponents]

/-- A detour that comes back to the root of the file tree leads into the output directory. -/
theorem liesIn_changeBy (hRoot : root.isAbsolute = true) (hDetour : detour.isAbsolute = true)
    (hBack : detour.locate [] = []) (hName : IsName name) :
    LiesIn root outDir (changeBy detour root outDir name).path := by
  rw [liesIn_iff hRoot, Path.locate, Path.locate, components_changeBy hDetour hName, List.foldl_append,
    Component.foldl_follow_names]
  rw [Path.locate] at hBack
  rw [hBack, List.nil_append]
  exact List.prefix_append _ _

theorem accepts_changeBy (hRoot : root.isAbsolute = true) (hText : outDir.text ≠ "")
    (hDetour : detour.isAbsolute = true) (hName : IsName name) (hSchema : isSchema ⟨name⟩ = true)
    (hWritten : ¬ (root.join outDir).components <+:
      detour.components ++ ((root.join outDir).locate [] ++ [name]).map .name)
    (hPlace : ∀ place, t.resolve dir (root.join outDir) = .ok place →
      ¬ .root :: place.map .name <+: detour.components ++ ((root.join outDir).locate [] ++ [name]).map .name) :
    (ofOutDir t dir root outDir).accepts (changeBy detour root outDir name) = true := by
  rw [← Bool.not_eq_false, accepts_eq_false_iff, isOutput_iff hRoot hText, components_changeBy hDetour hName]
  rintro (hKind | hNotSchema | hPrefix | ⟨place, hResolve, hPrefix⟩)
  · cases hKind
  · rw [changeBy, Path.joinNames_concat, isSchema_join _ hName hSchema] at hNotSchema
    cases hNotSchema
  · exact hWritten hPrefix
  · exact hPlace place hResolve hPrefix

theorem exists_schema_not_resolved (t : FileTree) (dir above : Location) (q : Path) :
    ∃ name, IsName name ∧ isSchema ⟨name⟩ = true ∧ t.resolve dir q ≠ .ok (above ++ [name]) := by
  by_cases h : t.resolve dir q = .ok (above ++ ["a.proto"])
  · refine ⟨"b.proto", by decide, by decide, ?_⟩
    rw [h]
    simp
  · exact ⟨"a.proto", by decide, by decide, h⟩

theorem exists_name_ne (first second : Option String) :
    ∃ name, IsName name ∧ first ≠ some name ∧ second ≠ some name := by
  by_cases hx : first ≠ some "x" ∧ second ≠ some "x"
  · exact ⟨"x", by decide, hx⟩
  by_cases hy : first ≠ some "y" ∧ second ≠ some "y"
  · exact ⟨"y", by decide, hy⟩
  refine ⟨"z", by decide, ?_⟩
  rw [not_and_or, not_not, not_not] at hx hy
  rcases hx with rfl | rfl
  · obtain rfl := hy.resolve_left (by decide)
    decide
  · obtain rfl := hy.resolve_right (by decide)
    decide

/-- Some change in the output directory counts though its path has no `..`, if the path of the
directory has one and its place is not at or above the one that this path folds to. -/
theorem exists_accepted_without_parent (hRoot : root.isAbsolute = true) (hText : outDir.text ≠ "")
    (hParent : .parent ∈ (root.join outDir).components)
    (hPlace : ∀ place, t.resolve dir (root.join outDir) = .ok place → ¬ place <+: (root.join outDir).locate []) :
    ∃ c : Change, LiesIn root outDir c.path ∧ .parent ∉ (root.join c.path).components ∧
      (ofOutDir t dir root outDir).accepts c = true := by
  obtain ⟨name, hName, hSchema, hNew⟩ :=
    exists_schema_not_resolved t dir ((root.join outDir).locate []) (root.join outDir)
  have hTop : (Path.mk "/").isAbsolute = true := rfl
  have hComponents : (Path.mk "/").components = [.root] := rfl
  have hNoParent : Component.parent ∉
      (Path.mk "/").components ++ ((root.join outDir).locate [] ++ [name]).map .name := by
    simp [hComponents]
  refine ⟨changeBy ⟨"/"⟩ root outDir name, liesIn_changeBy hRoot hTop rfl hName, ?_,
    accepts_changeBy hRoot hText hTop hName hSchema ?_ ?_⟩
  · rwa [components_changeBy hTop hName]
  · exact fun hPrefix => hNoParent (hPrefix.subset hParent)
  · intro place hResolve hPrefix
    rw [hComponents, List.singleton_append] at hPrefix
    rcases List.prefix_concat_iff.mp (NormalForm.absolute_prefix_iff.mp hPrefix) with rfl | hAbove
    · exact hNew hResolve
    · exact hPlace place hResolve hAbove

/-- Some change in the output directory counts, unless the directory is the root of the file tree as it
is written or where it stands. -/
theorem exists_accepted (hRoot : root.isAbsolute = true) (hText : outDir.text ≠ "")
    (hWritten : (root.join outDir).components ≠ [.root]) (hPlace : t.resolve dir (root.join outDir) ≠ .ok []) :
    ∃ c : Change, LiesIn root outDir c.path ∧ (ofOutDir t dir root outDir).accepts c = true := by
  obtain ⟨fresh, hFresh, hNotWritten, hNotPlace⟩ :=
    exists_name_ne ((root.join outDir).steps.head?.bind Component.name?)
      ((t.resolve dir (root.join outDir)).toOption.bind List.head?)
  have hRootPath := Location.isAbsolute_toPath [fresh]
  have hDetour : ((Location.toPath [fresh]).join ⟨".."⟩).isAbsolute = true := Path.isAbsolute_join hRootPath _
  have hComponents : ((Location.toPath [fresh]).join ⟨".."⟩).components = [.root, .name fresh, .parent] := by
    rw [Path.components_join_of_absolute hRootPath rfl, Location.components_toPath (by simpa using hFresh)]
    rfl
  have hBack : ((Location.toPath [fresh]).join ⟨".."⟩).locate [] = [] := by
    rw [Path.locate, hComponents]
    rfl
  refine ⟨changeBy ((Location.toPath [fresh]).join ⟨".."⟩) root outDir "a.proto",
    liesIn_changeBy hRoot hDetour hBack (by decide),
    accepts_changeBy hRoot hText hDetour (by decide) (by decide) ?_ ?_⟩
  · intro hPrefix
    rw [Path.components_of_absolute (Path.isAbsolute_join hRoot outDir)] at hPrefix hWritten
    rw [hComponents, List.cons_append, List.cons_prefix_cons] at hPrefix
    cases hSteps : (root.join outDir).steps with
    | nil => exact hWritten (by rw [hSteps])
    | cons c rest =>
      rw [hSteps, List.cons_append, List.cons_prefix_cons] at hPrefix
      rw [hSteps, hPrefix.2.1] at hNotWritten
      exact hNotWritten rfl
  · intro place hResolve hPrefix
    rw [hComponents, List.cons_append, List.cons_prefix_cons] at hPrefix
    cases place with
    | nil => exact hPlace hResolve
    | cons n rest =>
      rw [List.map_cons, List.cons_append, List.cons_prefix_cons] at hPrefix
      rw [hResolve, Component.name.inj hPrefix.2.1] at hNotPlace
      exact hNotPlace rfl

/-- A change is refused for its kind, its name, or one of the two prefixes. So all changes in the output
directory that are written without `..` are refused exactly when the directory is written without `..`
too, or stands at or above the place its path folds to; and all changes in it are refused exactly when it
is the root of the file tree. -/
theorem refuses_output_iff {config : GenerationConfig} (hValid : config.validate = .ok ())
    (hRoot : root.isAbsolute = true) (t : FileTree) (dir : Location) :
    (∀ c : Change, (ofOutDir t dir root config.outDir).accepts c = false ↔
      c.kind = .other ∨ isSchema c.path = false ∨
        (root.join config.outDir).components <+: (root.join c.path).components ∨
        ∃ place, t.resolve dir (root.join config.outDir) = .ok place ∧
          .root :: place.map .name <+: (root.join c.path).components) ∧
    ((∀ c : Change, LiesIn root config.outDir c.path → .parent ∉ (root.join c.path).components →
        (ofOutDir t dir root config.outDir).accepts c = false) ↔
      .parent ∉ (root.join config.outDir).components ∨
        ∃ place, t.resolve dir (root.join config.outDir) = .ok place ∧
          place <+: (root.join config.outDir).locate []) ∧
    ((∀ c : Change, LiesIn root config.outDir c.path → (ofOutDir t dir root config.outDir).accepts c = false) ↔
      (root.join config.outDir).components = [.root] ∨ t.resolve dir (root.join config.outDir) = .ok []) := by
  have hText := ((GenerationConfig.validate_eq_ok_iff config).mp hValid).2.1
  have hEach (c : Change) : (ofOutDir t dir root config.outDir).accepts c = false ↔
      c.kind = .other ∨ isSchema c.path = false ∨
        (root.join config.outDir).components <+: (root.join c.path).components ∨
        ∃ place, t.resolve dir (root.join config.outDir) = .ok place ∧
          .root :: place.map .name <+: (root.join c.path).components := by
    rw [accepts_eq_false_iff, isOutput_iff hRoot hText]
  refine ⟨hEach, ⟨fun hAll => ?_, fun hDir c hIn hParent => ?_⟩, ⟨fun hAll => ?_, fun hDir c hIn => ?_⟩⟩
  · by_contra hNot
    rw [not_or, not_not, not_exists] at hNot
    obtain ⟨c, hIn, hParent, hAccepted⟩ := exists_accepted_without_parent hRoot hText hNot.1
      fun place hResolve hPrefix => hNot.2 place ⟨hResolve, hPrefix⟩
    rw [hAll c hIn hParent] at hAccepted
    cases hAccepted
  · rw [hEach]
    rcases hDir with hOut | ⟨place, hResolve, hPrefix⟩
    · exact .inr (.inr (.inl (components_prefix_of_liesIn hRoot hIn hOut hParent)))
    · exact .inr (.inr (.inr ⟨place, hResolve, place_prefix_of_liesIn hRoot hIn hPrefix hParent⟩))
  · by_contra hNot
    rw [not_or] at hNot
    obtain ⟨c, hIn, hAccepted⟩ := exists_accepted hRoot hText hNot.1 hNot.2
    rw [hAll c hIn] at hAccepted
    cases hAccepted
  · have hJoined := Path.components_of_absolute (Path.isAbsolute_join hRoot c.path)
    rw [hEach, hJoined]
    rcases hDir with hWritten | hResolve
    · refine .inr (.inr (.inl ?_))
      rw [hWritten]
      exact List.prefix_append [Component.root] _
    · exact .inr (.inr (.inr ⟨[], hResolve, List.prefix_append [Component.root] _⟩))

/-- Before the first generation, when nothing is in the file tree. -/
theorem refuses_output_default :
    GenerationConfig.default.validate = .ok () ∧ (Path.mk "/project").isAbsolute = true ∧
      ∀ c : Change, LiesIn ⟨"/project"⟩ GenerationConfig.default.outDir c.path →
        .parent ∉ ((Path.mk "/project").join c.path).components →
        (ofOutDir FileTree.empty [] ⟨"/project"⟩ GenerationConfig.default.outDir).accepts c = false :=
  ⟨rfl, rfl, (refuses_output_iff rfl rfl FileTree.empty []).2.1.mpr (.inl (by decide))⟩

/-- Two changes in the output directory that count: the first by the `..` in the path of the directory,
the second by the one in its own. -/
theorem not_refuses_output :
    ((GenerationConfig.defaultInto ⟨"tmp/../gen"⟩).validate = .ok () ∧
      LiesIn ⟨"/project"⟩ ⟨"tmp/../gen"⟩ ⟨"/project/gen/a.proto"⟩ ∧
      (ofOutDir FileTree.empty [] ⟨"/project"⟩ ⟨"tmp/../gen"⟩).accepts ⟨.modified, ⟨"/project/gen/a.proto"⟩⟩ = true) ∧
    ((GenerationConfig.defaultInto ⟨"gen"⟩).validate = .ok () ∧
      LiesIn ⟨"/project"⟩ ⟨"gen"⟩ ⟨"proto/../gen/a.proto"⟩ ∧
      (ofOutDir FileTree.empty [] ⟨"/project"⟩ ⟨"gen"⟩).accepts ⟨.modified, ⟨"proto/../gen/a.proto"⟩⟩ = true) := by
  decide +kernel

end ClientRegistry.Watch.Filter
