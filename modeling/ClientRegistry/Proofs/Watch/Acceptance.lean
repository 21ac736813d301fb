import ClientRegistry.Proofs.Watch.Outputs

/-!
# Changes written without `..`

Where neither the root nor the output directory nor the changed path has `..`, all spellings of a path
that lead to one place are alike to the filter. A change counts when its kind does, when it is one of a
schema, and when it lies outside of the output directory, seen from the root and without links.
-/

set_option autoImplicit false

namespace ClientRegistry.Watch.Filter

variable {t : FileTree} {dir : Location} {root outDir p : Path} {c : Change}

structure Relevant (t : FileTree) (dir : Location) (root outDir : Path) (c : Change) : Prop where
  kind : c.kind = .created ∨ c.kind = .modified ∨ c.kind = .removed
  schema : ".proto".toList <:+ c.path.text.toList
  outside : ¬LiesIn root outDir c.path
  /-- It does not lie in the directory that the output directory is without links, if it is there. -/
  outsidePlace : ∀ place, t.resolve dir (root.join outDir) = .ok place → ¬place <+: (root.join c.path).locate []

theorem isSchema_iff : isSchema p = true ↔ ".proto".toList <:+ p.text.toList := List.isSuffixOf_iff_suffix

/-- The ending of a schema has no slash, so it is seen in a relative path as well as from the root. -/
theorem isSchema_join_root (hRoot : root.isAbsolute = true) (p : Path) :
    isSchema (root.join p) = isSchema p := by
  cases hp : p.isAbsolute with
  | true => rw [Path.join_of_absolute root hp]
  | false =>
    obtain ⟨before, hText⟩ := Path.exists_toList_join hRoot hp
    have hNoSlash : '/' ∉ ".proto".toList := by decide
    rw [Bool.eq_iff_iff, isSchema_iff, isSchema_iff, hText]
    constructor
    · intro hWhole
      rcases List.suffix_or_suffix_of_suffix hWhole (List.suffix_append before _) with hLast | hSlash
      · rcases List.suffix_cons_iff.mp hLast with hEq | hSuffix
        · rw [hEq] at hNoSlash
          exact absurd List.mem_cons_self hNoSlash
        · exact hSuffix
      · exact absurd (hSlash.subset List.mem_cons_self) hNoSlash
    · exact fun hSuffix => (hSuffix.trans (List.suffix_cons _ _)).trans (List.suffix_append before _)

theorem accepts_eq_true_iff {f : Filter} :
    f.accepts c = true ↔ c.kind ≠ .other ∧ isSchema c.path = true ∧ f.isOutput c.path = false := by
  rw [accepts, Bool.and_eq_true, Bool.and_eq_true, bne_iff_ne, Bool.not_eq_true', and_assoc]

theorem kind_ne_other_iff {k : ChangeKind} : k ≠ .other ↔ k = .created ∨ k = .modified ∨ k = .removed := by
  cases k <;> decide

theorem accepts_iff_relevant (hRoot : root.isAbsolute = true) (hText : outDir.text ≠ "")
    (hOut : .parent ∉ (root.join outDir).components) (hp : .parent ∉ (root.join c.path).components) :
    (ofOutDir t dir root outDir).accepts c = true ↔ Relevant t dir root outDir c := by
  have hOutside : (ofOutDir t dir root outDir).isOutput c.path = false ↔ ¬LiesIn root outDir c.path ∧
      ∀ place, t.resolve dir (root.join outDir) = .ok place → ¬place <+: (root.join c.path).locate [] := by
    rw [← Bool.not_eq_true, isOutput_iff hRoot hText, not_or, ← liesIn_iff_isPrefix hRoot hOut hp]
    simp only [place_prefix_iff hRoot hp, not_exists, not_and]
  rw [accepts_eq_true_iff, kind_ne_other_iff, isSchema_iff, hOutside]
  exact ⟨fun ⟨hKind, hSchema, hIn, hPlace⟩ => ⟨hKind, hSchema, hIn, hPlace⟩,
    fun h => ⟨h.kind, h.schema, h.outside, h.outsidePlace⟩⟩

theorem isOutput_join (hRoot : root.isAbsolute = true) (hText : outDir.text ≠ "") (p : Path) :
    (ofOutDir t dir root outDir).isOutput (root.join p) = (ofOutDir t dir root outDir).isOutput p := by
  rw [Bool.eq_iff_iff, isOutput_iff hRoot hText, isOutput_iff hRoot hText,
    Path.join_of_absolute root (Path.isAbsolute_join hRoot p)]

/-! ### Spellings -/

structure Exact (t : FileTree) (dir : Location) (root outDir : Path) : Prop where
  accepts_iff : ∀ c : Change, .parent ∉ c.path.components →
    ((ofOutDir t dir root outDir).accepts c = true ↔ Relevant t dir root outDir c)
  /-- A path and the same one seen from the root are alike. -/
  fromRoot : ∀ kind p, (ofOutDir t dir root outDir).accepts ⟨kind, root.join p⟩ =
    (ofOutDir t dir root outDir).accepts ⟨kind, p⟩
  /-- Paths that lead to one place are alike, if both are written as a schema. -/
  respelled : ∀ kind p q, .parent ∉ p.components → .parent ∉ q.components →
    (root.join p).locate [] = (root.join q).locate [] → isSchema p = isSchema q →
      (ofOutDir t dir root outDir).accepts ⟨kind, p⟩ = (ofOutDir t dir root outDir).accepts ⟨kind, q⟩
  /-- Output directories that lead to one place, and to one without links, are alike. -/
  directoryRespelled : ∀ outDir', outDir'.text ≠ "" → .parent ∉ outDir'.components →
    (root.join outDir').locate [] = (root.join outDir).locate [] →
    (∀ place, t.resolve dir (root.join outDir') = .ok place ↔ t.resolve dir (root.join outDir) = .ok place) →
      ∀ c : Change, .parent ∉ c.path.components →
        (ofOutDir t dir root outDir').accepts c = (ofOutDir t dir root outDir).accepts c

theorem accepts_join (hRoot : root.isAbsolute = true) (hText : outDir.text ≠ "") (kind : ChangeKind) (p : Path) :
    (ofOutDir t dir root outDir).accepts ⟨kind, root.join p⟩ =
      (ofOutDir t dir root outDir).accepts ⟨kind, p⟩ := by
  rw [accepts, accepts, isSchema_join_root hRoot, isOutput_join hRoot hText]

/-- What is relevant is said of places alone, but for the ending of a schema. -/
theorem Relevant.congr {outDir' : Path} {c' : Change} (h : Relevant t dir root outDir c)
    (hRoot : root.isAbsolute = true) (hKind : c'.kind = c.kind) (hSchema : isSchema c'.path = isSchema c.path)
    (hOut : (root.join outDir').locate [] = (root.join outDir).locate [])
    (hPlaces : ∀ place, t.resolve dir (root.join outDir') = .ok place ↔ t.resolve dir (root.join outDir) = .ok place)
    (hPath : (root.join c'.path).locate [] = (root.join c.path).locate []) :
    Relevant t dir root outDir' c' where
  kind := hKind ▸ h.kind
  schema := isSchema_iff.mp (hSchema.trans (isSchema_iff.mpr h.schema))
  outside := by
    rw [liesIn_iff hRoot, hOut, hPath, ← liesIn_iff hRoot]
    exact h.outside
  outsidePlace := by
    intro place hResolve
    rw [hPath]
    exact h.outsidePlace place ((hPlaces place).mp hResolve)

theorem exact_of_plain (hRoot : root.isAbsolute = true) (hText : outDir.text ≠ "")
    (hRootUp : .parent ∉ root.components) (hOutUp : .parent ∉ outDir.components) (t : FileTree) (dir : Location) :
    Exact t dir root outDir := by
  have hUp (q : Path) (hq : .parent ∉ q.components) : .parent ∉ (root.join q).components :=
    Path.parent_not_mem_components_join hRoot hRootUp hq
  have hAccepts (out : Path) (hOut : out.text ≠ "") (hOutUp : .parent ∉ out.components) (c : Change)
      (hc : .parent ∉ c.path.components) :
      (ofOutDir t dir root out).accepts c = true ↔ Relevant t dir root out c :=
    accepts_iff_relevant hRoot hOut (hUp out hOutUp) (hUp c.path hc)
  refine ⟨hAccepts outDir hText hOutUp, accepts_join hRoot hText, ?_, ?_⟩
  · intro kind p q hp hq hPlace hSchema
    rw [Bool.eq_iff_iff, hAccepts outDir hText hOutUp ⟨kind, p⟩ hp, hAccepts outDir hText hOutUp ⟨kind, q⟩ hq]
    exact ⟨fun h => h.congr hRoot rfl hSchema.symm rfl (fun _ => Iff.rfl) hPlace.symm,
      fun h => h.congr hRoot rfl hSchema rfl (fun _ => Iff.rfl) hPlace⟩
  · intro outDir' hText' hOutUp' hOut hPlaces c hc
    rw [Bool.eq_iff_iff, hAccepts outDir' hText' hOutUp' c hc, hAccepts outDir hText hOutUp c hc]
    exact ⟨fun h => h.congr hRoot rfl rfl hOut.symm (fun place => (hPlaces place).symm) rfl,
      fun h => h.congr hRoot rfl rfl hOut hPlaces rfl⟩

def linkedOutput : FileTree :=
  ((FileTree.empty.put ["store"] .directory).put ["project"] .directory).put ["project", "gen"] (.link "../store")

/-- With a link in its place and a needless `.` and slash in its path. Of two changes one lies beside the
directory and counts, the other lies where the link leads. -/
theorem exact_of_plain_linked :
    (Path.mk "/project").isAbsolute = true ∧ (Path.mk ".//gen/").text ≠ "" ∧
      .parent ∉ (Path.mk "/project").components ∧ .parent ∉ (Path.mk ".//gen/").components ∧
      Exact linkedOutput [] ⟨"/project"⟩ ⟨".//gen/"⟩ ∧
      Relevant linkedOutput [] ⟨"/project"⟩ ⟨".//gen/"⟩ ⟨.created, ⟨"genuine/./a.proto"⟩⟩ ∧
      ¬Relevant linkedOutput [] ⟨"/project"⟩ ⟨".//gen/"⟩ ⟨.removed, ⟨"/store//b.proto"⟩⟩ := by
  have hExact : Exact linkedOutput [] ⟨"/project"⟩ ⟨".//gen/"⟩ :=
    exact_of_plain (by decide) (by decide) (by decide) (by decide) linkedOutput []
  refine ⟨by decide, by decide, by decide, by decide, hExact, ?_, ?_⟩
  · exact (hExact.accepts_iff _ (by decide)).mp (by decide +kernel)
  · exact fun h => absurd ((hExact.accepts_iff _ (by decide)).mpr h) (by decide +kernel)

end ClientRegistry.Watch.Filter
